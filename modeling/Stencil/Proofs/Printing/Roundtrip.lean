/-
**Reading undoes printing.**

By induction over an expression, its pieces are a phrase of its level, and begin one where the
level has a loop.  Where one of another level is wanted, either the levels in between pass the
phrase on or parentheses stand around it.  Each pair of brackets, sign or exponent takes a piece and
one of the calls that are tied; there are never more of them than pieces.

Main definitions:

* `Stencil.Syntax.IsRead` — the pieces of an expression are read for its tree.

Main results:

* `Stencil.Syntax.Expression.isRead` — this is so of all expressions;
* `Stencil.Syntax.Expression.ofSource_printed` — a template that prints an expression has the tree
  that outputs it.
-/

import Stencil.Proofs.Printing.Nodes
import Stencil.Proofs.Printing.Terms

set_option autoImplicit false

namespace Stencil.Syntax

open Piece (mark word)
open Parse

/-! ### Trees -/

namespace Expression

/-- A tree that is built has no place. -/
@[simp] theorem position_node (a : Expression) : a.node.position = .start := by
  cases a with
  | relate op negated a b => cases negated <;> simp [node, Node.position]
  | _ => simp [node, Node.position]

/-- What is compared first, and what to. -/
def chain : Expression → Node × List Node
  | compare a op b more => (a.node, .operand .start op b.node :: operandNodes more)
  | a => (a.node, [])

theorem gathered_chain (a : Expression) : gathered a.chain.1 a.chain.2 = a.node := by
  cases a with
  | compare a op b more => simp [chain, gathered, node]
  | _ => rfl

theorem chain_eq {a : Expression} (h : a.isCompare = false) : a.chain = (a.node, []) := by
  cases a with
  | compare a op b more => cases h
  | _ => rfl

theorem isCompare_eq_false {a : Expression} (h : a.level ≠ .compare) : a.isCompare = false := by
  cases a with
  | compare a op b more => exact absurd rfl h
  | _ => rfl

theorem isBareFilter_eq_false {a : Expression} (h : a.level ≠ .suffix) :
    a.isBareFilter = false := by
  cases a with
  | filter a x members args keywords => exact absurd rfl h
  | _ => rfl

theorem pieces_binary {op : Infix} (h : op ≠ .pow) (a b : Expression) :
    (binary op a b).pieces = a.piecesAt op.level ++ op.piece :: b.piecesAt op.level.next := by
  cases op with
  | pow => exact absurd rfl h
  | _ => rfl

theorem pieces_ne_nil (a : Expression) : a.pieces ≠ [] := by
  obtain ⟨t, us, h, _⟩ := a.startsWith_pieces
  simp [h]

end Expression

/-- The levels of which the readers have a loop. -/
def Level.repeats : Level → Bool
  | .or | .and | .compare | .sum | .product | .suffix => true
  | _ => false

theorem Infix.repeats_level {op : Infix} (h : op ≠ .pow) :
    op.level.repeats = true ∧ op.level ≠ .compare ∧ op.level ≠ .suffix := by
  cases op with
  | pow => exact absurd rfl h
  | _ => exact ⟨rfl, by decide, by decide⟩

/-! ### Reading at a level -/

/-- The pieces of an expression are read for its tree. -/
structure IsRead (hosts : List TagReader) (a : Expression) : Prop where
  phrase : ∀ depth, a.pieces.length ≤ depth + 1 →
    Phrase (.tied hosts (depth + 1)) a.level a.pieces a.node
  begins : ∀ depth, a.pieces.length ≤ depth + 1 → a.level.repeats = true →
    Begins (.tied hosts (depth + 1)) a.level a.isBareFilter a.pieces a.chain.1 a.chain.2

/-- What need not end in the name of a filter may do so. -/
theorem Begins.weaken {g : Grammar} {level : Level} {ts : List Piece} {n : Node}
    {operands : List Node} {bare : Bool} (h : Begins g level false ts n operands) :
    Begins g level bare ts n operands :=
  fun rest Q out hrest _ hresume => h rest Q out hrest nofun hresume

namespace IsRead

variable {hosts : List TagReader} {a b : Expression} {w : Level} {depth : Nat}

theorem of_phrase (hlevel : a.level.repeats = false)
    (h : ∀ depth, a.pieces.length ≤ depth + 1 →
      Phrase (.tied hosts (depth + 1)) a.level a.pieces a.node) : IsRead hosts a :=
  ⟨h, fun _ _ hrepeats => by rw [hlevel] at hrepeats; cases hrepeats⟩

theorem of_begins (h : ∀ depth, a.pieces.length ≤ depth + 1 →
      Begins (.tied hosts (depth + 1)) a.level a.isBareFilter a.pieces a.chain.1 a.chain.2) :
    IsRead hosts a := by
  refine ⟨fun depth hdepth => ?_, fun depth hdepth _ => h depth hdepth⟩
  rw [← a.gathered_chain]
  refine (h depth hdepth).phrase (fun hlevel => ?_) fun hbare => ?_
  · rw [Expression.chain_eq (Expression.isCompare_eq_false hlevel)]
  · by_contra hlevel
    rw [Expression.isBareFilter_eq_false hlevel] at hbare
    cases hbare

theorem begins_of_le (h : IsRead hosts a) (hdepth : a.pieces.length ≤ depth)
    (hlevel : a.level.repeats = true) :
    Begins (.tied hosts depth) a.level a.isBareFilter a.pieces a.chain.1 a.chain.2 := by
  have hpos := List.length_pos_iff.2 a.pieces_ne_nil
  obtain ⟨depth, rfl⟩ := Nat.exists_eq_add_one_of_ne_zero (Nat.ne_zero_of_lt (hpos.trans_le hdepth))
  exact h.begins depth hdepth hlevel

/-- What starts an expression starts every looser one. -/
theorem startsWith (a : Expression) (hw : w.rank ≤ a.level.rank) : StartsWith w a.pieces :=
  a.startsWith_pieces.loosen hw

theorem loosened (h : IsRead hosts a) (hw : w.rank ≤ a.level.rank) (hdepth : a.pieces.length ≤ depth) :
    Phrase (.tied hosts depth) w a.pieces a.node := by
  have hpos := List.length_pos_iff.2 a.pieces_ne_nil
  obtain ⟨depth, rfl⟩ := Nat.exists_eq_add_one_of_ne_zero (Nat.ne_zero_of_lt (hpos.trans_le hdepth))
  exact (h.phrase depth hdepth).loosen a.startsWith_pieces hw

theorem choice_le (l : Level) : Level.choice.rank ≤ l.rank := by
  cases l <;> decide

/-- An expression without anything around it. -/
theorem whole (h : IsRead hosts a) (hdepth : a.pieces.length ≤ depth) :
    Phrase (.tied hosts depth) .choice a.pieces a.node :=
  h.loosened (choice_le _) hdepth

theorem startsWith_whole (a : Expression) : StartsWith .choice a.pieces :=
  a.startsWith_pieces.loosen (choice_le _)

/-- Parentheses make an atom. -/
theorem parenthesized (h : IsRead hosts a) (hdepth : (parenthesized a.pieces).length ≤ depth) :
    Phrase (.tied hosts depth) .atom (Syntax.parenthesized a.pieces) a.node := by
  obtain ⟨depth, rfl⟩ := Nat.exists_eq_add_one_of_ne_zero (Nat.ne_zero_of_lt hdepth)
  refine .parenthesized (startsWith_whole a) (h.whole ?_)
  simp only [Syntax.parenthesized, List.length_cons, List.length_append, List.length_nil] at hdepth
  omega

theorem startsWith_parenthesized (ts : List Piece) :
    StartsWith .atom (Syntax.parenthesized ts) :=
  ⟨_, _, rfl, by decide, fun h => absurd h (by decide), fun h => absurd h (by decide)⟩

/-- An expression where one of some level is wanted. -/
theorem phraseAt (h : IsRead hosts a) (w : Level) (hdepth : (a.piecesAt w).length ≤ depth) :
    Phrase (.tied hosts depth) w (a.piecesAt w) a.node := by
  unfold Expression.piecesAt wrapped at hdepth ⊢
  split
  · next hw => exact h.loosened hw (by rwa [if_pos hw] at hdepth)
  · next hw =>
      rw [if_neg hw] at hdepth
      exact (h.parenthesized hdepth).loosen (startsWith_parenthesized _) (by cases w <;> decide)

/-- Where an expression of some level is wanted, one of this level stands, or a tighter one. -/
theorem level_or_next (h : IsRead hosts a) (hw : w ≠ .atom)
    (hdepth : (a.piecesAt w).length ≤ depth) :
    (a.level = w ∧ a.piecesAt w = a.pieces) ∨
      (StartsWith w.next (a.piecesAt w) ∧ Phrase (.tied hosts depth) w.next (a.piecesAt w) a.node) := by
  have hnext := Level.rank_next hw
  unfold Expression.piecesAt wrapped at hdepth ⊢
  split
  · next hle =>
      rw [if_pos hle] at hdepth
      rcases Nat.lt_or_eq_of_le hle with hlt | heq
      · have hle : w.next.rank ≤ a.level.rank := by omega
        exact .inr ⟨startsWith a hle, h.loosened hle hdepth⟩
      · exact .inl ⟨(Level.rank_injective heq).symm, rfl⟩
  · next hle =>
      rw [if_neg hle] at hdepth
      have hatom : w.next.rank ≤ Level.atom.rank := by cases w <;> decide
      exact .inr ⟨(startsWith_parenthesized _).loosen hatom,
        (h.parenthesized hdepth).loosen (startsWith_parenthesized _) hatom⟩

/-- A left operand, or what a suffix follows.  If it is a filter without arguments, nothing that
looks like arguments must follow it. -/
theorem beginsAt (bare : Bool) (h : IsRead hosts a) (hw : w.repeats = true) (hcompare : w ≠ .compare)
    (hbare : a.isBareFilter = true → w = .suffix → bare = true)
    (hdepth : (a.piecesAt w).length ≤ depth) :
    Begins (.tied hosts depth) w bare (a.piecesAt w) a.node [] := by
  have hatom : w ≠ .atom := by rintro rfl; cases hw
  rcases h.level_or_next hatom hdepth with ⟨rfl, heq⟩ | ⟨hstart, hphrase⟩
  · rw [heq] at hdepth ⊢
    have hbegins := h.begins_of_le hdepth hw
    rw [Expression.chain_eq (Expression.isCompare_eq_false hcompare)] at hbegins
    cases hfilter : a.isBareFilter with
    | false => exact (hfilter ▸ hbegins).weaken
    | true =>
        have hsuffix : a.level = .suffix := by
          by_contra hne
          rw [Expression.isBareFilter_eq_false hne] at hfilter
          cases hfilter
        rwa [hfilter, ← hbare hfilter hsuffix] at hbegins
  · exact (hphrase.begins hstart hatom).weaken

/-- What is compared first. -/
theorem firstAt (h : IsRead hosts a) (hdepth : (a.piecesAt a.firstLevel).length ≤ depth) :
    Begins (.tied hosts depth) .compare false (a.piecesAt a.firstLevel) a.node [] := by
  unfold Expression.firstLevel at hdepth ⊢
  split
  · next hcompare =>
      rw [if_pos hcompare] at hdepth
      exact (h.phraseAt .sum hdepth).begins (a.startsWith_piecesAt .sum) (by decide)
  · next hcompare =>
      rw [if_neg hcompare] at hdepth
      rcases h.level_or_next (w := .compare) (by decide) hdepth with ⟨hlevel, heq⟩ | ⟨hstart, hphrase⟩
      · rw [heq] at hdepth ⊢
        have hbegins := h.begins_of_le hdepth (by rw [hlevel]; rfl)
        rw [hlevel, Expression.chain_eq (Bool.eq_false_iff.2 hcompare),
          Expression.isBareFilter_eq_false (by rw [hlevel]; decide)] at hbegins
        exact hbegins
      · exact hphrase.begins hstart (by decide)

/-- The left operand of `in` or `is`, which may be a chain of comparisons. -/
theorem chainAt (h : IsRead hosts a) (hdepth : (a.piecesAt .compare).length ≤ depth) :
    ∃ n operands, gathered n operands = a.node ∧
      Begins (.tied hosts depth) .compare false (a.piecesAt .compare) n operands := by
  rcases h.level_or_next (w := .compare) (by decide) hdepth with ⟨hlevel, heq⟩ | ⟨hstart, hphrase⟩
  · rw [heq] at hdepth ⊢
    have hbegins := h.begins_of_le hdepth (by rw [hlevel]; rfl)
    rw [hlevel, Expression.isBareFilter_eq_false (by rw [hlevel]; decide)] at hbegins
    exact ⟨_, _, a.gathered_chain, hbegins⟩
  · exact ⟨a.node, [], rfl, hphrase.begins hstart (by decide)⟩

/-- What is called. -/
theorem calleeAt (h : IsRead hosts a) (hdepth : (a.piecesAt a.calleeLevel).length ≤ depth) :
    Begins (.tied hosts depth) .suffix false (a.piecesAt a.calleeLevel) a.node [] := by
  unfold Expression.calleeLevel at hdepth ⊢
  split
  · next hbare =>
      rw [if_pos hbare] at hdepth
      exact (h.phraseAt .atom hdepth).begins (a.startsWith_piecesAt .atom) (by decide)
  · next hbare =>
      rw [if_neg hbare] at hdepth
      exact h.beginsAt false rfl (by decide) (fun htrue => absurd htrue hbare) hdepth

end IsRead

/-! ### All expressions -/

section All

variable {hosts : List TagReader} {depth : Nat}

/-- A list with commas is as long as each of its members. -/
theorem length_le_separated {ts : List Piece} {tss : List (List Piece)} (h : ts ∈ tss) :
    ts.length ≤ (separated tss).length := by
  induction tss with
  | nil => cases h
  | cons us more ih =>
      rw [separated_cons, List.length_append]
      rcases List.mem_cons.1 h with rfl | hmem
      · omega
      · have hle : (mark "," :: ts).length ≤ (more.flatMap fun us => mark "," :: us).length :=
          (List.sublist_flatten_of_mem (List.mem_map_of_mem hmem)).length_le
        simp only [List.length_cons] at hle
        omega

/-- The items of an array. -/
theorem forall₂_each {items : List Expression} (depth : Nat) (h : ∀ a ∈ items, IsRead hosts a)
    (hdepth : ∀ ts ∈ Expression.each items, ts.length ≤ depth) :
    List.Forall₂ (fun ts n => StartsWith .choice ts ∧ Phrase (.tied hosts depth) .choice ts n)
      (Expression.each items) (Expression.nodes items) := by
  rw [Expression.each_eq_map] at hdepth ⊢
  rw [Expression.nodes_eq_map, List.forall₂_map_left_iff, List.forall₂_map_right_iff,
    List.forall₂_same]
  intro a ha
  exact ⟨IsRead.startsWith_whole a, (h a ha).whole (hdepth _ (List.mem_map_of_mem ha))⟩

/-- The entries of a dictionary. -/
theorem forall₂_eachEntry {entries : List (Expression × Expression)} (depth : Nat)
    (h : ∀ e ∈ entries, IsRead hosts e.1 ∧ IsRead hosts e.2)
    (hdepth : ∀ ts ∈ Expression.eachEntry entries, ts.length ≤ depth) :
    List.Forall₂ (Item (.tied hosts (depth + 1)) true) (Expression.eachEntry entries)
      (Expression.entryNodes entries) := by
  induction entries with
  | nil => exact .nil
  | cons e more ih =>
      obtain ⟨⟨hkey, hvalue⟩, hmore⟩ := List.forall_mem_cons.1 h
      obtain ⟨hlength, hdepth⟩ := List.forall_mem_cons.1 hdepth
      simp only [List.length_append, List.length_cons] at hlength
      refine .cons (Phrase.entry (e.1.startsWith_piecesAt .atom) (hkey.phraseAt .atom ?_) (hvalue.whole ?_))
        (ih hmore hdepth)
      · exact (Nat.le_add_right _ _).trans hlength
      · omega

/-- The keywords of a call or of a filter. -/
theorem forall₂_eachKeyword {keywords : List (Name × Expression)}
    (h : ∀ e ∈ keywords, IsRead hosts e.2)
    (hdepth : ∀ ts ∈ Expression.eachKeyword keywords, ts.length ≤ depth) :
    List.Forall₂ (fun ts n => ∃ (x : Name) (us : List Piece) (m : Node),
      ts = word x.text :: mark "=" :: us ∧ n = .pair .start (.symbol .start x.text) m ∧
        Phrase (.tied hosts depth) .choice us m)
      (Expression.eachKeyword keywords) (Expression.keywordNodes keywords) := by
  induction keywords with
  | nil => exact .nil
  | cons e more ih =>
      obtain ⟨hvalue, hmore⟩ := List.forall_mem_cons.1 h
      obtain ⟨hlength, hdepth⟩ := List.forall_mem_cons.1 hdepth
      simp only [List.length_cons] at hlength
      exact .cons ⟨e.1, _, _, rfl, rfl, hvalue.whole (by omega)⟩ (ih hmore hdepth)

/-- The arguments of a call or of a filter. -/
theorem addsArguments {args : List Expression} {keywords : List (Name × Expression)}
    (hargs : ∀ a ∈ args, IsRead hosts a) (hkeywords : ∀ e ∈ keywords, IsRead hosts e.2)
    (hdepth : (separated (Expression.each args ++ Expression.eachKeyword keywords)).length ≤ depth) :
    AddsArguments (.tied hosts (depth + 1)) (Expression.each args ++ Expression.eachKeyword keywords)
      (HasRead [] []) (HasRead (Expression.nodes args) (Expression.keywordNodes keywords)) := by
  have hle {ts : List Piece} (hts : ts ∈ Expression.each args ++ Expression.eachKeyword keywords) :
      ts.length ≤ depth :=
    (length_le_separated hts).trans hdepth
  have hpositional := forall₂_each depth hargs fun ts hts => hle (List.mem_append_left _ hts)
  have hnamed := forall₂_eachKeyword hkeywords fun ts hts => hle (List.mem_append_right _ hts)
  exact (addsArguments_positional [] hpositional).append (addsArguments_keywords [] hnamed)

/-- The further operands of a chain of comparisons. -/
theorem Begins.chain {g : Grammar} {ts : List Piece} {n : Node} {operands : List Node}
    {more : List (Comparison × Expression)} (h : Begins g .compare false ts n operands)
    (hmore : ∀ e ∈ more, Phrase g .sum (e.2.piecesAt .sum) e.2.node) :
    Begins g .compare false (ts ++ Expression.eachOperand more) n
      (operands ++ Expression.operandNodes more) := by
  induction more generalizing ts operands with
  | nil => simpa [Expression.eachOperand, Expression.operandNodes] using h
  | cons e more ih =>
      obtain ⟨he, hmore⟩ := List.forall_mem_cons.1 hmore
      have hbegins := ih (h.compare e.1 he) hmore
      rwa [List.append_assoc, List.append_assoc] at hbegins

/-- Further operands are phrases. -/
theorem forall_operand {more : List (Comparison × Expression)} (depth : Nat)
    (h : ∀ e ∈ more, IsRead hosts e.2) (hdepth : (Expression.eachOperand more).length ≤ depth) :
    ∀ e ∈ more, Phrase (.tied hosts depth) .sum (e.2.piecesAt .sum) e.2.node := by
  induction more with
  | nil => exact fun _ he => by cases he
  | cons e more ih =>
      obtain ⟨he, hmore⟩ := List.forall_mem_cons.1 h
      simp only [Expression.eachOperand, List.length_cons, List.length_append] at hdepth
      refine List.forall_mem_cons.2 ⟨he.phraseAt .sum ?_, ih hmore (by omega)⟩
      unfold Expression.piecesAt
      omega

/-- The start or the stop of a slice. -/
theorem bound_maybe {e : Option Expression} (h : ∀ a ∈ e, IsRead hosts a)
    (hdepth : (Expression.maybe e).length ≤ depth) :
    Bound (.tied hosts depth) (Expression.maybe e) (Expression.optionNode e) := by
  cases e with
  | none => exact .none
  | some a => exact .some (IsRead.startsWith_whole a) ((h a rfl).whole hdepth)

/-- The step of a slice. -/
theorem stride_stride {e : Option Expression} (h : ∀ a ∈ e, IsRead hosts a)
    (hdepth : (Expression.stride e).length ≤ depth) :
    Stride (.tied hosts depth) (Expression.stride e) (Expression.optionNode e) := by
  cases e with
  | none => exact .none
  | some a =>
      rw [Expression.stride, List.length_cons] at hdepth
      exact .some (IsRead.startsWith_whole a) ((h a rfl).whole (by omega))

/-- **What is printed of an expression is read for its tree.** -/
theorem Expression.isRead (hosts : List TagReader) (a : Expression) : IsRead hosts a := by
  -- The induction is on the expression.  An operand stands in parentheses where it would bind too loosely, so
  -- each case asks for it at the level of its place; the pieces are counted for the depth of the reader.
  induction a with
  | absent => exact .of_phrase rfl fun _ _ => .absent
  | truth b => exact .of_phrase rfl fun _ _ => .truth b
  | number n => exact .of_phrase rfl fun _ _ => .number n
  | text s => exact .of_phrase rfl fun _ _ => .text s
  | name x => exact .of_phrase rfl fun _ _ => .name x.text
  | array items ih =>
      refine .of_phrase rfl fun depth hdepth => ?_
      have hitems := forall₂_each depth ih fun ts hts => ?_
      · exact .array (hitems.imp fun _ _ h => Phrase.item h.1 h.2)
      · have hle := length_le_separated hts
        simp only [pieces, List.length_cons, List.length_append, List.length_nil] at hdepth
        omega
  | dict entries ih =>
      refine .of_phrase rfl fun depth hdepth => ?_
      have hentries := forall₂_eachEntry depth ih fun ts hts => ?_
      · exact .dict hentries
      · have hle := length_le_separated hts
        simp only [pieces, List.length_cons, List.length_append, List.length_nil] at hdepth
        omega
  | unary op a ih =>
      cases op with
      | not =>
          refine .of_phrase rfl fun depth hdepth => ?_
          exact .negated (ih.phraseAt .not (Nat.le_of_succ_le_succ hdepth))
      | neg =>
          refine .of_phrase rfl fun depth hdepth => ?_
          exact .signed .neg nofun (ih.phraseAt .sign (Nat.le_of_succ_le_succ hdepth))
      | pos =>
          refine .of_phrase rfl fun depth hdepth => ?_
          exact .signed .pos nofun (ih.phraseAt .sign (Nat.le_of_succ_le_succ hdepth))
  | binary op a b iha ihb =>
      -- powers bind to the right, and so their left operand is the one that binds tighter
      by_cases hpow : op = .pow
      · subst hpow
        refine .of_phrase rfl fun depth hdepth => ?_
        simp only [pieces, List.length_cons, List.length_append] at hdepth
        refine Phrase.power (iha.phraseAt .suffix ?_) (ihb.phraseAt .sign ?_)
        · exact (Nat.le_add_right _ _).trans hdepth
        · unfold piecesAt
          omega
      · refine .of_begins fun depth hdepth => ?_
        rw [pieces_binary hpow] at hdepth ⊢
        simp only [List.length_cons, List.length_append] at hdepth
        obtain ⟨hrepeats, hcompare, hsuffix⟩ := Infix.repeats_level hpow
        refine Begins.binary hpow ?_ (ihb.phraseAt _ (by omega))
        exact iha.beginsAt false hrepeats hcompare (fun _ h => absurd h hsuffix) (by omega)
  | relate op negated a b iha ihb =>
      refine .of_begins fun depth hdepth => ?_
      simp only [pieces, List.length_append] at hdepth
      have hleft : (a.piecesAt .compare).length ≤ depth + 1 := by
        unfold piecesAt
        omega
      have hright : (b.piecesAt .sum).length ≤ depth + 1 := by
        unfold piecesAt
        omega
      obtain ⟨n, operands, hgathered, hbegins⟩ := iha.chainAt hleft
      have hrelate := hbegins.relate op negated (b.startsWith_piecesAt .sum)
        (ihb.phraseAt .sum hright)
      rwa [hgathered] at hrelate
  | compare a op b more iha ihb ih =>
      refine .of_begins fun depth hdepth => ?_
      simp only [pieces, List.length_cons, List.length_append] at hdepth
      have hfirst : (a.piecesAt a.firstLevel).length ≤ depth + 1 := by
        unfold piecesAt
        omega
      have hsecond : (b.piecesAt .sum).length ≤ depth + 1 := by
        unfold piecesAt
        omega
      have hmore := forall_operand (depth + 1) ih (by omega)
      have hbegins := ((iha.firstAt hfirst).compare op (ihb.phraseAt .sum hsecond)).chain hmore
      rwa [List.append_assoc] at hbegins
  | choice a b c iha ihb ihc =>
      refine .of_phrase rfl fun depth hdepth => ?_
      cases c with
      | none =>
          simp only [pieces, otherwise, List.length_cons, List.length_append, List.length_nil] at hdepth
          have hbody : (b.piecesAt .or).length ≤ depth + 1 := (Nat.le_add_right _ _).trans hdepth
          have hcondition : (a.piecesAt .or).length ≤ depth + 1 := by
            unfold piecesAt
            omega
          have hphrase := (ihb.phraseAt .or hbody).choose (iha.phraseAt .or hcondition)
          rwa [← List.append_nil (a.piecesAt .or)] at hphrase
      | some c =>
          simp only [pieces, otherwise, List.length_cons, List.length_append] at hdepth
          refine Phrase.chooseElse (ihb.phraseAt .or ?_) (iha.phraseAt .or ?_) ((ihc c rfl).whole ?_)
          · exact (Nat.le_add_right _ _).trans hdepth
          · unfold piecesAt
            omega
          · omega
  | subscript a b iha ihb =>
      refine .of_begins fun depth hdepth => ?_
      simp only [pieces, List.length_cons, List.length_append, List.length_nil] at hdepth
      refine Begins.subscript (iha.beginsAt a.isBareFilter rfl (by decide) (fun h _ => h) ?_)
        (IsRead.startsWith_whole b) (ihb.whole ?_)
      · exact (Nat.le_add_right _ _).trans hdepth
      · omega
  | slice a b c d iha ihb ihc ihd =>
      refine .of_begins fun depth hdepth => ?_
      simp only [pieces, List.length_cons, List.length_append, List.length_nil] at hdepth
      refine Begins.slice (iha.beginsAt a.isBareFilter rfl (by decide) (fun h _ => h) ?_)
        (bound_maybe ihb ?_) (bound_maybe ihc ?_) (stride_stride ihd ?_)
      · exact (Nat.le_add_right _ _).trans hdepth
      all_goals omega
  | call a args keywords iha ihargs ihkeywords =>
      refine .of_begins fun depth hdepth => ?_
      simp only [pieces, Syntax.parenthesized, List.length_cons, List.length_append,
        List.length_nil] at hdepth
      refine Begins.call (iha.calleeAt ?_) (addsArguments ihargs ihkeywords ?_)
      · exact (Nat.le_add_right _ _).trans hdepth
      · omega
  | filter a x members args keywords iha ihargs ihkeywords =>
      refine .of_begins fun depth hdepth => ?_
      simp only [pieces, List.length_cons, List.length_append] at hdepth
      have hvalue : Begins (.tied hosts (depth + 1)) .suffix a.isBareFilter (a.piecesAt .suffix)
          a.node [] :=
        iha.beginsAt _ rfl (by decide) (fun h _ => h) ((Nat.le_add_right _ _).trans hdepth)
      have hwith (hne : (args.isEmpty && keywords.isEmpty) = false) :
          Begins (.tied hosts (depth + 1)) .suffix false (pieces (.filter a x members args keywords))
            (node (.filter a x members args keywords)) [] := by
        rw [hne, if_neg Bool.false_ne_true] at hdepth
        simp only [Syntax.parenthesized, List.length_cons, List.length_append] at hdepth
        rw [pieces, hne, if_neg Bool.false_ne_true]
        exact hvalue.filterWith x members (addsArguments ihargs ihkeywords (by omega))
      cases args with
      | nil =>
          cases keywords with
          | nil =>
              have hbegins := hvalue.filter x members
              rwa [← List.append_nil (dotted x members)] at hbegins
          | cons _ _ => exact hwith rfl
      | cons _ _ => exact hwith rfl

/-- A template that outputs an expression. -/
def Expression.source (a : Expression) : String :=
  String.ofList (Piece.writtenAll (printed a.pieces))

/-- **Reading undoes printing.**  The template that outputs an expression, with parentheses only
where one that binds looser stands in the place of one that binds tighter, has the tree of the
output of the expression. -/
theorem Expression.ofSource_printed (hosts : List TagReader) (a : Expression) :
    (Node.ofSource .standard hosts a.source).map Node.bare =
      .ok (.group .root .start [.output .start a.node]) := by
  have hlexes : Piece.Lexes false (printed a.pieces ++ []) := lexes_printed a.inside_pieces trivial
  rw [source, ← List.append_nil (printed a.pieces)]
  refine ofSource_written hlexes fun depth hdepth => ?_
  have hlength : a.pieces.length ≤ depth := by
    simp only [printed, List.length_cons, List.length_append] at hdepth
    omega
  have hphrase := (a.isRead hosts).whole hlength
  exact (Nested.nil _ _).cons (List.cons_ne_nil _ _) fun _ _ _ _ => Opens.output hphrase

end All

example :
    let x (s : String) (h : Lexeme.wordKind? s.toList = some .symbol) (h' : s ∉ reserved) :=
      Expression.name ⟨⟨s, h⟩, h'⟩
    let a := x "a" (by decide) (by decide)
    let b := x "b" (by decide) (by decide)
    (Expression.binary .mul (.unary .neg a) (.binary .add a (.binary .mul b b))).source =
      "\x7b\x7b - a * ( a + b * b ) \x7d\x7d" := by
  decide +kernel

end Stencil.Syntax
