/-
**Operators are read back.**

Each level of expressions has a reader of its own.  It reads an expression of the next tighter level
and goes on as long as operators of its own level follow.  So pieces are a phrase of a level if its
reader takes them, whatever looser comes behind them; and they begin a phrase if the reader, having
taken them, is where it would be after any expression with the same tree.

Main definitions:

* `Stencil.Syntax.Level.read` — the reader of a level;
* `Stencil.Syntax.Ends` — pieces with which a phrase of a level does not go on;
* `Stencil.Syntax.Begins`, `Stencil.Syntax.Phrase` — pieces that a reader takes for a tree.

Main results:

* `Stencil.Syntax.Phrase.begins` — a phrase of a level begins one of the looser level before it;
* `Stencil.Syntax.Begins.binary`, `Stencil.Syntax.Begins.relate`, `Stencil.Syntax.Begins.compare`,
  `Stencil.Syntax.Phrase.power`, `Stencil.Syntax.Phrase.unary`, `Stencil.Syntax.Phrase.choice` —
  the operators.
-/

import Stencil.Proofs.Printing.Expressions
import Stencil.Proofs.Printing.Reading
import Stencil.Proofs.Steps

set_option autoImplicit false

namespace Stencil.Syntax

open Piece (mark word)
open Parse

variable {g : Grammar} {level : Level} {ts us rest out : List Piece} {n m : Node}

/-! ### What follows -/

/-- The level whose phrases a piece continues. -/
def joins (t : Piece) : Option Level :=
  match t.kind with
  | .leftParen | .leftBracket | .pipe => some .suffix
  | .tilde => some .sum
  | .symbol =>
    if t.value = "if" ∨ t.value = "else" then some .choice
    else if t.value = "or" then some .or
    else if t.value = "and" then some .and
    else if t.value = "not" ∨ t.value = "in" ∨ t.value = "is" then some .compare
    else none
  | .operator =>
    if t.value = "." then some .suffix
    else if t.value = "**" then some .power
    else if t.value = "*" ∨ t.value = "//" ∨ t.value = "/" ∨ t.value = "%" then some .product
    else if t.value = "+" ∨ t.value = "-" then some .sum
    else if (Comparison.ofOperator? t.value).isSome then some .compare
    else none
  | _ => none

/-- Pieces with which a phrase of a level does not go on. -/
def Ends (level : Level) (ts : List Piece) : Prop :=
  ∀ t ∈ ts.head?, ∀ l, joins t = some l → l.rank < level.rank

namespace Ends

theorem loosen {level' : Level} (h : Ends level ts) (hle : level.rank ≤ level'.rank) :
    Ends level' ts :=
  fun t ht l hl => (h t ht l hl).trans_le hle

/-- The next piece is none that continues a phrase of the level. -/
theorem head?_ne {t : Piece} {l : Level} (h : Ends level ts) (ht : joins t = some l)
    (hle : level.rank ≤ l.rank) : ts.head? ≠ some t :=
  fun heq => absurd (h t heq l ht) (Nat.not_lt.2 hle)

/-- The next piece is of no kind that continues a phrase of the level. -/
theorem kind_ne {l : Level} (h : Ends level ts) (kind : TokenKind)
    (hkind : ∀ value, joins ⟨kind, value⟩ = some l) (hle : level.rank ≤ l.rank) :
    ∀ t ∈ ts.head?, t.kind ≠ kind := by
  rintro ⟨_, value⟩ ht rfl
  exact absurd (h _ ht l (hkind value)) (Nat.not_lt.2 hle)

/-- A piece that continues the phrases of a looser level. -/
theorem cons {t : Piece} {l : Level} (ht : joins t = some l) (hlt : l.rank < level.rank) :
    Ends level (t :: ts) := by
  rintro _ ⟨⟩ l' hl'
  obtain rfl : l = l' := Option.some.inj (ht.symm.trans hl')
  exact hlt

/-- A piece that continues no phrase. -/
theorem cons_none {t : Piece} (ht : joins t = none) : Ends level (t :: ts) := by
  rintro _ ⟨⟩ l hl
  rw [ht] at hl
  cases hl

/-- No piece continues an atom. -/
theorem atom : Ends .atom ts := by
  intro t _ l hl
  have hjoins : ∀ t l, joins t = some l → l ≠ .atom := by
    rintro t l h rfl
    unfold joins at h
    repeat' split at h
    all_goals cases h
  cases l with
  | atom => exact absurd rfl (hjoins t _ hl)
  | _ => decide

end Ends

/-! ### Readers -/

/-- The reader of a level. -/
def Level.read (g : Grammar) : Level → Parse Node
  | choice => Parse.expression g
  | or => Parse.disjunction g
  | and => Parse.conjunction g
  | not => Parse.negation g
  | compare => Parse.comparison g
  | sum => Parse.sum g
  | product => Parse.product g
  | sign => Parse.unary g
  | power => Parse.power g
  | suffix => Parse.primary g false
  | atom => Parse.atom g

/-! ### Phrases -/

/-- What the reader of a level does once it has a node, with the operands compared to it. -/
def Resumes (g : Grammar) (n : Node) (operands : List Node) (ts : List Piece) (Q : Node → Prop)
    (rest : List Piece) : Level → Prop
  | .choice => Reads (choiceEnd g n) ts Q rest
  | .or => Loops (joinStep orOperator? (conjunction g)) n ts Q rest
  | .and => Loops (joinStep andOperator? (negation g)) n ts Q rest
  | .compare => Loops (chainStep g) (n, operands) ts Q rest
  | .sum => Loops (joinStep sumOperator? (product g)) n ts Q rest
  | .product => Loops (joinStep productOperator? (unary g)) n ts Q rest
  | .power => Reads (powerEnd g n) ts Q rest
  | .suffix => Loops (suffixStep g) n ts Q rest
  | .not | .sign | .atom => Q n ∧ rest = ts

/-- The next piece is nothing that the name of a filter goes on with. -/
def EndsName (ts : List Piece) : Prop :=
  ∀ t ∈ ts.head?, t.kind ≠ .leftParen ∧ t ≠ ⟨.operator, "."⟩

/-- The reader of a level takes the pieces, and is then where it is after any node with the given
tree, and the given trees compared to it.  If the pieces are `bare`, they end in the name of a
filter, with which arguments must not be mixed up. -/
def Begins (g : Grammar) (level : Level) (bare : Bool) (ts : List Piece) (n : Node)
    (operands : List Node) : Prop :=
  ∀ rest Q out, Ends level.next rest → (bare = true → EndsName rest) →
    (∀ n' operands', n'.bare = n → operands'.map Node.bare = operands →
      Resumes g n' operands' rest Q out level) →
    Reads (level.read g) (ts ++ rest) Q out

/-- The reader of a level takes the pieces for the given tree. -/
def Phrase (g : Grammar) (level : Level) (ts : List Piece) (n : Node) : Prop :=
  ∀ rest, Ends level rest → Reads (level.read g) (ts ++ rest) (fun n' => n'.bare = n) rest

/-- No operator of `or` is next. -/
theorem orOperator?_none (h : Ends .or ts) : Reads orOperator? ts (· = none) ts :=
  (Reads.skipValue_false (h.head?_ne rfl (Nat.le_refl _))).bindEq (.pure rfl)

theorem andOperator?_none (h : Ends .and ts) : Reads andOperator? ts (· = none) ts :=
  (Reads.skipValue_false (h.head?_ne rfl (Nat.le_refl _))).bindEq (.pure rfl)

theorem sumOperator?_none (h : Ends .sum ts) : Reads sumOperator? ts (· = none) ts := by
  refine (Reads.skipValue_false (h.head?_ne (l := .sum) rfl (Nat.le_refl _))).bindEq ?_
  refine (Reads.skipValue_false (h.head?_ne (l := .sum) rfl (Nat.le_refl _))).bindEq ?_
  refine (Reads.skip_false (h.kind_ne (l := .sum) _ (fun _ => rfl) (Nat.le_refl _))).bindEq ?_
  exact .pure rfl

theorem productOperator?_none (h : Ends .product ts) : Reads productOperator? ts (· = none) ts := by
  refine (Reads.skipValue_false (h.head?_ne (l := .product) rfl (Nat.le_refl _))).bindEq ?_
  refine (Reads.skipValue_false (h.head?_ne (l := .product) rfl (Nat.le_refl _))).bindEq ?_
  refine (Reads.skipValue_false (h.head?_ne (l := .product) rfl (Nat.le_refl _))).bindEq ?_
  refine (Reads.skipValue_false (h.head?_ne (l := .product) rfl (Nat.le_refl _))).bindEq ?_
  exact .pure rfl

/-- No comparison is next if the next piece is none. -/
theorem comparisonOperator?_none
    (h : ∀ t ∈ ts.head?, t.kind = .operator → Comparison.ofOperator? t.value = none) :
    Reads comparisonOperator? ts (· = none) ts := by
  refine (Reads.peek 0).bind fun token htoken => .pure ?_
  cases token with
  | none => rfl
  | some token =>
      dsimp only [Option.bind_some]
      split
      · next hkind => exact h token.piece (by rw [List.head?_eq_getElem?, ← htoken]; rfl) hkind
      · rfl

/-- A comparison is what its operator stands for. -/
theorem eq_operator_of_ofOperator? {s : String} {op : Comparison}
    (h : Comparison.ofOperator? s = some op) : s = op.operator := by
  unfold Comparison.ofOperator? at h
  repeat' split at h
  all_goals cases h
  all_goals assumption

theorem joins_comparison (op : Comparison) : joins (mark op.operator) = some .compare := by
  cases op <;> decide

theorem mark_comparison (op : Comparison) : mark op.operator = ⟨.operator, op.operator⟩ := by
  cases op <;> decide

theorem Ends.no_comparison (h : Ends .compare ts) :
    ∀ t ∈ ts.head?, t.kind = .operator → Comparison.ofOperator? t.value = none := by
  rintro ⟨_, value⟩ ht rfl
  cases hop : Comparison.ofOperator? value with
  | none => rfl
  | some op =>
      obtain rfl := eq_operator_of_ofOperator? hop
      rw [← mark_comparison] at ht
      exact absurd ht (h.head?_ne (joins_comparison op) (Nat.le_refl _))

theorem within?_none (h : Ends .compare ts) : Reads within? ts (· = none) ts := by
  have hnot := h.head?_ne (t := word "not") (l := .compare) rfl (Nat.le_refl _)
  rw [List.head?_eq_getElem?] at hnot
  refine (Reads.peekIs_false hnot).bindEq ?_
  refine (Reads.known false).bindEq ?_
  refine (Reads.skipValue_false (h.head?_ne (l := .compare) rfl (Nat.le_refl _))).bindEq ?_
  exact .pure rfl

theorem is?_none (h : Ends .compare ts) : Reads is? ts (· = none) ts :=
  (Reads.skipValue_false (h.head?_ne (l := .compare) rfl (Nat.le_refl _))).bindEq (.pure rfl)

theorem suffix?_none (h : Ends .suffix ts) : Reads (suffix? g n) ts (· = none) ts := by
  have hpoint := h.head?_ne (t := ⟨.operator, "."⟩) (l := .suffix) rfl (Nat.le_refl _)
  have hparen := h.kind_ne .leftParen (l := .suffix) (fun _ => rfl) (Nat.le_refl _)
  have hbracket := h.kind_ne .leftBracket (l := .suffix) (fun _ => rfl) (Nat.le_refl _)
  have hpipe := h.kind_ne .pipe (l := .suffix) (fun _ => rfl) (Nat.le_refl _)
  rw [List.head?_eq_getElem?] at hpoint hparen hbracket hpipe
  refine (Reads.peekIs_false hpoint).bindEq ?_
  refine (Reads.peekKind 0).bindEq ?_
  cases ht : ts[0]? with
  | none => exact .pure rfl
  | some t =>
      rw [ht] at hparen hbracket hpipe
      obtain ⟨kind, value⟩ := t
      cases kind with
      | leftParen => exact absurd rfl (hparen _ rfl)
      | leftBracket => exact absurd rfl (hbracket _ rfl)
      | pipe => exact absurd rfl (hpipe _ rfl)
      | _ => exact .pure rfl

/-- Where no operator of its level follows, the reader is done. -/
theorem Resumes.of_ends {operands : List Node} {Q : Node → Prop} (h : Ends level ts)
    (hnone : level ≠ .compare → operands = []) (hn : Q (gathered n operands)) :
    Resumes g n operands ts Q ts level := by
  have hplain (hlevel : level ≠ .compare) : Q n := by
    rwa [hnone hlevel] at hn
  cases level with
  | choice =>
      exact (Reads.skipValue_false (h.head?_ne rfl (Nat.le_refl _))).bindEq (.pure (hplain (by decide)))
  | or => exact .done ((orOperator?_none h).bindEq (.pure ⟨n, rfl, hplain (by decide)⟩))
  | and => exact .done ((andOperator?_none h).bindEq (.pure ⟨n, rfl, hplain (by decide)⟩))
  | compare =>
      refine .done ((comparisonOperator?_none h.no_comparison).bindEq ?_)
      refine (within?_none h).bindEq ((is?_none h).bindEq (.pure ⟨_, rfl, hn⟩))
  | sum => exact .done ((sumOperator?_none h).bindEq (.pure ⟨n, rfl, hplain (by decide)⟩))
  | product => exact .done ((productOperator?_none h).bindEq (.pure ⟨n, rfl, hplain (by decide)⟩))
  | power =>
      exact (Reads.skipValue_false (h.head?_ne rfl (Nat.le_refl _))).bindEq (.pure (hplain (by decide)))
  | suffix => exact .done ((suffix?_none h).bindEq (.pure ⟨n, rfl, hplain (by decide)⟩))
  | not | sign | atom => exact ⟨hplain (by decide), rfl⟩

/-- The tree of what is compared. -/
theorem bare_gathered (n : Node) (operands : List Node) :
    (gathered n operands).bare = gathered n.bare (operands.map Node.bare) := by
  cases operands with
  | nil => rfl
  | cons m operands => cases n <;> simp [gathered, Node.bare, Node.position]

theorem Ends.next (h : Ends level ts) : Ends level.next ts :=
  h.loosen (by cases level <;> decide)

/-- Where no suffix follows, the name of a filter does not go on. -/
theorem Ends.name (h : Ends .suffix ts) : EndsName ts := by
  intro t ht
  refine ⟨h.kind_ne (l := .suffix) _ (fun _ => rfl) (Nat.le_refl _) t ht, ?_⟩
  rintro rfl
  exact h.head?_ne (l := .suffix) rfl (Nat.le_refl _) ht

/-- What begins a phrase is a phrase where nothing follows. -/
theorem Begins.phrase {bare : Bool} {operands : List Node} (h : Begins g level bare ts n operands)
    (hnone : level ≠ .compare → operands = []) (hbare : bare = true → level = .suffix) :
    Phrase g level ts (gathered n operands) := by
  intro rest hrest
  have hname (heq : bare = true) : EndsName rest := by
    obtain rfl := hbare heq
    exact hrest.name
  refine h rest _ rest hrest.next hname fun n' operands' hn hoperands => ?_
  refine Resumes.of_ends hrest (fun hlevel => ?_) ?_
  · rw [hnone hlevel] at hoperands
    exact List.map_eq_nil_iff.1 hoperands
  · rw [bare_gathered, hn, hoperands]

/-- **A phrase of a level begins one of the looser level before it.** -/
theorem Phrase.begins (h : Phrase g level.next ts n) (hstart : StartsWith level.next ts)
    (hatom : level ≠ .atom) : Begins g level false ts n [] := by
  intro rest Q out hrest _ hresume
  have hread := h rest hrest
  obtain ⟨t, us, rfl, ht⟩ := hstart
  -- What comes next ends the loop of a level with operators at once.  The levels `not` and `sign` look for
  -- their operator first, and the phrase does not start with it.
  cases level with
  | choice =>
      change Reads (Parse.expression g) _ _ _
      rw [expression_eq]
      exact hread.bind fun n' hn => hresume n' [] hn rfl
  | or =>
      change Reads (Parse.disjunction g) _ _ _
      rw [disjunction_eq]
      exact hread.bind fun n' hn => .iterate (hresume n' [] hn rfl)
  | and =>
      change Reads (Parse.conjunction g) _ _ _
      rw [conjunction_eq]
      exact hread.bind fun n' hn => .iterate (hresume n' [] hn rfl)
  | not =>
      have hnot : ((t :: us) ++ rest).head? ≠ some (word "not") := fun heq =>
        absurd (ht.not (Option.some.inj heq)) (by decide)
      change Reads (Parse.negation g) _ _ _
      refine (Reads.peek 0).bind fun _ _ => (Reads.skipValue_false hnot).bindEq ?_
      exact hread.conclude fun n' hn => hresume n' [] hn rfl
  | compare =>
      change Reads (Parse.comparison g) _ _ _
      rw [comparison_eq]
      exact hread.bind fun n' hn => .iterate (hresume n' [] hn rfl)
  | sum =>
      change Reads (Parse.sum g) _ _ _
      rw [sum_eq]
      exact hread.bind fun n' hn => .iterate (hresume n' [] hn rfl)
  | product =>
      change Reads (Parse.product g) _ _ _
      rw [product_eq]
      exact hread.bind fun n' hn => .iterate (hresume n' [] hn rfl)
  | sign =>
      change Reads (Parse.unary g) _ _ _
      refine (Reads.peek 0).bind fun token htoken => ?_
      have htoken : token.map Token.piece = some t := htoken
      obtain ⟨token, rfl, rfl⟩ := Option.map_eq_some_iff.1 htoken
      have hkind : token.kind ≠ .operator := fun heq => absurd (ht.sign heq) (by decide)
      have hsign (value : String) : token.is .operator value = false := by simp [Token.is, hkind]
      dsimp only
      rw [hsign "-", hsign "+"]
      exact hread.conclude fun n' hn => hresume n' [] hn rfl
  | power =>
      change Reads (Parse.power g) _ _ _
      rw [power_eq]
      exact hread.bind fun n' hn => hresume n' [] hn rfl
  | suffix =>
      change Reads (Parse.primary g false) _ _ _
      rw [primary_eq]
      exact hread.bind fun n' hn => .iterate (hresume n' [] hn rfl)
  | atom => exact absurd rfl hatom

theorem Level.rank_injective {l l' : Level} (h : l.rank = l'.rank) : l = l' := by
  cases l <;> cases l' <;> first | rfl | cases h

theorem Level.rank_next {l : Level} (h : l ≠ .atom) : l.next.rank = l.rank + 1 := by
  cases l with
  | atom => exact absurd rfl h
  | _ => rfl

/-- A phrase of a level is one of all looser levels. -/
theorem Phrase.loosen {l : Level} (h : Phrase g level ts n) (hstart : StartsWith level ts)
    (hle : l.rank ≤ level.rank) : Phrase g l ts n := by
  induction hk : level.rank - l.rank generalizing l with
  | zero =>
      obtain rfl := Level.rank_injective (Nat.le_antisymm hle (Nat.le_of_sub_eq_zero hk))
      exact h
  | succ k ih =>
      have hatom : l ≠ .atom := by
        rintro rfl
        have hmax : level.rank ≤ Level.atom.rank := by cases level <;> decide
        omega
      have hnext := Level.rank_next hatom
      have hphrase := ih (l := l.next) (by omega) (by omega)
      exact (hphrase.begins (hstart.loosen (by omega)) hatom).phrase (fun _ => rfl) nofun

/-! ### Operators between two operands -/

theorem orOperator?_some : Reads orOperator? (word "or" :: ts) (· = some .or) ts :=
  Reads.skipValue_true.bindEq (.pure rfl)

theorem andOperator?_some : Reads andOperator? (word "and" :: ts) (· = some .and) ts :=
  Reads.skipValue_true.bindEq (.pure rfl)

theorem sumOperator?_some {op : Infix} (h : op.level = .sum) :
    Reads sumOperator? (op.piece :: ts) (· = some op.op) ts := by
  cases op with
  | add => exact Reads.skipValue_true.bindEq (.pure rfl)
  | sub =>
      refine (Reads.skipValue_false (by simp [Infix.piece, mark])).bindEq ?_
      exact Reads.skipValue_true.bindEq (.pure rfl)
  | concat =>
      refine (Reads.skipValue_false (by simp [Infix.piece, mark])).bindEq ?_
      refine (Reads.skipValue_false (by simp [Infix.piece, mark])).bindEq ?_
      exact (Reads.skip_true rfl).bindEq (.pure rfl)
  | _ => cases h

theorem productOperator?_some {op : Infix} (h : op.level = .product) :
    Reads productOperator? (op.piece :: ts) (· = some op.op) ts := by
  cases op with
  | mul => exact Reads.skipValue_true.bindEq (.pure rfl)
  | floorDiv =>
      refine (Reads.skipValue_false (by simp [Infix.piece, mark])).bindEq ?_
      exact Reads.skipValue_true.bindEq (.pure rfl)
  | div =>
      refine (Reads.skipValue_false (by simp [Infix.piece, mark])).bindEq ?_
      refine (Reads.skipValue_false (by simp [Infix.piece, mark])).bindEq ?_
      exact Reads.skipValue_true.bindEq (.pure rfl)
  | mod =>
      refine (Reads.skipValue_false (by simp [Infix.piece, mark])).bindEq ?_
      refine (Reads.skipValue_false (by simp [Infix.piece, mark])).bindEq ?_
      refine (Reads.skipValue_false (by simp [Infix.piece, mark])).bindEq ?_
      exact Reads.skipValue_true.bindEq (.pure rfl)
  | _ => cases h

/-- A step that takes an operator and its right operand. -/
theorem loops_join {operator? : Parse (Option BinaryOp)} {operand : Parse Node} {op : BinaryOp}
    {t : Piece} {Q : Node → Prop} (hop : Reads operator? (t :: (us ++ rest)) (· = some op) (us ++ rest))
    (hright : Reads operand (us ++ rest) (fun n' => n'.bare = m) rest)
    (hrest : ∀ n', n'.bare = .binary .start op n.bare m →
      Loops (joinStep operator? operand) n' rest Q out) :
    Loops (joinStep operator? operand) n (t :: (us ++ rest)) Q out := by
  refine .again rest (by grind) ?_ hrest
  refine hop.bindEq (hright.bind fun m' hm => .pure ⟨_, rfl, ?_⟩)
  simp [Parse.binary, Node.bare, hm]

/-- **Operators of one level associate to the left.** -/
theorem Begins.binary {op : Infix} (hop : op ≠ .pow) (h : Begins g op.level false ts n [])
    (hright : Phrase g op.level.next us m) :
    Begins g op.level false (ts ++ op.piece :: us) (.binary .start op.op n m) [] := by
  intro rest Q out hrest _ hresume
  have hright := hright rest hrest
  rw [List.append_assoc, List.cons_append]
  refine h _ Q out ?_ nofun fun n' operands hn hoperands => ?_
  · cases op <;> exact .cons rfl (by decide)
  · cases op with
    | or =>
        exact loops_join orOperator?_some hright fun n' hn' =>
          hresume n' [] (by rw [hn', hn, Infix.op]) rfl
    | and =>
        exact loops_join andOperator?_some hright fun n' hn' =>
          hresume n' [] (by rw [hn', hn, Infix.op]) rfl
    | add | sub | concat =>
        exact loops_join (sumOperator?_some rfl) hright fun n' hn' =>
          hresume n' [] (by rw [hn', hn, Infix.op]) rfl
    | mul | div | floorDiv | mod =>
        exact loops_join (productOperator?_some rfl) hright fun n' hn' =>
          hresume n' [] (by rw [hn', hn, Infix.op]) rfl
    | pow => exact absurd rfl hop

/-! ### Comparisons -/

theorem comparisonOperator?_some (op : Comparison) :
    Reads comparisonOperator? (mark op.operator :: ts) (· = some op)
      (mark op.operator :: ts) := by
  have hop : Comparison.ofOperator? op.operator = some op := by cases op <;> decide
  refine (Reads.peek 0).bind fun token htoken => .pure ?_
  have htoken : token.map Token.piece = some (mark op.operator) := htoken
  obtain ⟨token, rfl, heq⟩ := Option.map_eq_some_iff.1 htoken
  rw [mark_comparison] at heq
  obtain ⟨hkind, hvalue⟩ := Piece.mk.inj heq
  simp [hkind, hvalue, hop]

/-- What `in`, `is` and their negations give. -/
def Relation.tree (op : Relation) (negated : Bool) (n m : Node) : Node :=
  if negated then .unary .start .not (.binary .start op.op n m) else .binary .start op.op n m

theorem within?_some (negated : Bool) :
    Reads within? (Relation.within.pieces negated ++ ts) (· = some negated) ts := by
  cases negated with
  | false =>
      refine (Reads.peekIs_false (by simp [Relation.pieces, word])).bindEq ?_
      refine (Reads.known false).bindEq ?_
      exact Reads.skipValue_true.bindEq (.pure rfl)
  | true =>
      refine (Reads.peekIs_true rfl).bindEq ?_
      refine (Reads.peekIs_true rfl).bindEq ?_
      exact Reads.next.ignore.bind fun _ _ => Reads.next.ignore.bind fun _ _ => .pure rfl

theorem is?_some (negated : Bool) (h : ts.head? ≠ some (word "not")) :
    Reads is? (Relation.test.pieces negated ++ ts) (· = some negated) ts := by
  cases negated with
  | false =>
      change Reads is? (word "is" :: ts) _ _
      exact Reads.skipValue_true.bindEq ((Reads.skipValue_false h).bindEq (.pure rfl))
  | true =>
      change Reads is? (word "is" :: word "not" :: ts) _ _
      exact Reads.skipValue_true.bindEq (Reads.skipValue_true.bindEq (.pure rfl))

/-- `in`, `is` and their negations take what was compared before them as their left operand. -/
theorem loops_relation {op : Relation} {negated : Bool} {operands : List Node} {Q : Node → Prop}
    (hstart : StartsWith .sum us)
    (hright : Reads (Parse.sum g) (us ++ rest) (fun n' => n'.bare = m) rest)
    (hrest : ∀ n', n'.bare = op.tree negated (gathered n operands).bare m →
      Loops (chainStep g) (n', []) rest Q out) :
    Loops (chainStep g) (n, operands) (op.pieces negated ++ (us ++ rest)) Q out := by
  refine .again rest (P := fun c => c.2 = [] ∧
    c.1.bare = op.tree negated (gathered n operands).bare m) ?_ ?_ ?_
  · cases op <;> cases negated <;> simp [Relation.pieces] <;> omega
  · have hnone : Reads comparisonOperator? (op.pieces negated ++ (us ++ rest)) (· = none)
        (op.pieces negated ++ (us ++ rest)) := by
      refine comparisonOperator?_none fun t ht hkind => ?_
      cases op <;> cases negated <;> cases ht <;> cases hkind
    refine hnone.bindEq ?_
    cases op with
    | within =>
        refine (within?_some negated).bindEq (hright.bind fun m' hm => .pure ⟨_, rfl, rfl, ?_⟩)
        cases negated <;> simp [negatedIf, Relation.tree, Parse.binary, Node.bare, hm, Relation.op]
    | test =>
        have hhead : (us ++ rest).head? ≠ some (word "not") := by
          obtain ⟨t, us, rfl, ht⟩ := hstart
          exact fun heq => absurd (ht.not (Option.some.inj heq)) (by decide)
        have hwithin : Reads within? (Relation.test.pieces negated ++ (us ++ rest)) (· = none)
            (Relation.test.pieces negated ++ (us ++ rest)) := by
          refine (Reads.peekIs_false (by cases negated <;> simp [Relation.pieces, word])).bindEq ?_
          refine (Reads.known false).bindEq ?_
          refine (Reads.skipValue_false ?_).bindEq (.pure rfl)
          cases negated <;> simp [Relation.pieces, word]
        refine hwithin.bindEq ((is?_some negated hhead).bindEq ?_)
        refine hright.bind fun m' hm => .pure ⟨_, rfl, rfl, ?_⟩
        cases negated <;> simp [negatedIf, Relation.tree, Parse.binary, Node.bare, hm, Relation.op]
  · rintro ⟨n', operands'⟩ ⟨rfl, hn⟩
    exact hrest n' hn

/-- **`in` and `is` associate to the left**, and end a chain of comparisons. -/
theorem Begins.relate {operands : List Node} (op : Relation) (negated : Bool)
    (h : Begins g .compare false ts n operands) (hstart : StartsWith .sum us)
    (hright : Phrase g .sum us m) :
    Begins g .compare false (ts ++ op.pieces negated ++ us)
      (op.tree negated (gathered n operands) m) [] := by
  intro rest Q out hrest _ hresume
  rw [List.append_assoc, List.append_assoc]
  refine h _ Q out ?_ nofun fun n' operands' hn hoperands => ?_
  · cases op <;> cases negated <;> exact .cons (l := .compare) rfl (by decide)
  · refine loops_relation hstart (hright rest hrest) fun n' hn' => hresume n' [] ?_ rfl
    rw [hn', bare_gathered, hn, hoperands]

/-- A further comparison. -/
theorem Begins.compare {operands : List Node} (op : Comparison)
    (h : Begins g .compare false ts n operands) (hright : Phrase g .sum us m) :
    Begins g .compare false (ts ++ mark op.operator :: us) n
      (operands ++ [.operand .start op m]) := by
  intro rest Q out hrest _ hresume
  rw [List.append_assoc, List.cons_append]
  refine h _ Q out (.cons (joins_comparison op) (by decide)) nofun fun n' operands' hn hoperands => ?_
  refine .again rest (P := fun c => c.1.bare = n ∧
    c.2.map Node.bare = operands ++ [.operand .start op m]) (by grind) ?_ ?_
  · refine (comparisonOperator?_some op).bindEq ?_
    refine (Reads.expect _ (by rw [mark_comparison])).bind fun token _ => ?_
    refine (hright rest hrest).bind fun m' hm => .pure ⟨_, rfl, hn, ?_⟩
    simp [hoperands, Node.bare, hm]
  · rintro ⟨n', operands'⟩ ⟨hn, hoperands⟩
    exact hresume n' operands' hn hoperands

/-! ### Powers, signs, negations and choices -/

section Tied

variable {hosts : List TagReader} {depth : Nat}

/-- No piece continues the phrases with a sign alone. -/
theorem Ends.sign (h : Ends .power ts) : Ends .sign ts := by
  intro t ht l hl
  have hsign : ∀ t l, joins t = some l → l ≠ .sign := by
    rintro t l h rfl
    unfold joins at h
    repeat' split at h
    all_goals cases h
  have hlt := h t ht l hl
  cases l with
  | sign => exact absurd rfl (hsign t _ hl)
  | suffix | atom | power => exact absurd hlt (by decide)
  | _ => decide

/-- **A power associates to the right**, and its exponent may have a sign. -/
theorem Phrase.power (h : Phrase (.tied hosts (depth + 1)) .suffix ts n)
    (hright : Phrase (.tied hosts depth) .sign us m) :
    Phrase (.tied hosts (depth + 1)) .power (ts ++ mark "**" :: us) (.binary .start .pow n m) := by
  intro rest hrest
  rw [List.append_assoc, List.cons_append]
  change Reads (Parse.power _) _ _ _
  rw [power_eq]
  refine (h _ (.cons (l := .power) rfl (by decide))).bind fun n' hn => ?_
  refine Reads.skipValue_true.bindEq ((hright rest hrest.sign).bind fun m' hm => .pure ?_)
  simp [Parse.binary, Node.bare, hn, hm]

/-- A sign before a phrase of the same level. -/
theorem Phrase.signed (op : UnaryOp) (hop : op ≠ .not)
    (h : Phrase (.tied hosts depth) .sign us m) :
    Phrase (.tied hosts (depth + 1)) .sign (unaryPiece op :: us) (.unary .start op m) := by
  intro rest hrest
  change Reads (Parse.unary _) (unaryPiece op :: (us ++ rest)) _ _
  refine (Reads.peek 0).bind fun token htoken => ?_
  have htoken : token.map Token.piece = some (unaryPiece op) := htoken
  obtain ⟨token, rfl, heq⟩ := Option.map_eq_some_iff.1 htoken
  cases op with
  | not => exact absurd rfl hop
  | neg =>
      obtain ⟨hkind, hvalue⟩ := Piece.mk.inj heq
      dsimp only
      rw [if_pos (by rw [Token.is, hkind, hvalue]; decide)]
      refine (Reads.expect _ rfl).bind fun token _ => (h rest hrest).bind fun m' hm => .pure ?_
      simp [Node.bare, hm]
  | pos =>
      obtain ⟨hkind, hvalue⟩ := Piece.mk.inj heq
      dsimp only
      rw [if_neg (by rw [Token.is, hkind, hvalue]; decide), if_pos (by rw [Token.is, hkind, hvalue]; decide)]
      refine (Reads.expect _ rfl).bind fun token _ => (h rest hrest).bind fun m' hm => .pure ?_
      simp [Node.bare, hm]

/-- `not` before a phrase of the same level. -/
theorem Phrase.negated (h : Phrase (.tied hosts depth) .not us m) :
    Phrase (.tied hosts (depth + 1)) .not (word "not" :: us) (.unary .start .not m) := by
  intro rest hrest
  change Reads (Parse.negation _) (word "not" :: (us ++ rest)) _ _
  refine (Reads.peek 0).bind fun _ _ => Reads.skipValue_true.bindEq ?_
  refine (h rest hrest).bind fun m' hm => .pure ?_
  simp [Node.bare, hm]

/-- A choice without an alternative. -/
theorem Phrase.choose {condition : Node} (h : Phrase g .or ts n) (hcondition : Phrase g .or us condition) :
    Phrase g .choice (ts ++ word "if" :: us) (.choice .start condition n none) := by
  intro rest hrest
  rw [List.append_assoc, List.cons_append]
  change Reads (Parse.expression _) _ _ _
  rw [expression_eq]
  refine (h _ (.cons (l := .choice) rfl (by decide))).bind fun n' hn => ?_
  refine Reads.skipValue_true.bindEq ((hcondition rest hrest.next).bind fun c hc => ?_)
  refine (Reads.skipValue_false (hrest.head?_ne rfl (Nat.le_refl _))).bindEq ?_
  refine (Reads.known none).bindEq (.pure ?_)
  simp [Node.bare, hn, hc]

/-- A choice with an alternative, which goes on as far as it can. -/
theorem Phrase.chooseElse {condition : Node} {vs : List Piece}
    (h : Phrase (.tied hosts (depth + 1)) .or ts n)
    (hcondition : Phrase (.tied hosts (depth + 1)) .or us condition)
    (hotherwise : Phrase (.tied hosts depth) .choice vs m) :
    Phrase (.tied hosts (depth + 1)) .choice (ts ++ word "if" :: (us ++ word "else" :: vs))
      (.choice .start condition n (some m)) := by
  intro rest hrest
  rw [List.append_assoc, List.cons_append, List.append_assoc, List.cons_append]
  change Reads (Parse.expression _) _ _ _
  rw [expression_eq]
  refine (h _ (.cons (l := .choice) rfl (by decide))).bind fun n' hn => ?_
  refine Reads.skipValue_true.bindEq ?_
  refine (hcondition _ (.cons (l := .choice) rfl (by decide))).bind fun c hc => ?_
  refine Reads.skipValue_true.bindEq ?_
  refine ((hotherwise rest hrest).map (R := fun m' => m'.map Node.bare = some m) ?_).bind ?_
  · exact fun m' hm => by rw [Option.map_some, hm]
  · refine fun m' hm => .pure ?_
    simp [Node.bare, hn, hc, hm]

end Tied

end Stencil.Syntax
