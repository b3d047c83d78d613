/-
**Atoms and suffixes are read back.**

Literals, names and what stands in brackets need nothing from what follows them.  Lists in brackets
are all read by one loop, which takes an item, a comma, an item and so on up to the closing bracket;
what an item adds is all that differs.

Main definitions:

* `Stencil.Syntax.Adds`, `Stencil.Syntax.AddsAll` — what an item, and what a list of them adds.

Main results:

* `Stencil.Syntax.loops_list` — a printed list is read to its end;
* `Stencil.Syntax.Phrase.parenthesized`, `Stencil.Syntax.Phrase.array`, `Stencil.Syntax.Phrase.dict` —
  brackets;
* `Stencil.Syntax.Begins.subscript`, `Stencil.Syntax.Begins.slice`, `Stencil.Syntax.Begins.call`,
  `Stencil.Syntax.Begins.filter` — suffixes.
-/

import Mathlib.Data.List.Forall2
import Stencil.Proofs.Printing.Operators

set_option autoImplicit false

namespace Stencil.Syntax

open Piece (mark word)
open Parse

variable {g : Grammar} {ts us rest out : List Piece} {n m : Node}

/-! ### Lists with commas -/

section Lists

variable {σ β : Type}

/-- The pieces that close brackets. -/
def IsClosing (t : Piece) : Prop :=
  t.kind = .rightParen ∨ t.kind = .rightBracket ∨ t.kind = .rightCurly

theorem IsClosing.joins {t : Piece} (h : IsClosing t) : joins t = none := by
  obtain ⟨kind, value⟩ := t
  rcases h with h | h | h <;> cases h <;> rfl

/-- A comma or a closing bracket is next. -/
def EndsItem (ts : List Piece) : Prop := ∃ t us, ts = t :: us ∧ (t = mark "," ∨ IsClosing t)

theorem EndsItem.ends (h : EndsItem ts) : Ends .choice ts := by
  obtain ⟨t, us, rfl, rfl | ht⟩ := h
  · exact .cons_none rfl
  · exact .cons_none ht.joins

/-- No operator follows an item. -/
theorem EndsItem.head?_ne (h : EndsItem ts) (value : String) :
    ts.head? ≠ some ⟨.operator, value⟩ := by
  obtain ⟨t, us, rfl, rfl | ht⟩ := h
  · exact fun heq => by cases heq
  · rintro ⟨⟩
    rcases ht with h | h | h <;> cases h

theorem EndsItem.more {closing : Piece} (h : IsClosing closing) (tss : List (List Piece)) :
    EndsItem ((tss.flatMap fun us => mark "," :: us) ++ closing :: rest) := by
  cases tss with
  | nil => exact ⟨_, _, rfl, .inr h⟩
  | cons us more => exact ⟨_, _, rfl, .inl rfl⟩

/-- An item that takes what was read before it to what was read with it. -/
def Adds (one : σ → Parse (σ ⊕ β)) (ts : List Piece) (P P' : σ → Prop) : Prop :=
  ∀ s, P s → ∀ rest, EndsItem rest →
    Reads (one s) (ts ++ rest) (fun r => ∃ s', r = .inl s' ∧ P' s') rest

/-- A list of items, none of which is nothing. -/
inductive AddsAll (one : σ → Parse (σ ⊕ β)) (isEmpty : σ → Bool) :
    List (List Piece) → (σ → Prop) → (σ → Prop) → Prop
  | nil (P : σ → Prop) : AddsAll one isEmpty [] P P
  | cons {ts : List Piece} {more : List (List Piece)} {P R S : σ → Prop}
      (hstart : StartsWith .choice ts) (h : Adds one ts P R) (hne : ∀ s, R s → isEmpty s = false)
      (hmore : AddsAll one isEmpty more R S) : AddsAll one isEmpty (ts :: more) P S

theorem AddsAll.append {one : σ → Parse (σ ⊕ β)} {isEmpty : σ → Bool}
    {tss uss : List (List Piece)} {P P' P'' : σ → Prop} (h : AddsAll one isEmpty tss P P')
    (h' : AddsAll one isEmpty uss P' P'') : AddsAll one isEmpty (tss ++ uss) P P'' := by
  induction h with
  | nil => exact h'
  | cons hstart hadds hne _ ih => exact .cons hstart hadds hne (ih h')

/-- A list of pieces with commas between them, the first of them apart. -/
theorem separated_cons (ts : List Piece) (more : List (List Piece)) :
    separated (ts :: more) = ts ++ more.flatMap fun us => mark "," :: us := by
  induction more generalizing ts with
  | nil => simp [separated]
  | cons us more ih =>
      change ts ++ mark "," :: separated (us :: more) = _
      rw [ih us, List.flatMap_cons]
      rfl

variable {close : TokenKind} {what : String} {isEmpty : σ → Bool} {finish : σ → Bool → β}
  {one : σ → Parse (σ ⊕ β)} {closing : Piece}

/-- An expression does not start with a closing bracket. -/
theorem StartsWith.no_close {level : Level} (h : StartsWith level ts) (hclosing : IsClosing closing) :
    ∀ t ∈ (ts ++ rest).head?, t.kind ≠ closing.kind := by
  obtain ⟨t, us, rfl, ht⟩ := h
  rintro _ ⟨⟩ heq
  have hkind := ht.kind
  rw [heq] at hkind
  rcases hclosing with h | h | h <;> rw [h] at hkind <;> simp at hkind

/-- After some items the reader of a list goes on to the closing bracket. -/
theorem loops_more {tss : List (List Piece)} {P P' : σ → Prop} (hclosing : IsClosing closing)
    (h : AddsAll one isEmpty tss P P') (hne : ∀ s, P s → isEmpty s = false) {s : σ} (hs : P s) :
    Loops (listStep closing.kind what isEmpty finish one) s
      ((tss.flatMap fun us => mark "," :: us) ++ closing :: rest)
      (fun r => ∃ s', r = finish s' false ∧ P' s') rest := by
  induction h generalizing s with
  | nil => exact .done ((Reads.skip_true rfl).bindEq (.pure ⟨_, rfl, s, rfl, hs⟩))
  | cons hstart hadds hne' hmore ih =>
      rename_i ts more P R S
      have hcomma : (mark ",").kind ≠ closing.kind := by
        rcases hclosing with h | h | h <;> rw [h] <;> decide
      refine .again ((more.flatMap fun us => mark "," :: us) ++ closing :: rest) (P := R)
        ?_ ?_ fun s' hs' => ih hne' hs'
      · simp only [List.flatMap_cons, List.length_append, List.length_cons]
        omega
      · rw [List.flatMap_cons, List.append_assoc, List.cons_append]
        refine (Reads.skip_false (fun t ht => by cases ht; exact hcomma)).bindEq ?_
        rw [hne s hs]
        refine (Reads.expect (t := mark ",") what rfl).ignore.bind fun _ _ => ?_
        exact (Reads.skip_false (hstart.no_close hclosing)).bindEq
          (hadds s hs _ (.more hclosing more))

/-- **A printed list is read to its closing bracket**, with no comma before it. -/
theorem loops_list {tss : List (List Piece)} {P P' : σ → Prop} (closing : Piece) (what : String)
    (finish : σ → Bool → β) (rest : List Piece) (hclosing : IsClosing closing)
    (h : AddsAll one isEmpty tss P P') (hempty : ∀ s, P s → isEmpty s = true) {s : σ} (hs : P s) :
    Loops (listStep closing.kind what isEmpty finish one) s (separated tss ++ closing :: rest)
      (fun r => ∃ s', r = finish s' false ∧ P' s') rest := by
  cases h with
  | nil => exact .done ((Reads.skip_true rfl).bindEq (.pure ⟨_, rfl, s, rfl, hs⟩))
  | cons hstart hadds hne hmore =>
      rename_i ts more R
      rw [separated_cons, List.append_assoc]
      refine .again ((more.flatMap fun us => mark "," :: us) ++ closing :: rest) (P := R)
        ?_ ?_ fun s' hs' => loops_more hclosing hmore hne hs'
      · obtain ⟨t, us, rfl, _⟩ := hstart
        simp only [List.length_append, List.length_cons]
        omega
      · refine (Reads.skip_false (hstart.no_close hclosing)).bindEq ?_
        rw [hempty s hs]
        exact hadds s hs _ (.more hclosing more)

end Lists

/-! ### Brackets -/

/-- Pieces that are read as an item. -/
structure Item (g : Grammar) (isDict : Bool) (ts : List Piece) (n : Node) : Prop where
  start : StartsWith .choice ts
  reads : ∀ rest, EndsItem rest →
    Reads (item g isDict) (ts ++ rest) (fun n' => n'.bare = n) rest

/-- The items of a list are added one by one. -/
theorem addsAll_items {isDict : Bool} {tss : List (List Piece)} {ns : List Node}
    (h : List.Forall₂ (Item g isDict) tss ns) (before : List Node) :
    AddsAll (β := List Node × Bool) (itemStep g isDict) List.isEmpty tss
      (fun items => items.map Node.bare = before)
      (fun items => items.map Node.bare = before ++ ns) := by
  induction h generalizing before with
  | nil => simpa using .nil _
  | @cons ts n tss ns hitem _ ih =>
      refine .cons (R := fun items => items.map Node.bare = before ++ [n]) hitem.start ?_ ?_ ?_
      · intro items hitems rest hrest
        refine (hitem.reads rest hrest).bind fun n' hn => .pure ⟨_, rfl, ?_⟩
        simp [hitems, hn]
      · intro items hitems
        cases items with
        | nil => simp at hitems
        | cons => rfl
      · simpa using ih (before ++ [n])

theorem reads_items {isDict : Bool} {tss : List (List Piece)} {ns : List Node} (closing : Piece)
    (rest : List Piece) (hclosing : IsClosing closing) (h : List.Forall₂ (Item g isDict) tss ns) :
    Reads (items g closing.kind isDict) (separated tss ++ closing :: rest)
      (fun r => r.1.map Node.bare = ns ∧ r.2 = false) rest := by
  rw [items_eq]
  refine .iterate ((loops_list closing _ _ rest hclosing (addsAll_items h []) ?_ rfl).mono ?_)
  · intro items hitems
    rw [List.map_eq_nil_iff.1 hitems]
    rfl
  · rintro _ ⟨items, rfl, hitems⟩
    exact ⟨hitems, rfl⟩

/-- An item of a list that is no dictionary is an expression. -/
theorem Phrase.item {hosts : List TagReader} {depth : Nat} (hstart : StartsWith .choice ts)
    (h : Phrase (.tied hosts depth) .choice ts n) :
    Item (.tied hosts (depth + 1)) false ts n :=
  ⟨hstart, fun rest hrest => h rest hrest.ends⟩

section Tied

variable {hosts : List TagReader} {depth : Nat}

/-- The key of an entry without its place. -/
theorem bare_entryKey (key : Node) : (entryKey key).bare = entryKey key.bare := by
  cases key <;> rfl

/-- An item of a dictionary is a key and a value. -/
theorem Phrase.entry (hstart : StartsWith .atom ts) (hkey : Phrase (.tied hosts depth) .atom ts n)
    (hvalue : Phrase (.tied hosts depth) .choice us m) :
    Item (.tied hosts (depth + 1)) true (ts ++ mark ":" :: us) (.pair .start (entryKey n) m) := by
  refine ⟨(hstart.loosen (by decide)).append _, fun rest hrest => ?_⟩
  rw [List.append_assoc, List.cons_append]
  have hread : Reads (Parse.primary (.tied hosts depth) true) (ts ++ mark ":" :: (us ++ rest))
      (fun n' => n'.bare = n) (mark ":" :: (us ++ rest)) :=
    (hkey _ .atom).bind fun n' hn => .pure hn
  refine hread.bind fun n' hn => (Reads.expect (t := mark ":") _ rfl).ignore.bind fun _ _ => ?_
  refine (hvalue rest hrest.ends).bind fun m' hm => .pure ?_
  subst hn hm
  rw [← bare_entryKey]
  cases n' <;> rfl

/-! ### Atoms -/

/-- A word for the absent value. -/
theorem Phrase.absent : Phrase g .atom [⟨.nothing, "none"⟩] (.literal .start .none) := by
  intro rest hrest
  refine Reads.next.bind ?_
  rintro _ ⟨⟨_, _, p⟩, rfl, ⟨⟩⟩
  exact .pure rfl

/-- A word for a truth value. -/
theorem Phrase.truth (b : Bool) :
    Phrase g .atom [⟨.boolean, if b then "true" else "false"⟩] (.literal .start (.bool b)) := by
  intro rest hrest
  refine Reads.next.bind ?_
  rintro _ ⟨⟨_, _, p⟩, rfl, ⟨⟩⟩
  cases b <;> exact .pure rfl

/-- A number in its decimal digits. -/
theorem Phrase.number (k : Fin (2 ^ 63)) :
    Phrase g .atom [⟨.int, k.val.repr⟩] (.literal .start (.int k)) := by
  intro rest hrest
  refine Reads.next.bind ?_
  rintro _ ⟨⟨kind, value, p⟩, rfl, heq⟩
  obtain ⟨rfl, rfl⟩ := Piece.mk.inj heq
  have hdigits : Decimal.natOfDigits k.val.repr.toList = k.val := by
    rw [Nat.toList_repr]
    exact Nat.ofDigitChars_toDigits (by decide) (by decide)
  have hfits : k.val < Nat.pow 2 63 := k.isLt
  change Reads (integer _) rest _ rest
  unfold integer
  dsimp only
  rw [hdigits, if_pos hfits]
  exact .pure rfl

/-- A quoted string. -/
theorem Phrase.text (s : String) : Phrase g .atom [⟨.string, s⟩] (.literal .start (.string s)) := by
  intro rest hrest
  refine Reads.next.bind ?_
  rintro _ ⟨⟨_, _, p⟩, rfl, ⟨⟩⟩
  exact .pure rfl

/-- A name. -/
theorem Phrase.name (s : String) : Phrase g .atom [word s] (.symbol .start s) := by
  intro rest hrest
  refine Reads.next.bind ?_
  rintro _ ⟨⟨_, _, p⟩, rfl, ⟨⟩⟩
  exact .pure rfl

/-- **A phrase in parentheses stands for itself.** -/
theorem Phrase.parenthesized (hstart : StartsWith .choice ts)
    (h : Phrase (.tied hosts depth) .choice ts n) :
    Phrase (.tied hosts (depth + 1)) .atom (parenthesized ts) n := by
  intro rest hrest
  rw [Syntax.parenthesized, List.cons_append, List.append_assoc]
  refine Reads.next.bind ?_
  rintro _ ⟨⟨_, _, p⟩, rfl, ⟨⟩⟩
  have hitems := reads_items (mark ")") rest (.inl rfl)
    (.cons (h.item hstart) .nil)
  refine hitems.bind ?_
  rintro ⟨items, comma⟩ ⟨hitems, rfl⟩
  obtain ⟨one, rfl, hone⟩ : ∃ one, items = [one] ∧ one.bare = n := by
    match items, hitems with
    | [one], hitems => exact ⟨one, rfl, by simpa using hitems⟩
  exact .pure hone

/-- Items in square brackets. -/
theorem Phrase.array {tss : List (List Piece)} {ns : List Node}
    (h : List.Forall₂ (Item g false) tss ns) :
    Phrase g .atom (mark "[" :: (separated tss ++ [mark "]"])) (.group .array .start ns) := by
  intro rest hrest
  rw [List.cons_append, List.append_assoc]
  refine Reads.next.bind ?_
  rintro _ ⟨⟨_, _, p⟩, rfl, ⟨⟩⟩
  have hitems := reads_items (mark "]") rest (.inr (.inl rfl)) h
  refine hitems.bind ?_
  rintro ⟨items, comma⟩ ⟨hitems, rfl⟩
  refine .pure ?_
  simp [Node.bare, hitems]

/-- Entries in curly brackets. -/
theorem Phrase.dict {tss : List (List Piece)} {ns : List Node}
    (h : List.Forall₂ (Item g true) tss ns) :
    Phrase g .atom (mark "\x7b" :: (separated tss ++ [mark "\x7d"])) (.group .dict .start ns) := by
  intro rest hrest
  rw [List.cons_append, List.append_assoc]
  refine Reads.next.bind ?_
  rintro _ ⟨⟨_, _, p⟩, rfl, ⟨⟩⟩
  have hitems := reads_items (mark "\x7d") rest (.inr (.inr rfl)) h
  refine hitems.bind ?_
  rintro ⟨items, comma⟩ ⟨hitems, rfl⟩
  refine .pure ?_
  simp [Node.bare, hitems]

/-! ### Suffixes -/

/-- A suffix is read after what it follows. -/
theorem Begins.suffixed {bare bare' : Bool} {t : Piece} (h : Begins g .suffix bare ts n [])
    (ht : bare = true → EndsName [t])
    (hsuffix : ∀ n', n'.bare = n → ∀ rest, (bare' = true → EndsName rest) →
      Reads (suffix? g n') (t :: (us ++ rest)) (fun r => ∃ k, r = some k ∧ k.bare = m) rest) :
    Begins g .suffix bare' (ts ++ t :: us) m [] := by
  intro rest Q out _ hname hresume
  rw [List.append_assoc, List.cons_append]
  refine h _ Q out .atom (fun heq u hu => ht heq u (by simpa using hu)) fun n' operands hn _ => ?_
  refine .again rest (P := fun k => k.bare = m) (by grind) ?_ fun k hk =>
    hresume k [] hk rfl
  refine (hsuffix n' hn rest hname).bind ?_
  rintro _ ⟨k, rfl, hk⟩
  exact .pure ⟨k, rfl, hk⟩

/-- The start or the stop of a slice, if it is there. -/
inductive Bound (g : Grammar) : List Piece → Option Node → Prop
  | none : Bound g [] none
  | some {ts : List Piece} {n : Node} (hstart : StartsWith .choice ts) (h : Phrase g .choice ts n) :
      Bound g ts (some n)

/-- The step of a slice with the colon before it, if it is there. -/
inductive Stride (g : Grammar) : List Piece → Option Node → Prop
  | none : Stride g [] none
  | some {ts : List Piece} {n : Node} (hstart : StartsWith .choice ts) (h : Phrase g .choice ts n) :
      Stride g (mark ":" :: ts) (some n)

/-- The kind of the piece that an expression starts with. -/
theorem StartsWith.kind {level : Level} (h : StartsWith level ts) (rest : List Piece) :
    ∃ kind : TokenKind, (ts ++ rest)[0]?.map Piece.kind = some kind ∧ kind ≠ .colon ∧
      kind ≠ .rightBracket := by
  obtain ⟨⟨kind, value⟩, us, rfl, ht⟩ := h
  have hkind := ht.kind
  refine ⟨kind, rfl, ?_, ?_⟩ <;> rintro rfl <;> simp at hkind

/-- An expression that may be missing, and is not. -/
theorem Phrase.reads_some (h : Phrase (.tied hosts depth) .choice ts n) (hrest : Ends .choice rest) :
    Reads (some <$> (Grammar.tied hosts (depth + 1)).expression) (ts ++ rest)
      (fun a => a.map Node.bare = some n) rest :=
  (h rest hrest).map fun m hm => by rw [Option.map_some, hm]

theorem reads_sliceStep {p : Position} {a b d : Option Node} (rest : List Piece)
    (h : Stride (.tied hosts depth) ts d) :
    Reads (sliceStep (.tied hosts (depth + 1)) p a b) (ts ++ mark "]" :: rest)
      (fun k => k.bare = .slice .start (a.map Node.bare) (b.map Node.bare) d) rest := by
  have hend : Ends .choice (mark "]" :: rest) := .cons_none rfl
  cases h with
  | none =>
      refine (Reads.skip_false (by rintro _ ⟨⟩; decide)).bindEq ?_
      refine (Reads.known none).bindEq ((Reads.expect (t := mark "]") _ rfl).ignore.bind fun _ _ => .pure ?_)
      simp [Node.bare]
  | some hstart h =>
      obtain ⟨kind, hkind, _, hne⟩ := hstart.kind (mark "]" :: rest)
      refine (Reads.skip_true rfl).bindEq ?_
      refine (Reads.peekKind 0).bindEq (.ifNeg (fun heq => ?_) ?_)
      · exact hne (Option.some.inj (hkind.symm.trans heq))
      refine (h.reads_some hend).bind fun d' hd => ?_
      refine (Reads.expect (t := mark "]") _ rfl).ignore.bind fun _ _ => .pure ?_
      simp [Node.bare, hd]

theorem reads_sliceStop {p : Position} {a b d : Option Node} (hb : Bound (.tied hosts depth) ts b)
    (hd : Stride (.tied hosts depth) us d) :
    Reads (sliceStop (.tied hosts (depth + 1)) p a) (ts ++ (us ++ mark "]" :: rest))
      (fun k => k.bare = .slice .start (a.map Node.bare) b d) rest := by
  cases hb with
  | none =>
      refine (Reads.peekKind 0).bindEq ?_
      cases hd with
      | none => exact (Reads.known none).bindEq (reads_sliceStep _ .none)
      | some hstart h => exact (Reads.known none).bindEq (reads_sliceStep _ (.some hstart h))
  | some hstart h =>
      obtain ⟨kind, hkind, hcolon, hbracket⟩ := hstart.kind (us ++ mark "]" :: rest)
      have hend : Ends .choice (us ++ mark "]" :: rest) := by
        cases hd <;> exact .cons_none rfl
      refine (Reads.peekKind 0).bindEq ?_
      rw [hkind]
      have hread := (h.reads_some hend).bind fun b' hb' =>
        (reads_sliceStep rest (p := p) (a := a) (b := b') hd).mono
          fun k hk => hk.trans (by rw [hb'])
      cases kind with
      | colon => exact absurd rfl hcolon
      | rightBracket => exact absurd rfl hbracket
      | _ => exact hread

/-- What follows an opening square bracket is read as a subscript. -/
theorem reads_bracket {Q : Node → Prop}
    (h : ∀ p : Position, Reads (do
      let start ← if (← peekKind 0) = some .colon then Pure.pure none else some <$> g.expression
      subscriptEnd g p start) us (fun k => Q (.lookup n.position n k)) rest) :
    Reads (suffix? g n) (mark "[" :: us) (fun r => ∃ k, r = some k ∧ Q k) rest := by
  refine (Reads.peekIs_false (by simp [mark, Lexeme.punctuationKind])).bindEq ?_
  refine (Reads.peekKind 0).bindEq (Reads.next.ignore.bind fun _ _ => ?_)
  rw [subscript_eq]
  refine Reads.bind (Reads.get.bind fun p _ => h _) fun k hk => .pure ⟨_, rfl, hk⟩

/-- **An expression in square brackets** is the key of a lookup. -/
theorem Begins.subscript {bare : Bool} (h : Begins (.tied hosts (depth + 1)) .suffix bare ts n [])
    (hstart : StartsWith .choice us) (hkey : Phrase (.tied hosts depth) .choice us m) :
    Begins (.tied hosts (depth + 1)) .suffix false (ts ++ mark "[" :: (us ++ [mark "]"]))
      (.lookup .start n m) [] := by
  refine h.suffixed (fun _ t ht => by cases ht; decide) fun n' hn rest _ => ?_
  rw [List.append_assoc]
  refine reads_bracket (fun p => ?_)
  obtain ⟨kind, hkind, hcolon, _⟩ := hstart.kind (mark "]" :: rest)
  refine (Reads.peekKind 0).bindEq (.ifNeg (fun heq => ?_) ?_)
  · exact hcolon (Option.some.inj (hkind.symm.trans heq))
  · refine (hkey.reads_some (.cons_none rfl)).bind fun start hstart => ?_
    obtain ⟨m', rfl, hm⟩ := Option.map_eq_some_iff.1 hstart
    refine (Reads.skip_false (by rintro _ ⟨⟩; decide)).bindEq ?_
    exact (Reads.expect (t := mark "]") _ rfl).ignore.bind fun _ _ => .pure (by simp [Node.bare, hn, hm])

/-- **A slice in square brackets** is the key of a lookup. -/
theorem Begins.slice {bare : Bool} {vs ws : List Piece} {a b c : Option Node}
    (h : Begins (.tied hosts (depth + 1)) .suffix bare ts n [])
    (ha : Bound (.tied hosts depth) us a) (hb : Bound (.tied hosts depth) vs b)
    (hc : Stride (.tied hosts depth) ws c) :
    Begins (.tied hosts (depth + 1)) .suffix false
      (ts ++ mark "[" :: (us ++ mark ":" :: (vs ++ (ws ++ [mark "]"]))))
      (.lookup .start n (.slice .start a b c)) [] := by
  refine h.suffixed (fun _ t ht => by cases ht; decide) fun n' hn rest _ => ?_
  simp only [List.append_assoc, List.cons_append, List.nil_append]
  refine reads_bracket (fun p => ?_)
  cases ha with
  | none =>
      refine (Reads.peekKind 0).bindEq (.ifPos rfl ((Reads.known none).bindEq ?_))
      refine (Reads.skip_true rfl).bindEq ((reads_sliceStop hb hc).mono fun k hk => ?_)
      simp [Node.bare, hn, hk]
  | some hstart ha =>
      obtain ⟨kind, hkind, hcolon, _⟩ :=
        hstart.kind (mark ":" :: (vs ++ (ws ++ mark "]" :: rest)))
      refine (Reads.peekKind 0).bindEq (.ifNeg (fun heq => ?_) ?_)
      · exact hcolon (Option.some.inj (hkind.symm.trans heq))
      · refine (ha.reads_some (.cons_none rfl)).bind fun start hstart => ?_
        obtain ⟨a', rfl, ha'⟩ := Option.map_eq_some_iff.1 hstart
        refine (Reads.skip_true rfl).bindEq ((reads_sliceStop hb hc).mono fun k hk => ?_)
        simp [Node.bare, hn, hk, ha']

/-! ### Arguments -/

/-- The arguments that were read so far, without their places. -/
def HasRead (positional keywords : List Node) (read : Gathered) : Prop :=
  read.1.map Node.bare = positional ∧ read.2.map Node.bare = keywords

/-- The reader of arguments takes printed ones one by one. -/
abbrev AddsArguments (g : Grammar) (tss : List (List Piece)) (P P' : Gathered → Prop) : Prop :=
  AddsAll (argumentStep g) (fun read => read.1.isEmpty && read.2.isEmpty) tss P P'

theorem addsArguments_positional {tss : List (List Piece)} {ns : List Node} (before : List Node)
    (h : List.Forall₂ (fun ts n => StartsWith .choice ts ∧ Phrase (.tied hosts depth) .choice ts n)
      tss ns) :
    AddsArguments (.tied hosts (depth + 1)) tss (HasRead before []) (HasRead (before ++ ns) []) := by
  induction h generalizing before with
  | nil =>
      rw [List.append_nil]
      exact .nil _
  | @cons ts n tss ns hitem _ ih =>
      have ih := ih (before ++ [n])
      rw [List.append_assoc, List.singleton_append] at ih
      refine .cons (R := HasRead (before ++ [n]) []) hitem.1 ?_ ?_ ih
      · rintro ⟨positional, keywords⟩ ⟨hpositional, hkeywords⟩ rest hrest
        obtain rfl := List.map_eq_nil_iff.1 hkeywords
        refine Reads.bind (Q := HasRead (before ++ [n]) []) ?_ fun read hread =>
          .pure ⟨_, rfl, hread⟩
        refine (hitem.2 rest hrest.ends).bind fun n' hn => ?_
        refine (Reads.skipValue_false (hrest.head?_ne "=")).bindEq (.pure ⟨?_, rfl⟩)
        simp only at hpositional
        simp [hpositional, hn]
      · rintro ⟨positional, keywords⟩ ⟨hpositional, hkeywords⟩
        cases positional with
        | nil => simp at hpositional
        | cons => rfl

theorem addsArguments_keywords {tss : List (List Piece)} {ns positional : List Node}
    (before : List Node) (h : List.Forall₂ (fun ts n => ∃ (x : Name) (us : List Piece) (m : Node),
      ts = word x.text :: mark "=" :: us ∧ n = .pair .start (.symbol .start x.text) m ∧
        Phrase (.tied hosts depth) .choice us m) tss ns) :
    AddsArguments (.tied hosts (depth + 1)) tss (HasRead positional before)
      (HasRead positional (before ++ ns)) := by
  induction h generalizing before with
  | nil =>
      rw [List.append_nil]
      exact .nil _
  | @cons ts n tss ns hitem _ ih =>
      obtain ⟨x, us, m, rfl, rfl, hvalue⟩ := hitem
      have ih := ih (before ++ [.pair .start (.symbol .start x.text) m])
      rw [List.append_assoc, List.singleton_append] at ih
      have hstart : StartsWith .choice [word x.text] :=
        (Expression.startsWith_pieces (.name x)).loosen (Nat.le_of_ble_eq_true rfl)
      have hname : Phrase (.tied hosts depth) .choice [word x.text] (.symbol .start x.text) :=
        (Phrase.name x.text).loosen (Expression.startsWith_pieces (.name x)) (by decide)
      refine .cons (R := HasRead positional (before ++ [.pair .start (.symbol .start x.text) m]))
        (hstart.append _) ?_ ?_ ih
      · rintro ⟨positional', keywords⟩ ⟨hpositional, hkeywords⟩ rest hrest
        refine Reads.bind
          (Q := HasRead positional (before ++ [.pair .start (.symbol .start x.text) m])) ?_
          fun read hread => .pure ⟨_, rfl, hread⟩
        refine (hname _ (.cons_none rfl)).bind fun n' hn => ?_
        obtain ⟨p, rfl⟩ : ∃ p, n' = .symbol p x.text := by
          cases n' <;> simp [Node.bare] at hn
          exact ⟨_, by rw [hn]⟩
        refine Reads.skipValue_true.bindEq (.ifPos rfl ?_)
        refine .ifNeg (by simp [Node.asSymbol?]) ?_
        refine (hvalue rest hrest.ends).bind fun m' hm => .pure ⟨hpositional, ?_⟩
        simp only at hkeywords
        simp [hkeywords, Node.bare, hm]
      · rintro ⟨positional, keywords⟩ ⟨hpositional, hkeywords⟩
        cases keywords with
        | nil => simp at hkeywords
        | cons => simp

/-- **Arguments in parentheses** are read as a sequence with the keywords last. -/
theorem reads_signature {tss : List (List Piece)} {positional keywords : List Node}
    (h : AddsArguments g tss (HasRead [] []) (HasRead positional keywords)) :
    Reads (signature g) (parenthesized (separated tss) ++ rest)
      (fun k => k.bare = .sequence .start (positional ++ keywordGroup keywords)) rest := by
  rw [Syntax.parenthesized, List.cons_append, List.append_assoc, signature_eq]
  refine (Reads.expect _ rfl).bind fun opening _ => ?_
  have hloop := loops_list (mark ")") "`,` between arguments" (fun read (_ : Bool) => read) rest
    (.inl rfl) h ?_ (s := ([], [])) ⟨rfl, rfl⟩
  · refine (Reads.iterate hloop).bind ?_
    rintro ⟨positional', keywords'⟩ ⟨_, rfl, hpositional, hkeywords⟩
    refine .pure ?_
    subst hpositional hkeywords
    cases keywords' <;> simp [keywordGroup, Node.sequence, Node.bare]
  · rintro ⟨positional', keywords'⟩ ⟨hpositional, hkeywords⟩
    rw [List.map_eq_nil_iff] at hpositional hkeywords
    simp only at hpositional hkeywords
    rw [hpositional, hkeywords]
    rfl

/-- **A call.** -/
theorem Begins.call {tss : List (List Piece)} {positional keywords : List Node}
    (h : Begins g .suffix false ts n [])
    (harguments : AddsArguments g tss (HasRead [] []) (HasRead positional keywords)) :
    Begins g .suffix false (ts ++ parenthesized (separated tss))
      (.call .start n (.sequence .start (positional ++ keywordGroup keywords))) [] := by
  refine h.suffixed nofun fun n' hn rest _ => ?_
  refine (Reads.peekIs_false (by simp [mark, Lexeme.punctuationKind])).bindEq ?_
  refine (Reads.peekKind 0).bindEq ((reads_signature harguments).bind fun k hk => .pure ⟨_, rfl, ?_⟩)
  simp [Node.bare, hn, hk]

/-! ### Filters -/

/-- The name of a filter in one text. -/
def dottedName (x : Word) (members : List Word) : String :=
  members.foldl (fun name y => name ++ "." ++ y.text) x.text

/-- The members of a name are read one by one. -/
theorem loops_filterName (members : List Word) (name : String)
    (hrest : rest.head? ≠ some ⟨.operator, "."⟩) :
    Loops filterStep name ((members.flatMap fun y => [mark ".", word y.text]) ++ rest)
      (· = members.foldl (fun name y => name ++ "." ++ y.text) name) rest := by
  induction members generalizing name with
  | nil =>
      rw [List.head?_eq_getElem?] at hrest
      exact .done ((Reads.peekIs_false hrest).bindEq (.pure ⟨_, rfl, rfl⟩))
  | cons y members ih =>
      refine .again ((members.flatMap fun y => [mark ".", word y.text]) ++ rest)
        (P := (· = name ++ "." ++ y.text))
        (by grind) ?_ fun _ h => h ▸ ih _
      refine (Reads.peekIs_true rfl).bindEq (.ifPos rfl ?_)
      refine (Reads.peekKind 1).bindEq (.ifPos rfl ?_)
      refine Reads.next.ignore.bind fun _ _ => Reads.next.bind ?_
      rintro _ ⟨⟨_, _, p⟩, rfl, ⟨⟩⟩
      exact .pure ⟨_, rfl, rfl⟩

/-- The name of a filter ends where no point follows. -/
theorem reads_filterName (x : Word) (members : List Word)
    (hrest : rest.head? ≠ some ⟨.operator, "."⟩) :
    Reads filterName (dotted x members ++ rest) (· = dottedName x members) rest := by
  rw [filterName_eq]
  refine Reads.bind (Reads.expect _ rfl) fun token htoken => ?_
  obtain ⟨kind, value, p⟩ := token
  obtain ⟨rfl, rfl⟩ := Piece.mk.inj htoken
  exact .iterate (loops_filterName members x.text hrest)

/-- **A filter without arguments**, after which none must follow. -/
theorem Begins.filter {bare : Bool} (x : Word) (members : List Word)
    (h : Begins g .suffix bare ts n []) :
    Begins g .suffix true (ts ++ mark "|" :: dotted x members)
      (.filter .start (dottedName x members) (.sequence .start [n])) [] := by
  refine h.suffixed (fun _ t ht => by cases ht; decide) fun n' hn rest hrest => ?_
  refine (Reads.peekIs_false (by simp [mark, Lexeme.punctuationKind])).bindEq ?_
  refine (Reads.peekKind 0).bindEq (Reads.next.ignore.bind fun _ _ => ?_)
  refine (reads_filterName x members fun heq => (hrest rfl _ heq).2 rfl).bindEq ?_
  refine (Reads.peekKind 0).bindEq (.ifNeg (fun heq => ?_) ?_)
  · obtain ⟨t, ht, hkind⟩ := Option.map_eq_some_iff.1 heq
    rw [← List.head?_eq_getElem?] at ht
    exact (hrest rfl t ht).1 hkind
  · refine (Reads.known []).bindEq (.pure ⟨_, rfl, ?_⟩)
    simp [Node.bare, hn, Node.sequence]

/-- **A filter with arguments.** -/
theorem Begins.filterWith {bare : Bool} {tss : List (List Piece)} {positional keywords : List Node}
    (x : Word) (members : List Word) (h : Begins g .suffix bare ts n [])
    (harguments : AddsArguments g tss (HasRead [] []) (HasRead positional keywords)) :
    Begins g .suffix false
      (ts ++ mark "|" :: (dotted x members ++ parenthesized (separated tss)))
      (.filter .start (dottedName x members)
        (.sequence .start (n :: (positional ++ keywordGroup keywords)))) [] := by
  refine h.suffixed (fun _ t ht => by cases ht; decide) fun n' hn rest _ => ?_
  refine (Reads.peekIs_false (by simp [mark, Lexeme.punctuationKind])).bindEq ?_
  refine (Reads.peekKind 0).bindEq (Reads.next.ignore.bind fun _ _ => ?_)
  rw [List.append_assoc]
  refine (reads_filterName x members fun heq => by cases heq).bindEq ?_
  refine (Reads.peekKind 0).bindEq (.ifPos rfl ?_)
  refine (reads_signature harguments).bind fun k hk => ?_
  refine Reads.bind (Q := fun more => more.map Node.bare = positional ++ keywordGroup keywords)
    (.pure ?_) fun more hmore => .pure ⟨_, rfl, ?_⟩
  · rw [← Node.members_bare, hk]
    rfl
  · simp [Node.bare, hn, Node.sequence, hmore]

end Tied

end Stencil.Syntax
