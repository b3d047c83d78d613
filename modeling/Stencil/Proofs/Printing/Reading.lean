/-
**Reading pieces.**

A parser that has a list of pieces before it takes them from the front and looks at those it has not
taken.  What an action reads is then a matter of the pieces alone.

Main definitions:

* `Stencil.Parser.Holds` — the pieces that a parser has before it;
* `Stencil.Parse.Reads` — an action succeeds on a list of pieces, and what it leaves of them;
* `Stencil.Parse.Loops` — the same of an action that is repeated.

Main results:

* `Stencil.Parse.Reads.bind` — actions one after the other;
* `Stencil.Parse.Reads.peek`, `Stencil.Parse.Reads.next`, `Stencil.Parse.Reads.expect`,
  `Stencil.Parse.Reads.skip_true`, `Stencil.Parse.Reads.skip_false` — pieces;
* `Stencil.Parse.Loops.again`, `Stencil.Parse.Loops.done` — a repetition by its steps.
-/

import Stencil.Proofs.Printing.Pieces

set_option autoImplicit false

namespace Stencil

/-! ### Parsers -/

/-- The pieces that a parser has before it. -/
def Parser.Holds (p : Parser) (ts : List Piece) : Prop :=
  p.trimNext = false ∧ ∃ later, p.lexer.Yields later ∧ ts = p.buffer.map Token.piece ++ later

/-- Every piece takes a character. -/
theorem Lexer.Yields.length_le {l : Lexer} {ts : List Piece} (h : l.Yields ts) :
    ts.length ≤ l.rest.length := by
  induction h with
  | nil => exact Nat.zero_le _
  | cons _ hlt _ ih => exact Nat.lt_of_le_of_lt ih hlt

theorem Parser.Holds.length_lt {p : Parser} {ts : List Piece} (h : p.Holds ts) :
    ts.length < p.size := by
  obtain ⟨_, later, hlater, rfl⟩ := h
  have hle := hlater.length_le
  simp only [List.length_append, List.length_map, Parser.size]
  omega

namespace Parse

/-- An action succeeds on a list of pieces, with a result that something is known of, and leaves the
rest of the pieces. -/
def Reads {α : Type} (x : Parse α) (ts : List Piece) (Q : α → Prop) (rest : List Piece) : Prop :=
  ∀ p : Parser, p.Holds ts → ∃ a q, x p = (.ok a, q) ∧ Q a ∧ q.Holds rest

/-- An action that is repeated, often enough for the pieces, succeeds on them. -/
def Loops {α β : Type} (step : α → Parse (α ⊕ β)) (a : α) (ts : List Piece) (Q : β → Prop)
    (rest : List Piece) : Prop :=
  ∀ fuel, ts.length < fuel → Reads (iterateWithin step fuel a) ts Q rest

/-- An action that succeeded, followed by another. -/
theorem bind_apply {α β : Type} {x : Parse α} {f : α → Parse β} {p q : Parser} {a : α}
    (h : x p = (.ok a, q)) : (x >>= f) p = f a q := by
  rw [bind_eq_match, h]

namespace Reads

variable {α β : Type} {Q : α → Prop} {R : β → Prop} {x : Parse α} {ts mid rest : List Piece}
  {t : Piece} {kind : TokenKind} {value : String}

theorem pure {a : α} (h : Q a) : Reads (Pure.pure a : Parse α) ts Q ts :=
  fun p hp => ⟨a, p, rfl, h, hp⟩

/-- A result that is given at once is known. -/
theorem known (a : α) : Reads (Pure.pure a : Parse α) ts (· = a) ts := pure rfl

/-- One action after another. -/
theorem bind {f : α → Parse β} (hx : Reads x ts Q mid) (hf : ∀ a, Q a → Reads (f a) mid R rest) :
    Reads (x >>= f) ts R rest := by
  intro p hp
  obtain ⟨a, q, hxp, ha, hq⟩ := hx p hp
  obtain ⟨b, r, hfq, hb, hr⟩ := hf a ha q hq
  exact ⟨b, r, (bind_apply hxp).trans hfq, hb, hr⟩

/-- One action after another of which the result is known. -/
theorem bindEq {f : α → Parse β} {a : α} (hx : Reads x ts (· = a) mid)
    (hf : Reads (f a) mid R rest) : Reads (x >>= f) ts R rest :=
  hx.bind fun _ h => h ▸ hf

theorem mono {Q' : α → Prop} (h : Reads x ts Q rest) (hQ : ∀ a, Q a → Q' a) :
    Reads x ts Q' rest := by
  intro p hp
  obtain ⟨a, q, hxp, ha, hq⟩ := h p hp
  exact ⟨a, q, hxp, hQ a ha, hq⟩

/-- An action with nothing after it. -/
theorem conclude {P : α → Prop} (h : Reads x ts P mid) (hQ : ∀ a, P a → Q a ∧ rest = mid) :
    Reads x ts Q rest := by
  intro p hp
  obtain ⟨a, q, hxp, ha, hq⟩ := h p hp
  obtain ⟨hQa, rfl⟩ := hQ a ha
  exact ⟨a, q, hxp, hQa, hq⟩

theorem map {f : α → β} (h : Reads x ts Q rest) (hf : ∀ a, Q a → R (f a)) :
    Reads (f <$> x) ts R rest :=
  h.bind fun a ha => pure (hf a ha)

/-- A result that is not looked at. -/
theorem ignore (h : Reads x ts Q rest) : Reads (discard x) ts (fun _ => True) rest :=
  h.map fun _ _ => trivial

theorem get : Reads (get : Parse Parser) ts (fun p => p.Holds ts) ts :=
  fun p hp => ⟨p, p, rfl, hp, hp⟩

theorem modify {f : Parser → Parser} (h : ∀ p : Parser, p.Holds ts → (f p).Holds rest) :
    Reads (modify f : Parse Unit) ts (fun _ => True) rest :=
  fun p hp => ⟨(), f p, rfl, trivial, h p hp⟩

theorem ifPos {c : Prop} [Decidable c] {y : Parse α} (h : c) (hx : Reads x ts Q rest) :
    Reads (if c then x else y) ts Q rest := by
  rwa [if_pos h]

theorem ifNeg {c : Prop} [Decidable c] {y : Parse α} (h : ¬c) (hx : Reads x ts Q rest) :
    Reads (if c then y else x) ts Q rest := by
  rwa [if_neg h]

/-! ### Pieces -/

/-- Tokens join the buffer until it is long enough or there are no more. -/
theorem fill (n : Nat) {p : Parser} (hp : p.Holds ts) : ∃ q, Parse.fill n p = (.ok (), q) ∧
    q.Holds ts ∧ (p.buffer.length + n ≤ q.buffer.length ∨ q.buffer.map Token.piece = ts) := by
  induction n generalizing p with
  | zero => exact ⟨p, rfl, hp, .inl (Nat.le_refl _)⟩
  | succ n ih =>
      obtain ⟨htrim, later, hlater, rfl⟩ := hp
      cases hlater with
      | nil hrest =>
          have hnext : p.lexer.nextVisible = (.ok none, p.lexer) := by
            simp [Lexer.nextVisible, Lexer.next, hrest]
          have hpull : Parse.pull p = (.ok none, p) := by rw [Parse.pull, hnext]
          exact ⟨p, bind_apply hpull, ⟨htrim, [], .nil hrest, rfl⟩, .inr (by simp)⟩
      | cons hnext hlt hts =>
          rename_i l token ts
          let p' : Parser := { p with lexer := l, buffer := p.buffer ++ [token] }
          have hp' : p'.Holds (p.buffer.map Token.piece ++ token.piece :: ts) :=
            ⟨htrim, ts, hts, by simp [p']⟩
          obtain ⟨q, hfill, hq, hlength⟩ := ih hp'
          have hpull : Parse.pull p = (.ok (some token), { p with lexer := l }) := by
            rw [Parse.pull, hnext]
          refine ⟨q, (bind_apply hpull).trans hfill, hq, hlength.imp_left fun h => ?_⟩
          simp only [p', List.length_append, List.length_singleton] at h
          omega

/-- A token is looked at. -/
theorem peek (n : Nat) : Reads (peek n) ts (fun t => t.map Token.piece = ts[n]?) ts := by
  intro p hp
  obtain ⟨q, hfill, hq, hlength⟩ := fill (n + 1 - p.buffer.length) hp
  refine ⟨q.buffer[n]?, q, bind_apply hfill, ?_, hq⟩
  change q.buffer[n]?.map Token.piece = ts[n]?
  rw [← List.getElem?_map]
  rcases hlength with hlength | hall
  · obtain ⟨_, later, _, rfl⟩ := hq
    rw [List.getElem?_append_left (by rw [List.length_map]; omega)]
  · rw [hall]

theorem peekKind (n : Nat) : Reads (peekKind n) ts (· = ts[n]?.map Piece.kind) ts := by
  refine (peek n).bind fun t ht => pure ?_
  rw [← ht, Option.map_map]
  rfl

theorem peekIs_true {n : Nat} (h : ts[n]? = some ⟨kind, value⟩) :
    Reads (peekIs n kind value) ts (· = true) ts := by
  refine (peek n).bind fun t ht => pure ?_
  rw [h] at ht
  obtain ⟨token, rfl, htoken⟩ := Option.map_eq_some_iff.1 ht
  have hkind : token.kind = kind := congrArg Piece.kind htoken
  have hvalue : token.value = value := congrArg Piece.value htoken
  simp [Token.is, hkind, hvalue]

theorem peekIs_false {n : Nat} (h : ts[n]? ≠ some ⟨kind, value⟩) :
    Reads (peekIs n kind value) ts (· = false) ts := by
  refine (peek n).bind fun t ht => pure ?_
  rw [← ht] at h
  cases t with
  | none => rfl
  | some token =>
      cases his : token.is kind value with
      | false => exact his
      | true =>
          have heq : token.kind = kind ∧ token.value = value := by simpa [Token.is] using his
          obtain ⟨rfl, rfl⟩ := heq
          exact absurd rfl h

/-- A token is taken. -/
theorem next : Reads next (t :: ts) (fun a => ∃ token, a = some token ∧ token.piece = t) ts := by
  rintro p ⟨htrim, later, hlater, heq⟩
  have hget : ∀ f : Parser → Parse (Option Token), (MonadState.get >>= f) p = f p p := fun _ => rfl
  cases hbuffer : p.buffer with
  | nil =>
      rw [hbuffer] at heq
      obtain rfl : t :: ts = later := heq
      cases hlater with
      | cons hnext hlt hts =>
          rename_i l token
          refine ⟨some token, { p with lexer := l }, ?_, ⟨token, rfl, rfl⟩, htrim, ts, hts, ?_⟩
          · unfold Parse.next
            rw [hget]
            rw [hbuffer]
            change (p.lexer.nextVisible.1, { p with lexer := p.lexer.nextVisible.2 }) = _
            rw [hnext, ← hbuffer]
          · simp [hbuffer]
  | cons token buffer =>
      rw [hbuffer] at heq
      obtain ⟨rfl, rfl⟩ := List.cons.inj heq
      refine ⟨some token, { p with buffer := buffer }, ?_, ⟨token, rfl, rfl⟩, htrim, later, hlater, rfl⟩
      unfold Parse.next
      rw [hget]
      rw [hbuffer]
      rfl

theorem expect (what : String) (h : t.kind = kind) :
    Reads (expect kind what) (t :: ts) (fun token => token.piece = t) ts := by
  refine next.bind ?_
  rintro _ ⟨token, rfl, rfl⟩
  have hkind : token.kind = kind := h
  dsimp only
  rw [if_pos hkind]
  exact pure rfl

theorem skip_true (h : t.kind = kind) : Reads (skip kind) (t :: ts) (· = true) ts := by
  refine (peekKind 0).bindEq ?_
  rw [if_pos (by simp [h])]
  exact next.ignore.bind fun _ _ => pure rfl

theorem skip_false (h : ∀ t ∈ ts.head?, t.kind ≠ kind) : Reads (skip kind) ts (· = false) ts := by
  refine (peekKind 0).bindEq ?_
  rw [if_neg ?_]
  · exact pure rfl
  · rw [← List.head?_eq_getElem?]
    simpa using h

theorem skipValue_true : Reads (skipValue kind value) (⟨kind, value⟩ :: ts) (· = true) ts := by
  refine (peekIs_true rfl).bindEq ?_
  exact next.ignore.bind fun _ _ => pure rfl

theorem skipValue_false (h : ts.head? ≠ some ⟨kind, value⟩) :
    Reads (skipValue kind value) ts (· = false) ts := by
  rw [List.head?_eq_getElem?] at h
  exact (peekIs_false h).bindEq (pure rfl)

theorem symbol (what : String) {name : String} :
    Reads (symbol what) (.word name :: ts) (fun n => ∃ p, n = .symbol p name) ts := by
  refine (expect what rfl).bind fun token htoken => pure ?_
  have hvalue : token.value = name := congrArg Piece.value htoken
  exact ⟨token.position, by rw [hvalue]⟩

/-- An action is repeated. -/
theorem iterate {step : α → Parse (α ⊕ β)} {a : α} (h : Loops step a ts R rest) :
    Reads (iterate step a) ts R rest := by
  refine get.bind fun p hp => ?_
  exact h p.size hp.length_lt

end Reads

namespace Loops

variable {α β : Type} {step : α → Parse (α ⊕ β)} {a : α} {P : α → Prop} {Q : β → Prop}
  {ts rest : List Piece}

/-- A step that took something, after which the action is repeated. -/
theorem again (mid : List Piece) (hlt : mid.length < ts.length)
    (hstep : Reads (step a) ts (fun r => ∃ b, r = .inl b ∧ P b) mid)
    (hrest : ∀ b, P b → Loops step b mid Q rest) : Loops step a ts Q rest := by
  intro fuel hfuel
  obtain ⟨fuel, rfl⟩ := Nat.exists_eq_add_one_of_ne_zero (Nat.ne_zero_of_lt hfuel)
  refine hstep.bind ?_
  rintro _ ⟨b, rfl, hb⟩
  exact hrest b hb fuel (by omega)

/-- The last step. -/
theorem done (hstep : Reads (step a) ts (fun r => ∃ b, r = .inr b ∧ Q b) rest) :
    Loops step a ts Q rest := by
  intro fuel hfuel
  obtain ⟨fuel, rfl⟩ := Nat.exists_eq_add_one_of_ne_zero (Nat.ne_zero_of_lt hfuel)
  refine hstep.bind ?_
  rintro _ ⟨b, rfl, hb⟩
  exact Reads.pure hb

theorem mono {Q' : β → Prop} (h : Loops step a ts Q rest) (hQ : ∀ b, Q b → Q' b) :
    Loops step a ts Q' rest :=
  fun fuel hfuel => (h fuel hfuel).mono hQ

end Loops

end Parse

end Stencil
