/-
**What reading gives.**

Reading never depends on how long a template is or where a piece of it stands: an action on a parser is
known by what its results are, and actions are put together out of smaller ones.  Two things are kept
along the way.  Symbols that wait in the buffer are names, and an error is one that a template can be
blamed for.

Main definitions:

* `Stencil.Parser.Sane` — the symbols that were looked at are names;
* `Stencil.Parse.Gives` — what an action on such a parser gives.

Main results:

* `Stencil.Lexer.nextVisible_gives` — the symbols of a lexer are names;
* `Stencil.Parse.Gives.bind`, `Stencil.Parse.Gives.iterate` — actions one after the other;
* `Stencil.Parse.Gives.peek`, `Stencil.Parse.Gives.next`, `Stencil.Parse.Gives.expect` — tokens.
-/

import Stencil.Proofs.Logic.Admission
import Stencil.Proofs.Syntax.Terms

set_option autoImplicit false

namespace Stencil

/-! ### Symbols are names -/

/-- A token that is a name if it is a symbol. -/
def Token.Sane (t : Token) : Prop := t.kind = .symbol → Node.IsWritable t.value

/-- What is known of an answer: something about the result, or that the error is ordinary. -/
def Parse.Outcome {α : Type} (Q : α → Prop) : Except TemplateError α → Prop
  | .ok a => Q a
  | .error e => e.cause.isOrdinary = true

namespace Lexer

open Parse

variable {l : Lexer}

theorem tagStart?_gives {step : Step Token} (h : l.tagStart? = some step) :
    Outcome Token.Sane step.1 := by
  unfold tagStart? at h
  dsimp only at h
  split at h
  · cases h
    exact fun hkind => by cases hkind
  · split at h
    · cases h
      exact fun hkind => by cases hkind
    · split at h
      · cases h
      · split at h
        · cases h
          rfl
        · cases h
          exact fun hkind => by cases hkind

/-- A step that may give a token gives what the token is known for. -/
theorem outcome_some {r : Except TemplateError Token} (h : Outcome Token.Sane r) :
    Outcome (fun t : Option Token => ∀ token, t = Option.some token → token.Sane)
      (r.map Option.some) := by
  cases r with
  | ok token =>
      intro token' heq
      cases heq
      exact h
  | error e => exact h

theorem textToken_gives (l : Lexer) :
    Outcome (fun t => ∀ token, t = some token → token.Sane) l.textToken.1 := by
  unfold textToken
  split
  · rename_i answer l' h
    exact outcome_some (tagStart?_gives h)
  · dsimp only
    split
    · split
      · rename_i answer l' h
        exact outcome_some (tagStart?_gives h)
      · exact fun _ h => by cases h
    · intro token h
      cases h
      exact fun hkind => by cases hkind

theorem punctuationKind_ne_symbol (s : List Char) : Lexeme.punctuationKind s ≠ .symbol := by
  unfold Lexeme.punctuationKind
  split <;> exact fun h => by cases h

/-- A word that is a symbol is a name. -/
theorem wordToken_gives (l : Lexer) : Outcome Token.Sane l.wordToken.1 := by
  unfold wordToken
  dsimp only
  split
  · -- a number, with a fraction or without
    split <;> split <;> exact fun hkind => by cases hkind
  · split
    · rename_i kind hkind
      intro hsymbol
      obtain rfl : kind = .symbol := hsymbol
      unfold Lexeme.wordKind? at hkind
      split at hkind
      · cases hkind
      · split at hkind
        · cases hkind
        · split at hkind
          · rename_i hname
            change Lexeme.isName (String.ofList _).toList = true
            rwa [String.toList_ofList]
          · cases hkind
    · rfl

theorem tagToken_gives (l : Lexer) (c : Char) (s : List Char) :
    Outcome Token.Sane (l.tagToken c s).1 := by
  unfold tagToken
  split
  · unfold stringToken
    split
    · exact fun hkind => by cases hkind
    · rfl
  · split
    · exact fun hkind => by cases hkind
    · dsimp only
      split
      · exact fun hkind => by cases hkind
      · split
        · exact fun hkind => by cases hkind
        · split
          · unfold patternToken
            split
            · exact fun hkind => by cases hkind
            · rfl
          · split
            · exact fun hkind => absurd hkind (punctuationKind_ne_symbol _)
            · exact wordToken_gives l

theorem next_gives (l : Lexer) :
    Outcome (fun t => ∀ token, t = some token → token.Sane) l.next.1 := by
  unfold next
  split
  · exact fun _ h => by cases h
  · split
    · exact outcome_some (tagToken_gives l _ _)
    · exact textToken_gives l

/-- The symbols of a lexer are names. -/
theorem nextVisible_gives (l : Lexer) :
    Outcome (fun t => ∀ token, t = some token → token.Sane) l.nextVisible.1 := by
  have hnext := next_gives l
  unfold nextVisible
  split
  · rename_i token after heq
    split
    · exact next_gives after
    · rwa [heq] at hnext
  · exact hnext

end Lexer

/-! ### Actions on parsers -/

/-- A parser that looked at no symbol but names. -/
def Parser.Sane (p : Parser) : Prop := ∀ t ∈ p.buffer, t.Sane

theorem Parser.ofString_sane (config : Config) (source : String) :
    (Parser.ofString config source).Sane :=
  fun _ h => by simp [Parser.ofString] at h

namespace Parse

/-- What an action on a parser gives. -/
def Gives {α : Type} (Q : α → Prop) (x : Parse α) : Prop :=
  ∀ p : Parser, p.Sane → (x p).2.Sane ∧ Outcome Q (x p).1

namespace Gives

variable {α β : Type} {Q : α → Prop} {R : β → Prop} {x : Parse α}

theorem pure {a : α} (h : Q a) : Gives Q (Pure.pure a : Parse α) := fun _ hp => ⟨hp, h⟩

/-- One action after another. -/
theorem bind {f : α → Parse β} (hx : Gives Q x) (hf : ∀ a, Q a → Gives R (f a)) :
    Gives R (x >>= f) := by
  intro p hp
  obtain ⟨hsane, hout⟩ := hx p hp
  rw [bind_eq_match]
  rcases hxp : x p with ⟨e | a, q⟩
  · rw [hxp] at hsane hout
    exact ⟨hsane, hout⟩
  · rw [hxp] at hsane hout
    exact hf a hout q hsane

theorem mono {Q' : α → Prop} (h : Gives Q x) (hQ : ∀ a, Q a → Q' a) : Gives Q' x := by
  intro p hp
  obtain ⟨hsane, hout⟩ := h p hp
  refine ⟨hsane, ?_⟩
  cases hxp : (x p).1 with
  | ok a =>
      rw [hxp] at hout
      exact hQ a hout
  | error e =>
      rw [hxp] at hout
      exact hout

theorem map {f : α → β} (h : Gives Q x) (hf : ∀ a, Q a → R (f a)) : Gives R (f <$> x) :=
  h.bind fun a ha => pure (hf a ha)

/-- A result that is not looked at. -/
theorem ignore (h : Gives Q x) : Gives (fun _ => True) (discard x) :=
  h.map fun _ _ => trivial

/-- An action that goes on unless something failed. -/
theorem guard {c : Prop} [Decidable c] {fail : Parse PUnit} {rest : PUnit → Parse β}
    (hfail : Gives (fun _ => True) fail) (hrest : ∀ u, Gives R (rest u)) :
    Gives R (if c then fail >>= rest else rest ⟨⟩) := by
  split
  · exact hfail.bind fun u _ => hrest u
  · exact hrest ⟨⟩

theorem failAt {c : Cause} (hc : c.isOrdinary = true) (p : Position) :
    Gives Q (failAt c p) := fun _ hq => ⟨hq, hc⟩

theorem get : Gives Parser.Sane (get : Parse Parser) := fun _ hp => ⟨hp, hp⟩

theorem modify {f : Parser → Parser} (hf : ∀ p : Parser, p.Sane → (f p).Sane) :
    Gives (fun _ => True) (modify f : Parse Unit) := fun p hp => ⟨hf p hp, trivial⟩

theorem endOfFile (what : String) : Gives Q (endOfFile what) :=
  get.bind fun _ _ => failAt rfl _

/-! ### Tokens -/

theorem pull : Gives (fun t => ∀ token, t = some token → token.Sane) pull :=
  fun p hp => ⟨hp, Lexer.nextVisible_gives p.lexer⟩

theorem fill (n : Nat) : Gives (fun _ => True) (fill n) := by
  induction n with
  | zero => exact pure trivial
  | succ n ih =>
      unfold Parse.fill
      refine pull.bind fun t ht => ?_
      cases t with
      | none => exact pure trivial
      | some token =>
          refine bind (modify fun p hp => ?_) fun _ _ => ih
          intro t ht'
          rcases List.mem_append.1 ht' with ht' | ht'
          · exact hp t ht'
          · rw [List.mem_singleton.1 ht']
            exact ht token rfl

theorem peek (n : Nat) : Gives (fun t => ∀ token, t = some token → token.Sane) (peek n) := by
  unfold Parse.peek
  refine get.bind fun _ _ => (fill _).bind fun _ _ => get.bind fun p hp => pure ?_
  exact fun token htoken => hp token (List.mem_of_getElem? htoken)

theorem peekKind (n : Nat) : Gives (fun _ => True) (peekKind n) :=
  (peek n).bind fun _ _ => pure trivial

theorem peekIs (n : Nat) (kind : TokenKind) (value : String) :
    Gives (fun _ => True) (peekIs n kind value) :=
  (peek n).bind fun _ _ => pure trivial

theorem next : Gives (fun t => ∀ token, t = some token → token.Sane) next := by
  unfold Parse.next
  refine get.bind fun p hp => ?_
  split
  · rename_i token rest hbuffer
    have hp' : ∀ t ∈ token :: rest, t.Sane := hbuffer ▸ hp
    refine bind (modify fun q hq t ht => ?_) fun _ _ => pure ?_
    · exact hp' t (List.mem_cons_of_mem _ ht)
    · intro token' heq
      cases heq
      exact hp' token List.mem_cons_self
  · exact pull

theorem expect (kind : TokenKind) (what : String) :
    Gives (fun t => t.kind = kind ∧ t.Sane) (expect kind what) := by
  unfold Parse.expect
  refine next.bind fun t ht => ?_
  cases t with
  | none => exact endOfFile what
  | some token =>
      dsimp only
      split
      · rename_i hkind
        exact pure ⟨hkind, ht token rfl⟩
      · exact failAt rfl _

/-- A symbol that is taken is a name. -/
theorem expectName (what : String) :
    Gives (fun t => Node.IsWritable t.value) (Parse.expect .symbol what) :=
  (expect .symbol what).mono fun _ ht => ht.2 ht.1

theorem skip (kind : TokenKind) : Gives (fun _ => True) (skip kind) := by
  unfold Parse.skip
  refine (peekKind 0).bind fun _ _ => ?_
  split
  · exact next.ignore.bind fun _ _ => pure trivial
  · exact pure trivial

theorem skipValue (kind : TokenKind) (value : String) :
    Gives (fun _ => True) (skipValue kind value) := by
  unfold Parse.skipValue
  refine (peekIs 0 kind value).bind fun _ _ => ?_
  split
  · exact next.ignore.bind fun _ _ => pure trivial
  · exact pure trivial

theorem skipSymbol (name : String) : Gives (fun _ => True) (skipSymbol name) :=
  skipValue .symbol name

theorem failHere (sentence : String) : Gives Q (failHere sentence) := by
  unfold Parse.failHere
  refine (peek 0).bind fun t _ => ?_
  cases t with
  | none => exact endOfFile sentence
  | some token => exact failAt rfl _

theorem symbol (what : String) :
    Gives (fun n => ∃ p name, n = .symbol p name ∧ Node.IsWritable name) (symbol what) :=
  (expectName what).bind fun token htoken => pure ⟨token.position, token.value, rfl, htoken⟩

/-! ### Repetition -/

/-- An action is repeated: what each repetition keeps, and what the last of them gives. -/
theorem iterate {step : α → Parse (α ⊕ β)} {a : α} (ha : Q a)
    (hstep : ∀ a, Q a → Gives (Sum.elim Q R) (step a)) : Gives R (iterate step a) := by
  have hwithin : ∀ (fuel : Nat) (a : α), Q a → Gives R (iterateWithin step fuel a) := by
    intro fuel
    induction fuel with
    | zero => exact fun _ _ => get.bind fun _ _ => failAt rfl _
    | succ fuel ih =>
        intro a ha
        unfold Parse.iterateWithin
        refine (hstep a ha).bind fun r hr => ?_
        cases r with
        | inl a => exact ih a hr
        | inr b => exact pure hr
  exact get.bind fun p _ => hwithin p.size a ha

end Gives

end Parse

end Stencil
