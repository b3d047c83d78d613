/-
**The pieces of a template.**

The tokens of a template are read one after the other: first the next one, and then those of what follows
it.  This module goes on from a token to the next for what templates are cut into when blanks are left
aside.

Main definitions:

* `Stencil.Lexer.pieces?` — the tokens of a template without blanks and places, if no error ends them.

Main results:

* `Stencil.Lexer.tokens_cons` — the tokens of a template are the next one and those behind it;
* `Stencil.Lexer.pieces?_cons_iff`, `Stencil.Lexer.pieces?_blank` — pieces one after the other.
-/

import Stencil.Proofs.Tiling
import Stencil.Proofs.Printing.Pieces

set_option autoImplicit false

namespace Stencil.Lexer

variable {l l' : Lexer} {t : Token}

/-- More fuel than there are characters changes nothing. -/
theorem tokensWithin_eq {fuel fuel' : Nat} (ho : l.config.IsProper) (h : l.rest.length < fuel)
    (h' : l.rest.length < fuel') : tokensWithin fuel l = tokensWithin fuel' l := by
  induction fuel generalizing l fuel' with
  | zero => omega
  | succ fuel ih =>
      cases fuel' with
      | zero => omega
      | succ fuel' =>
          rw [tokensWithin, tokensWithin]
          rcases hnext : l.next with ⟨e | (_ | t), l'⟩
          · rfl
          · rfl
          · obtain ⟨tiles, hsteps⟩ := next_steps ho hnext
            have hshorter := hsteps.length_lt
            have hmore : tokensWithin fuel l' = tokensWithin fuel' l' :=
              ih (hsteps.config ▸ ho) (by omega) (by omega)
            simp only [hmore]

/-- The tokens of a template are the next one and those behind it. -/
theorem tokens_cons (ho : l.config.IsProper) (h : l.next = (.ok (some t), l')) :
    l.tokens = (t :: l'.tokens.1, l'.tokens.2) := by
  obtain ⟨tiles, hsteps⟩ := next_steps ho h
  have hshorter := hsteps.length_lt
  have hfuel : tokensWithin (2 * l.rest.length + 1) l' = tokensWithin (2 * l'.rest.length + 2) l' :=
    tokensWithin_eq (hsteps.config ▸ ho) (by omega) (by omega)
  rw [tokens, tokens, tokensWithin, h]
  dsimp only
  rw [hfuel]

theorem tokens_nil (h : l.next = (.ok none, l')) : l.tokens = ([], none, l') := by
  rw [tokens, tokensWithin, h]

theorem tokens_error {e : TemplateError} (h : l.next = (.error e, l')) : l.tokens = ([], some e, l') := by
  rw [tokens, tokensWithin, h]

/-! ### Pieces -/

/-- The tokens of a template without blanks and places, if no error ends them. -/
def pieces? (l : Lexer) : Option (List Piece) :=
  match l.tokens with
  | (tokens, none, _) => some ((tokens.filter fun t => t.kind ≠ .whitespace).map Token.piece)
  | (_, some _, _) => none

theorem pieces?_blank (ho : l.config.IsProper) (h : l.next = (.ok (some t), l'))
    (ht : t.kind = .whitespace) : l.pieces? = l'.pieces? := by
  rw [pieces?, pieces?, tokens_cons ho h]
  rcases l'.tokens with ⟨tokens, error | error, last⟩ <;> simp [ht]

theorem pieces?_cons (ho : l.config.IsProper) (h : l.next = (.ok (some t), l'))
    (ht : t.kind ≠ .whitespace) : l.pieces? = l'.pieces?.map (t.piece :: ·) := by
  rw [pieces?, pieces?, tokens_cons ho h]
  rcases l'.tokens with ⟨tokens, error | error, last⟩ <;> simp [ht]

theorem pieces?_nil (h : l.next = (.ok none, l')) : l.pieces? = some [] := by
  rw [pieces?, tokens_nil h]
  rfl

theorem pieces?_error {e : TemplateError} (h : l.next = (.error e, l')) : l.pieces? = none := by
  rw [pieces?, tokens_error h]

/-- The first piece is the next token. -/
theorem pieces?_cons_iff {u : Piece} {us : List Piece} (ho : l.config.IsProper)
    (h : l.next = (.ok (some t), l')) (ht : t.kind ≠ .whitespace) :
    l.pieces? = some (u :: us) ↔ t.piece = u ∧ l'.pieces? = some us := by
  rw [pieces?_cons ho h ht, Option.map_eq_some_iff]
  constructor
  · rintro ⟨more, hmore, heq⟩
    obtain ⟨hu, rfl⟩ := List.cons.inj heq
    exact ⟨hu, hmore⟩
  · rintro ⟨rfl, hmore⟩
    exact ⟨us, hmore, rfl⟩

end Stencil.Lexer
