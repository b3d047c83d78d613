/-
**Actions on tokens that are known.**

Where the next token of a lexer or the buffer of a parser is known, it is known what an action on tokens
gives and which parser it leaves.

Main results:

* `Stencil.Parse.fill_token`, `Stencil.Parse.fill_none`, `Stencil.Parse.fill_stuck` — the buffer is filled
  token by token, up to the end or an error;
* `Stencil.Parse.peek_filled`, `Stencil.Parse.peek_pull`, `Stencil.Parse.peek_buffer` — a token is looked at;
* `Stencil.Parse.next_buffer`, `Stencil.Parse.next_lexer`, `Stencil.Parse.expect_buffer` — a token is taken.
-/

import Stencil.Proofs.Printing.Reading

set_option autoImplicit false

namespace Stencil.Parse

variable {p q : Parser} {l : Lexer} {t : Token} {rest : List Token} {n : Nat} {e : TemplateError}

/-! ### What is done to a result -/

/-- An action that failed, followed by another. -/
theorem bind_stuck {α β : Type} {x : Parse α} {f : α → Parse β} (h : x p = (.error e, q)) :
    (x >>= f) p = (.error e, q) := by
  rw [bind_eq_match, h]

theorem discard_apply {α : Type} {x : Parse α} {a : α} (h : x p = (.ok a, q)) :
    discard x p = (.ok ⟨⟩, q) := bind_apply h

theorem map_apply {α β : Type} (f : α → β) (x : Parse α) (p : Parser) :
    (f <$> x) p = ((x p).1.map f, (x p).2) := by
  rw [map_eq_pure_bind, bind_eq_match]
  rcases x p with ⟨e | a, q⟩ <;> rfl

/-! ### Looking -/

theorem fill_token (h : p.lexer.nextVisible = (.ok (some t), l)) :
    fill (n + 1) p = fill n { p with lexer := l, buffer := p.buffer ++ [t] } := by
  have hpull : pull p = (.ok (some t), { p with lexer := l }) := by rw [pull, h]
  exact bind_apply hpull

theorem fill_none (h : p.lexer.nextVisible = (.ok none, l)) :
    fill (n + 1) p = (.ok (), { p with lexer := l }) := by
  have hpull : pull p = (.ok none, { p with lexer := l }) := by rw [pull, h]
  exact bind_apply hpull

theorem fill_stuck (h : p.lexer.nextVisible = (.error e, l)) :
    fill (n + 1) p = (.error e, { p with lexer := l }) := by
  have hpull : pull p = (.error e, { p with lexer := l }) := by rw [pull, h]
  exact bind_stuck hpull

theorem peek_filled (h : fill (n + 1 - p.buffer.length) p = (.ok (), q)) :
    peek n p = (.ok q.buffer[n]?, q) := bind_apply h

theorem peek_stuck (h : fill (n + 1 - p.buffer.length) p = (.error e, q)) : peek n p = (.error e, q) :=
  (bind_apply (x := get) rfl).trans (bind_stuck h)

/-- One more token is looked at. -/
theorem peek_pull (h : p.lexer.nextVisible = (.ok (some t), l)) :
    peek p.buffer.length p = (.ok (some t), { p with lexer := l, buffer := p.buffer ++ [t] }) := by
  have hfill : fill (p.buffer.length + 1 - p.buffer.length) p =
      (.ok (), { p with lexer := l, buffer := p.buffer ++ [t] }) := by
    rw [Nat.add_sub_cancel_left]
    exact fill_token h
  have hlast : (p.buffer ++ [t])[p.buffer.length]? = some t := by simp
  rw [peek_filled hfill, hlast]

/-- A token that was looked at is looked at again. -/
theorem peek_buffer (h : p.buffer = t :: rest) : peek 0 p = (.ok (some t), p) := by
  have hfill : fill (0 + 1 - p.buffer.length) p = (.ok (), p) := by
    rw [h, List.length_cons, Nat.zero_add, Nat.sub_eq_zero_of_le (Nat.le_add_left 1 _)]
    rfl
  rw [peek_filled hfill, h]
  rfl

/-! ### Taking -/

theorem next_buffer (h : p.buffer = t :: rest) : next p = (.ok (some t), { p with buffer := rest }) := by
  obtain ⟨lexer, buffer, trimNext, opened⟩ := p
  cases h
  rfl

/-- Where nothing waits in the buffer, the token is taken from the lexer. -/
theorem next_lexer (h : p.buffer = []) :
    next p = (p.lexer.nextVisible.1, { p with lexer := p.lexer.nextVisible.2 }) := by
  obtain ⟨lexer, buffer, trimNext, opened⟩ := p
  cases h
  rfl

theorem next_pull (hbuffer : p.buffer = []) (h : p.lexer.nextVisible = (.ok (some t), l)) :
    next p = (.ok (some t), { p with lexer := l }) := by
  rw [next_lexer hbuffer, h]

/-- A token of the right kind that was looked at is taken. -/
theorem expect_buffer {kind : TokenKind} (h : p.buffer = t :: rest) (hkind : t.kind = kind)
    (what : String) : expect kind what p = (.ok t, { p with buffer := rest }) := by
  refine (bind_apply (next_buffer h)).trans ?_
  dsimp only
  rw [if_pos hkind]
  rfl

end Stencil.Parse
