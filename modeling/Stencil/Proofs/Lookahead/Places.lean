/-
**The places of the tokens.**

The tokens of a template without its blanks are one sequence, of which a parser asks for the next until there
is none: then the template has ended, or a piece of it cannot be read, and asking again is answered the same.
So every place of the sequence holds a token, or the answer that ended the tokens before.

The delimiters may be any here.  With an empty one the tokens of a template can go on without end, so the
sequence is given by its places and not as a list.

Main definitions:

* `Stencil.Lexer.IsStop` — an answer that is no token;
* `Stencil.Lexer.visibleAt` — what stands at a place of the tokens of a template, blanks left out;
* `Stencil.Lexer.GivesFirst` — the tokens that a template starts with, blanks left out;
* `Stencil.Lexer.finish` — the place where a template ends.

Main results:

* `Stencil.Lexer.nextVisible_again` — a lexer that gave no token gives none again;
* `Stencil.Lexer.shownWithin_eq` — a place is found by reading any number of tokens that is large enough;
* `Stencil.Lexer.visibleAt_zero`, `Stencil.Lexer.visibleAt_succ`, `Stencil.Lexer.visibleAt_over` — the
  places by the next token and the lexer after it;
* `Stencil.Lexer.givesFirst_iff` — where no delimiter is empty, the places are those of a list;
* `Stencil.Lexer.nextVisible_finish` — whatever is read, a template ends where it did.
-/

import Stencil.Proofs.Trimming

set_option autoImplicit false

namespace Stencil

/-! ### A lexer that gives no token -/

namespace Lexer

variable {l l' : Lexer} {t : Token} {answer : Except TemplateError (Option Token)} {fuel n : Nat}

/-- An answer that is no token: the end of the template, or an error. -/
def IsStop (answer : Except TemplateError (Option Token)) : Prop := ∀ t, answer ≠ .ok (some t)

theorem isStop_none : IsStop (.ok none) := fun _ h => nomatch h

theorem isStop_error (e : TemplateError) : IsStop (.error e) := fun _ h => nomatch h

theorem isStop_or_token (answer : Except TemplateError (Option Token)) :
    IsStop answer ∨ ∃ t, answer = .ok (some t) := by
  match answer with
  | .ok (some t) => exact .inr ⟨t, rfl⟩
  | .ok none => exact .inl isStop_none
  | .error e => exact .inl (isStop_error e)

/-- A lexer that gave no token gives none again. -/
theorem next_again (h : l.next = (answer, l')) (hstop : IsStop answer) : l'.next = (answer, l') := by
  match answer with
  | .ok (some t) => exact absurd rfl (hstop t)
  | .ok none =>
      obtain ⟨-, rfl⟩ := next_none h
      exact h
  | .error e => exact next_error_again h

theorem nextVisible_stop (h : l.next = (answer, l')) (hstop : IsStop answer) :
    l.nextVisible = (answer, l') := by
  match answer with
  | .ok (some t) => exact absurd rfl (hstop t)
  | .ok none | .error e => simp only [nextVisible, h]

/-- What is no blank comes next, or behind one blank. -/
theorem nextVisible_split (h : l.nextVisible = (answer, l')) :
    (∀ t, answer = .ok (some t) → t.kind ≠ .whitespace) ∧
      (l.next = (answer, l') ∨ ∃ blank m, l.next = (.ok (some blank), m) ∧ blank.kind = .whitespace ∧
        m.next = (answer, l')) := by
  unfold nextVisible at h
  split at h
  · rename_i t m hnext
    split at h
    · rename_i ht
      refine ⟨?_, .inr ⟨t, m, hnext, ht, h⟩⟩
      rintro u rfl
      exact next_blank_next hnext ht h
    · rename_i ht
      cases h
      refine ⟨?_, .inl hnext⟩
      rintro u hu
      cases hu
      exact ht
  · rename_i hother
    exact ⟨fun t ht => absurd (h.trans (by rw [ht])) (hother t l'), .inl h⟩

/-- A lexer that gave no token but blanks gives none again. -/
theorem nextVisible_again (h : l.nextVisible = (answer, l')) (hstop : IsStop answer) :
    l'.nextVisible = (answer, l') := by
  obtain ⟨-, h | ⟨blank, m, -, -, h⟩⟩ := nextVisible_split h
  · exact nextVisible_stop (next_again h hstop) hstop
  · exact nextVisible_stop (next_again h hstop) hstop

/-! ### The places of the tokens -/

/-- Those of the first `n` tokens that are no blanks. -/
def visibleWithin (n : Nat) (l : Lexer) : List Token :=
  (l.tokensWithin n).1.filter fun t => t.kind ≠ .whitespace

/-- What the first `fuel` tokens show at a place, blanks left out: the token that `n` others precede, or none
if there are not so many, or the error that ended them before. -/
def shownWithin (fuel : Nat) (l : Lexer) (n : Nat) : Except TemplateError (Option Token) :=
  match (l.visibleWithin fuel)[n]?, (l.tokensWithin fuel).2.1 with
  | none, some e => .error e
  | found, _ => .ok found

/-- **What stands at a place of the tokens of a template**, blanks left out.  Of two tokens one behind the
other one is no blank, so that there are enough of them. -/
def visibleAt (l : Lexer) (n : Nat) : Except TemplateError (Option Token) := l.shownWithin (2 * n + 2) n

theorem tokensWithin_succ (h : l.next = (.ok (some t), l')) :
    l.tokensWithin (fuel + 1) = (t :: (l'.tokensWithin fuel).1, (l'.tokensWithin fuel).2) := by
  rw [tokensWithin, h]

theorem shownWithin_blank (h : l.next = (.ok (some t), l')) (ht : t.kind = .whitespace) :
    l.shownWithin (fuel + 1) = l'.shownWithin fuel := by
  funext n
  simp [shownWithin, visibleWithin, tokensWithin_succ h, ht]

theorem shownWithin_zero (h : l.next = (.ok (some t), l')) (ht : t.kind ≠ .whitespace) :
    l.shownWithin (fuel + 1) 0 = .ok (some t) := by
  simp [shownWithin, visibleWithin, tokensWithin_succ h, ht]

theorem shownWithin_succ (h : l.next = (.ok (some t), l')) (ht : t.kind ≠ .whitespace) :
    l.shownWithin (fuel + 1) (n + 1) = l'.shownWithin fuel n := by
  simp [shownWithin, visibleWithin, tokensWithin_succ h, ht]

theorem shownWithin_stop (h : l.next = (answer, l')) (hstop : IsStop answer) :
    l.shownWithin (fuel + 1) n = answer := by
  match answer with
  | .ok (some t) => exact absurd rfl (hstop t)
  | .ok none | .error e => simp [shownWithin, visibleWithin, tokensWithin, h]

/-- The first place shows the next token, and the others show what follows it. -/
theorem shownWithin_visible (h : l.nextVisible = (.ok (some t), l')) (hfuel : 2 ≤ fuel) :
    l.shownWithin fuel 0 = .ok (some t) ∧
      ∃ fuel', fuel ≤ fuel' + 2 ∧ ∀ n, l.shownWithin fuel (n + 1) = l'.shownWithin fuel' n := by
  obtain ⟨fuel, rfl⟩ := Nat.exists_eq_add_of_le' hfuel
  obtain ⟨hkind, h | ⟨blank, m, hblank, hwhite, h⟩⟩ := nextVisible_split h
  · exact ⟨shownWithin_zero h (hkind t rfl), fuel + 1, by omega, fun n => shownWithin_succ h (hkind t rfl)⟩
  · rw [shownWithin_blank hblank hwhite]
    exact ⟨shownWithin_zero h (hkind t rfl), fuel, le_rfl, fun n => shownWithin_succ h (hkind t rfl)⟩

/-- Where no token follows, every place shows the same. -/
theorem shownWithin_over (h : l.nextVisible = (answer, l')) (hstop : IsStop answer) (hfuel : 2 ≤ fuel) :
    l.shownWithin fuel n = answer := by
  obtain ⟨fuel, rfl⟩ := Nat.exists_eq_add_of_le' hfuel
  obtain ⟨-, h | ⟨blank, m, hblank, hwhite, h⟩⟩ := nextVisible_split h
  · exact shownWithin_stop h hstop
  · rw [shownWithin_blank hblank hwhite]
    exact shownWithin_stop h hstop

/-- More tokens than are needed show nothing else at a place. -/
theorem shownWithin_eq (hfuel : 2 * n + 2 ≤ fuel) : l.shownWithin fuel n = l.visibleAt n := by
  unfold visibleAt
  induction n generalizing l fuel with
  | zero =>
      rcases hnext : l.nextVisible with ⟨answer, l'⟩
      obtain hstop | ⟨t, rfl⟩ := isStop_or_token answer
      · rw [shownWithin_over hnext hstop hfuel, shownWithin_over hnext hstop le_rfl]
      · rw [(shownWithin_visible hnext hfuel).1, (shownWithin_visible hnext le_rfl).1]
  | succ n ih =>
      rcases hnext : l.nextVisible with ⟨answer, l'⟩
      obtain hstop | ⟨t, rfl⟩ := isStop_or_token answer
      · rw [shownWithin_over hnext hstop (by omega), shownWithin_over hnext hstop (by omega)]
      · obtain ⟨-, fuel₁, hfuel₁, hshown₁⟩ := shownWithin_visible hnext (show 2 ≤ fuel by omega)
        obtain ⟨-, fuel₂, hfuel₂, hshown₂⟩ :=
          shownWithin_visible hnext (show 2 ≤ 2 * (n + 1) + 2 by omega)
        calc l.shownWithin fuel (n + 1)
            = l'.shownWithin fuel₁ n := hshown₁ n
          _ = l'.shownWithin (2 * n + 2) n := ih (by omega)
          _ = l'.shownWithin fuel₂ n := (ih (by omega)).symm
          _ = l.shownWithin (2 * (n + 1) + 2) (n + 1) := (hshown₂ n).symm

theorem visibleAt_zero (l : Lexer) : l.visibleAt 0 = l.nextVisible.1 := by
  rcases hnext : l.nextVisible with ⟨answer, l'⟩
  obtain hstop | ⟨t, rfl⟩ := isStop_or_token answer
  · exact shownWithin_over hnext hstop le_rfl
  · exact (shownWithin_visible hnext le_rfl).1

/-- Behind the next token the places are those of the lexer after it. -/
theorem visibleAt_succ (h : l.nextVisible = (.ok (some t), l')) : l.visibleAt (n + 1) = l'.visibleAt n := by
  obtain ⟨-, fuel, hfuel, hshown⟩ := shownWithin_visible h (show 2 ≤ 2 * (n + 1) + 2 by omega)
  rw [visibleAt, hshown, shownWithin_eq (by omega)]

/-- Where no token follows, every place holds the same, and it goes on to do so. -/
theorem visibleAt_over (h : l.nextVisible = (answer, l')) (hstop : IsStop answer) :
    l.visibleAt n = answer ∧ l'.visibleAt n = answer :=
  ⟨shownWithin_over h hstop (by omega), shownWithin_over (nextVisible_again h hstop) hstop (by omega)⟩

/-- Tokens that stand at the first places are the first tokens. -/
theorem prefix_visibleWithin {ts : List Token} (h : ∀ i t, ts[i]? = some t → l.visibleAt i = .ok (some t)) :
    ts <+: l.visibleWithin (2 * ts.length) := by
  rw [List.prefix_iff_getElem?]
  intro i hi
  have hplace : l.shownWithin (2 * ts.length) i = .ok (some ts[i]) :=
    (shownWithin_eq (by omega)).trans (h i ts[i] (List.getElem?_eq_getElem hi))
  unfold shownWithin at hplace
  split at hplace
  · cases hplace
  · exact Except.ok.inj hplace

theorem visibleWithin_mono (m n : Nat) : l.visibleWithin m <+: l.visibleWithin (m + n) := by
  induction m generalizing l with
  | zero => exact List.nil_prefix
  | succ m ih =>
      rw [Nat.add_right_comm]
      rcases hnext : l.next with ⟨e | (_ | t), l'⟩
      · simp [visibleWithin, tokensWithin, hnext]
      · simp [visibleWithin, tokensWithin, hnext]
      · by_cases ht : t.kind = .whitespace
        · simpa [visibleWithin, tokensWithin_succ hnext, ht] using ih
        · simpa [visibleWithin, tokensWithin_succ hnext, ht] using ih

/-- The lexer gives some tokens first, blanks left out. -/
def GivesFirst (l : Lexer) (ts : List Token) : Prop := ∃ n, ts <+: l.visibleWithin n

/-- Where no delimiter is empty, these are the first of all tokens. -/
theorem givesFirst_iff {ts : List Token} (ho : l.config.IsProper) : l.GivesFirst ts ↔ ts <+: l.visible := by
  constructor
  · rintro ⟨n, h⟩
    have hall : l.tokensWithin (n + (2 * l.rest.length + 2)) = l.tokens :=
      tokensWithin_eq ho (by omega) (by omega)
    have hmore := h.trans (visibleWithin_mono n (2 * l.rest.length + 2))
    rwa [visibleWithin, hall] at hmore
  · exact fun h => ⟨2 * l.rest.length + 2, h⟩

/-! ### The place where a template ends -/

/-- The place behind the last character. -/
def finish (l : Lexer) : Position := l.position.advance l.rest

theorem finish_moved {read rest : List Char} (h : l.rest = read ++ rest) :
    (l.moved read rest).finish = l.finish := by
  simp only [finish, moved, h, Position.advance_append]

theorem finish_dropNewline (l : Lexer) : l.dropNewline.finish = l.finish := by
  unfold dropNewline
  split
  · exact finish_moved (Lexeme.newline_eq l.rest).1
  · rfl

theorem Steps.finish {tiles : List Tile} (h : l.Steps tiles t l') : l'.finish = l.finish := by
  rw [Lexer.finish, Lexer.finish, h.position, h.text, Position.advance_append]

theorem tagStart?_finish {answer : Except TemplateError Token} (h : l.tagStart? = some (answer, l')) :
    l'.finish = l.finish := by
  unfold tagStart? at h
  dsimp only at h
  split at h
  · rename_i hopen
    cases h
    exact finish_moved (Lexeme.opening?_eq hopen).1
  split at h
  · rename_i hopen
    cases h
    exact finish_moved (Lexeme.opening?_eq hopen).1
  split at h
  · cases h
  rename_i body hbody
  split at h
  · cases h
    rfl
  · rename_i hcut
    cases h
    refine finish_moved ?_
    rw [Text.after?_eq_some_iff.1 hbody, Text.eq_of_cut? hcut]
    simp only [List.append_assoc]

theorem textToken_finish (l : Lexer) : l.textToken.2.finish = l.finish := by
  unfold textToken
  split
  · rename_i hstart
    exact tagStart?_finish hstart
  dsimp only
  have hmoved := finish_moved (Lexeme.textBefore_eq (Tile.starts l.config) l.rest)
  split
  · split
    · rename_i hstart
      exact (tagStart?_finish hstart).trans hmoved
    · exact hmoved
  · exact hmoved

theorem tagToken_finish {c : Char} {s : List Char} {answer : Except TemplateError Token}
    (hrest : l.rest = c :: s) (h : l.tagToken c s = (answer, l')) : l'.finish = l.finish := by
  cases answer with
  | error e => rw [tagToken_error h]
  | ok t =>
      unfold tagToken at h
      split at h
      · obtain ⟨_, hsteps⟩ := stringToken_steps hrest h
        exact hsteps.finish
      rename_i hquote
      split at h
      · cases h
        exact finish_moved (List.takeWhile_append_dropWhile ..).symm
      rename_i hblank
      dsimp only at h
      split at h
      · rename_i hclose
        cases h
        exact (finish_dropNewline _).trans (finish_moved (Lexeme.closing?_eq hclose).1)
      split at h
      · rename_i hclose
        cases h
        exact finish_moved (Lexeme.closing?_eq hclose).1
      split at h
      · obtain ⟨_, hsteps⟩ := patternToken_steps hrest h
        exact hsteps.finish
      split at h
      · obtain ⟨_, hsteps⟩ := punctuationToken_steps (by simp [hrest]) h
        exact hsteps.finish
      · rename_i hpunctuation
        obtain ⟨_, hsteps⟩ := wordToken_steps hrest (by simpa using hblank) (by simpa using hpunctuation) h
        exact hsteps.finish

theorem next_finish (l : Lexer) : l.next.2.finish = l.finish := by
  unfold next
  split
  · rfl
  · rename_i c s hrest
    split
    · exact tagToken_finish hrest rfl
    · exact textToken_finish l

/-- Whatever a lexer reads, the template ends where it did. -/
theorem nextVisible_finish (l : Lexer) : l.nextVisible.2.finish = l.finish := by
  unfold nextVisible
  split
  · rename_i t after hnext
    have hafter : after.finish = l.finish := by simpa only [hnext] using next_finish l
    split
    · exact (next_finish after).trans hafter
    · exact hafter
  · exact next_finish l

end Lexer

end Stencil
