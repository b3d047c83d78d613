/-
**Where regular expressions end.**

A regular expression is written between slashes, and a slash of its own is escaped by a backslash.  Whether a
slash is escaped depends on how many backslashes stand before it: a backslash may itself be escaped.  The lexer
looks back by one character only, so it ends a regular expression where the notation does, except behind a body
that ends in escaped backslashes.

Main definitions:

* `Stencil.Lexeme.backslashes` — how many backslashes a text ends in;
* `Stencil.Lexeme.IsPatternBody` — what may stand between the slashes;
* `Stencil.Lexeme.SlashesBehind` — what the lexer takes for such a body.

Main results:

* `Stencil.Lexeme.pattern?_eq_some_iff`, `Stencil.Lexeme.pattern?_eq_none_iff` — where the lexer sees an end;
* `Stencil.Token.patternParts_eq` — the last slash of a token is the one that ended it;
* `Stencil.Lexer.At.next_pattern_iff` — **a regular expression is read as it is written** exactly if its body
  does not end in a backslash;
* `Stencil.Lexer.At.next_escapedBackslash` — the shortest one that is not.
-/

import Mathlib.Data.List.TakeWhile
import Stencil.Proofs.Delimiters

set_option autoImplicit false

namespace Stencil

/-! ### The end of a body -/

namespace Lexeme

/-- How many backslashes a text ends in. -/
def backslashes (s : List Char) : Nat := (s.reverse.takeWhile (· == '\\')).length

/-- What may stand between the slashes of a regular expression.  An odd number of backslashes stands before each
slash of the body, which escapes it, and an even number before the slash behind the body, which does not. -/
structure IsPatternBody (body : List Char) : Prop where
  slash : ∀ before after, body = before ++ '/' :: after → backslashes before % 2 = 1
  stop : backslashes body % 2 = 0

/-- Every slash of a text that follows the character `previous` is right behind a backslash. -/
def SlashesBehind (previous : Char) (s : List Char) : Prop :=
  ∀ before after, s = before ++ '/' :: after → before.getLast?.getD previous = '\\'

theorem backslashes_ne_zero {s : List Char} : backslashes s ≠ 0 ↔ s.getLast? = some '\\' := by
  rw [backslashes, List.getLast?_eq_head?_reverse]
  cases s.reverse with
  | nil => simp
  | cons c s => by_cases hc : c = '\\' <;> simp [hc]

theorem slashesBehind_nil (previous : Char) : SlashesBehind previous [] := by
  intro before after h
  simp at h

theorem slashesBehind_cons {previous c : Char} {s : List Char} :
    SlashesBehind previous (c :: s) ↔ (c = '/' → previous = '\\') ∧ SlashesBehind c s := by
  constructor
  · intro h
    refine ⟨fun hc => h [] s (by rw [hc]; rfl), fun before after hs => ?_⟩
    have hbefore := h (c :: before) after (by rw [hs]; rfl)
    rwa [List.getLast?_cons, Option.getD_some] at hbefore
  · rintro ⟨hc, hs⟩ before after h
    cases before with
    | nil => exact hc (List.cons.inj h).1
    | cons c' before =>
        obtain ⟨rfl, htail⟩ := List.cons.inj h
        rw [List.getLast?_cons, Option.getD_some]
        exact hs before after htail

/-- What is read as a body has no slash that ends it earlier, and ends before one that does. -/
theorem pattern?_sound {previous : Char} {s body rest : List Char}
    (h : pattern? previous s = some (body, rest)) :
    SlashesBehind previous body ∧ body.getLast?.getD previous ≠ '\\' := by
  fun_induction pattern? previous s generalizing body rest with
  | case1 => cases h
  | case2 previous c s hend =>
      cases h
      exact ⟨slashesBehind_nil previous, hend.2⟩
  | case3 previous c s hend ih =>
      obtain ⟨⟨body', rest'⟩, hs, h⟩ := Option.map_eq_some_iff.1 h
      cases h
      obtain ⟨hbody, hlast⟩ := ih hs
      rw [slashesBehind_cons, List.getLast?_cons, Option.getD_some]
      exact ⟨⟨fun hc => by_contra fun hprevious => hend ⟨hc, hprevious⟩, hbody⟩, hlast⟩

theorem pattern?_append {previous : Char} {body : List Char} (hbody : SlashesBehind previous body)
    (hlast : body.getLast?.getD previous ≠ '\\') (rest : List Char) :
    pattern? previous (body ++ '/' :: rest) = some (body, rest) := by
  induction body generalizing previous with
  | nil => exact if_pos ⟨rfl, hlast⟩
  | cons c body ih =>
      rw [slashesBehind_cons] at hbody
      rw [List.getLast?_cons, Option.getD_some] at hlast
      rw [List.cons_append, pattern?, if_neg fun hend => hend.2 (hbody.1 hend.1), ih hbody.2 hlast,
        Option.map_some]

/-- A body ends before the first slash that is not right behind a backslash. -/
theorem pattern?_eq_some_iff {previous : Char} {s body rest : List Char} :
    pattern? previous s = some (body, rest) ↔
      s = body ++ '/' :: rest ∧ SlashesBehind previous body ∧ body.getLast?.getD previous ≠ '\\' := by
  constructor
  · exact fun h => ⟨pattern?_eq h, pattern?_sound h⟩
  · rintro ⟨rfl, hbody, hlast⟩
    exact pattern?_append hbody hlast rest

/-- There is no end exactly if every slash is right behind a backslash. -/
theorem pattern?_eq_none_iff {previous : Char} {s : List Char} :
    pattern? previous s = none ↔ SlashesBehind previous s := by
  induction s generalizing previous with
  | nil => simp [pattern?, slashesBehind_nil]
  | cons c s ih =>
      rw [pattern?, slashesBehind_cons]
      by_cases hend : c = '/' ∧ previous ≠ '\\'
      · simp [hend]
      · rw [if_neg hend, Option.map_eq_none_iff, ih]
        exact ⟨fun hs => ⟨fun hc => by_contra fun hne => hend ⟨hc, hne⟩, hs⟩, fun h => h.2⟩

/-- The lexer takes what may be a body for one. -/
theorem IsPatternBody.slashesBehind {body : List Char} (h : IsPatternBody body) (previous : Char) :
    SlashesBehind previous body := by
  intro before after hbody
  have hodd := h.slash before after hbody
  rw [backslashes_ne_zero.1 (by omega), Option.getD_some]

/-- A body is read to its end exactly if it does not end in a backslash. -/
theorem IsPatternBody.pattern?_iff {body : List Char} (h : IsPatternBody body) (rest : List Char) :
    pattern? '\x00' (body ++ '/' :: rest) = some (body, rest) ↔ body.getLast? ≠ some '\\' := by
  rw [pattern?_eq_some_iff]
  have hlast : body.getLast?.getD '\x00' = '\\' ↔ body.getLast? = some '\\' := by
    cases body.getLast? <;> simp
  rw [Ne, hlast]
  exact ⟨fun hread => hread.2.2, fun hend => ⟨rfl, h.slashesBehind _, hend⟩⟩

theorem slash_notMem_of_isFlag {flags : List Char} (h : ∀ c ∈ flags, isFlag c = true) : '/' ∉ flags := by
  intro hslash
  exact absurd (h '/' hslash) (by decide)

end Lexeme

/-! ### The token -/

namespace Token

/-- The last slash of a token is the one that ended the body: flags are no slashes. -/
theorem patternParts_eq {body flags : List Char} (hflags : '/' ∉ flags) (position : Position) :
    patternParts ⟨.pattern, String.ofList ('r' :: '/' :: body ++ '/' :: flags), position⟩ =
      some (String.ofList body, String.ofList flags) := by
  have hreverse : (body ++ '/' :: flags).reverse = flags.reverse ++ '/' :: body.reverse := by simp
  have hall : ∀ c ∈ flags.reverse, (c != '/') = true := by
    intro c hc
    exact bne_iff_ne.2 fun heq => hflags (heq ▸ List.mem_reverse.1 hc)
  simp only [patternParts, String.toList_ofList, List.cons_append, hreverse]
  rw [List.dropWhile_append_of_pos hall, List.takeWhile_append_of_pos hall]
  simp

end Token

namespace Lexer

variable {l : Lexer} {o : Options} {body flags rest : List Char}

theorem patternToken_eq (l : Lexer) (hflags : ∀ c ∈ flags, Lexeme.isFlag c = true)
    (hrest : ∀ c ∈ rest.head?, Lexeme.isFlag c = false)
    (hbody : Lexeme.pattern? '\x00' (body ++ '/' :: (flags ++ rest)) = some (body, flags ++ rest)) :
    l.patternToken (body ++ '/' :: (flags ++ rest)) =
      (.ok (l.token .pattern ('r' :: '/' :: body ++ '/' :: flags) rest).1,
        (l.token .pattern ('r' :: '/' :: body ++ '/' :: flags) rest).2) := by
  have hstop : rest.takeWhile Lexeme.isFlag = [] ∧ rest.dropWhile Lexeme.isFlag = rest := by
    cases rest with
    | nil => exact ⟨rfl, rfl⟩
    | cons c rest => simp [hrest c rfl]
  rw [patternToken, hbody]
  simp only [List.takeWhile_append_of_pos hflags, List.dropWhile_append_of_pos hflags, hstop, List.append_nil]

/-- Neither a tag nor an output ends where a regular expression starts. -/
theorem At.next_pattern (h : l.At o true ('r' :: '/' :: rest)) (ho : o.delimiters = .standard) :
    l.next = ((l.patternToken rest).1.map some, (l.patternToken rest).2) := by
  have hblock : Lexeme.closing? "%\x7d".toList l.rest = none := by rw [h.rest]; rfl
  have houtput : Lexeme.closing? "\x7d\x7d".toList l.rest = none := by rw [h.rest]; rfl
  have hquote : ¬('r' = '\x22' ∨ 'r' = '\x27') := by decide
  have hblank : Lexeme.isBlank 'r' = false := by decide
  rw [h.next_eq, tagToken, if_neg hquote, hblank, h.config, ho]
  simp only [Delimiters.standard, hblock, houtput, Bool.false_eq_true, if_false]

/-- **A regular expression is read as it is written** exactly if its body does not end in a backslash: then the
next token covers the literal, and its parts are the body and the flags.  A body that ends in escaped
backslashes is not ended by the slash behind it. -/
theorem At.next_pattern_iff (h : l.At o true ('r' :: '/' :: (body ++ '/' :: (flags ++ rest))))
    (ho : o.delimiters = .standard) (hbody : Lexeme.IsPatternBody body)
    (hflags : ∀ c ∈ flags, Lexeme.isFlag c = true) (hrest : ∀ c ∈ rest.head?, Lexeme.isFlag c = false) :
    (∃ t, l.next = (.ok (some t), l.moved ('r' :: '/' :: body ++ '/' :: flags) rest) ∧ t.kind = .pattern ∧
        t.position = l.position ∧ t.value.toList = 'r' :: '/' :: body ++ '/' :: flags ∧
        t.patternParts = some (String.ofList body, String.ofList flags)) ↔
      body.getLast? ≠ some '\\' := by
  rw [← hbody.pattern?_iff (flags ++ rest)]
  constructor
  · rintro ⟨t, hnext, -, -, -, hparts⟩
    rw [h.next_pattern ho, patternToken] at hnext
    cases hread : Lexeme.pattern? '\x00' (body ++ '/' :: (flags ++ rest)) with
    | none =>
        rw [hread] at hnext
        cases hnext
    | some found =>
        obtain ⟨read, after⟩ := found
        rw [hread] at hnext
        obtain ⟨htoken, -⟩ := Prod.mk.inj hnext
        obtain rfl := Option.some.inj (Except.ok.inj htoken)
        -- The parts of the token are those that were read, so what was read is the body.
        have hslash : '/' ∉ after.takeWhile Lexeme.isFlag :=
          Lexeme.slash_notMem_of_isFlag fun _ hc => List.mem_takeWhile_imp hc
        have hsame := (Token.patternParts_eq hslash l.position).symm.trans hparts
        simp only [Option.some.injEq, Prod.mk.injEq, String.ofList_inj] at hsame
        obtain rfl := hsame.1
        have hafter := List.append_cancel_left (Lexeme.pattern?_eq hread)
        rw [(List.cons.inj hafter).2]
  · intro hread
    rw [h.next_pattern ho, l.patternToken_eq hflags hrest hread]
    exact ⟨_, rfl, rfl, rfl, String.toList_ofList,
      Token.patternParts_eq (Lexeme.slash_notMem_of_isFlag hflags) l.position⟩

/-- The shortest body that is not read: an escaped backslash.  The slash behind it ends nothing, and no other
follows. -/
theorem At.next_escapedBackslash (h : l.At .standard true ('r' :: '/' :: "\\\\/ \x7d\x7d".toList)) :
    Lexeme.IsPatternBody ['\\', '\\'] ∧ l.next = (.error (.atPosition .unclosedPattern l.position), l) := by
  have hunclosed : Lexeme.pattern? '\x00' "\\\\/ \x7d\x7d".toList = none := by decide
  refine ⟨⟨fun before after hbody => ?_, rfl⟩, ?_⟩
  · have hslash : '/' ∈ ['\\', '\\'] := by simp [hbody]
    exact absurd hslash (by decide)
  · rw [h.next_pattern rfl, patternToken, hunclosed]
    rfl

end Lexer

end Stencil
