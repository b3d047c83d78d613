/-
**Texts as lists of characters.**

The lexer reads a template as a list of characters.  This module holds the few operations on such
lists that it needs, and the operations on whole texts that values and names are built with.

Main definitions:

* `Stencil.Text.after?` — what follows a word at the start of a text;
* `Stencil.Text.cut?` — a text cut at the first place where a word occurs;
* `Stencil.Text.trimStart`, `Stencil.Text.trimEnd` — a text without the white space at one end;
* `Stencil.Text.splitOn`, `Stencil.Text.joinWith` — a text as a list of segments, and back.

Main results:

* `Stencil.Text.after?_eq_some_iff` — a word is found at the start exactly where it stands;
* `Stencil.Text.eq_of_cut?` — cutting loses nothing.
-/

import Stencil.Character.Runs

set_option autoImplicit false

namespace Stencil.Text

/-! ### Words in a text -/

/-- What follows `word` in a text that starts with it. -/
def after? : List Char → List Char → Option (List Char)
  | [], s => some s
  | _ :: _, [] => none
  | c :: word, d :: s => if c = d then after? word s else none

/-- Whether a text starts with `word`. -/
def startsWith (word s : List Char) : Bool := (after? word s).isSome

/-- The text before the first occurrence of `word`, and the text after it. -/
def cut? (word : List Char) : List Char → Option (List Char × List Char)
  | [] => (after? word []).map fun rest => ([], rest)
  | c :: s =>
    match after? word (c :: s) with
    | some rest => some ([], rest)
    | none => (cut? word s).map fun (before, rest) => (c :: before, rest)

theorem after?_eq_some_iff {word s rest : List Char} :
    after? word s = some rest ↔ s = word ++ rest := by
  induction word generalizing s with
  | nil => simp [after?, eq_comm]
  | cons c word ih =>
      cases s with
      | nil => simp [after?]
      | cons d s =>
          by_cases h : c = d
          · subst h
            simp [after?, ih]
          · simp [after?, h, Ne.symm h]

theorem eq_of_cut? {word s before rest : List Char} (h : cut? word s = some (before, rest)) :
    s = before ++ word ++ rest := by
  induction s generalizing before with
  | nil =>
      cases word with
      | nil => simp_all [cut?, after?]
      | cons c word => simp [cut?, after?] at h
  | cons c s ih =>
      rw [cut?] at h
      split at h
      · next r hr =>
          obtain ⟨rfl, rfl⟩ : [] = before ∧ r = rest := by simpa using h
          simpa using after?_eq_some_iff.1 hr
      · obtain ⟨⟨b, r⟩, hb, h⟩ := Option.map_eq_some_iff.1 h
        obtain ⟨rfl, rfl⟩ : c :: b = before ∧ r = rest := by simpa using h
        simp [ih hb]

/-! ### White space at the ends -/

/-- A text without the white space at its start. -/
def trimStart (s : List Char) : List Char := s.dropWhile Character.isWhiteSpace

/-- A text without the white space at its end. -/
def trimEnd (s : List Char) : List Char := (s.reverse.dropWhile Character.isWhiteSpace).reverse

/-- A text without the white space at both ends. -/
def trim (s : List Char) : List Char := trimEnd (trimStart s)

/-! ### Segments -/

/-- The segments of a text between the occurrences of a character. -/
def splitOn (c : Char) : List Char → List (List Char)
  | [] => [[]]
  | d :: s =>
    if d = c then [] :: splitOn c s
    else
      match splitOn c s with
      | [] => [[d]]
      | segment :: rest => (d :: segment) :: rest

/-- The texts of a list, one after the other, with a text between neighbours. -/
def joinWith (separator : String) : List String → String
  | [] => ""
  | [s] => s
  | s :: rest => s ++ separator ++ joinWith separator rest

/-- Whether a text occurs in another. -/
def occursIn (word s : String) : Bool := (cut? word.toList s.toList).isSome

end Stencil.Text
