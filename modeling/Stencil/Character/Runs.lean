/-
**Sets of characters by runs of code points.**

A property of characters is kept as the list of the runs of code points that have it.  All tables
are those of Unicode 17.

Main definitions:

* `Stencil.Character.inRuns` — whether a code point lies in one of the runs;
* `Stencil.Character.inSteppedRuns` — the same for runs that skip code points;
* `Stencil.Character.isWhiteSpace` — the Unicode property *White_Space*.
-/

set_option autoImplicit false

namespace Stencil.Character

/-- Whether a code point lies in one of the runs, ends included. -/
def inRuns (n : Nat) (runs : List (Nat × Nat)) : Bool :=
  runs.any fun (first, last) => first ≤ n && n ≤ last

/-- Whether a code point lies in one of the runs `(first, last, step)`. -/
def inSteppedRuns (n : Nat) (runs : List (Nat × Nat × Nat)) : Bool :=
  runs.any fun (first, last, step) => first ≤ n && n ≤ last && (n - first) % step == 0

/-- The code points of the property *White_Space*. -/
def whiteSpaceRuns : List (Nat × Nat) :=
  [(9, 13), (32, 32), (133, 133), (160, 160), (5760, 5760), (8192, 8202), (8232, 8233),
    (8239, 8239), (8287, 8287), (12288, 12288)]

/-- Whether a character has the property *White_Space*. -/
def isWhiteSpace (c : Char) : Bool := inRuns c.toNat whiteSpaceRuns

/-- Every character that core calls white space has the property. -/
theorem isWhiteSpace_of_isWhitespace {c : Char} (h : c.isWhitespace = true) :
    isWhiteSpace c = true := by
  simp only [Char.isWhitespace, Bool.or_eq_true, decide_eq_true_eq] at h
  rcases h with ((h | h) | h) | h <;> subst h <;> decide

end Stencil.Character
