/-
**Positions in a template.**

A position is a line and a column, both counted from one.  Only a line feed ends a line; every
other character, however wide, takes one column.

Main definitions:

* `Stencil.Position` — a line and a column;
* `Stencil.Position.advance` — the position after some more text.
-/

set_option autoImplicit false

namespace Stencil

/-- A place in the text of a template. -/
structure Position where
  line : Nat
  column : Nat
  deriving DecidableEq, Repr, Inhabited

namespace Position

/-- The place of the first character. -/
def start : Position := ⟨1, 1⟩

/-- The place after one more character. -/
def step (p : Position) (c : Char) : Position :=
  if c = '\n' then ⟨p.line + 1, 1⟩ else ⟨p.line, p.column + 1⟩

/-- The place after some more text. -/
def advance (p : Position) (s : List Char) : Position := s.foldl step p

@[simp] theorem advance_nil (p : Position) : p.advance [] = p := rfl

theorem advance_append (p : Position) (s t : List Char) :
    p.advance (s ++ t) = (p.advance s).advance t := List.foldl_append

end Position

end Stencil
