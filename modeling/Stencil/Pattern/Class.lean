/-
**Classes of characters in brackets.**

A class holds characters, ranges, named classes and classes in brackets, and may join two sets of
them by an operator.

Main definitions:

* `Stencil.Pattern.Extent` — what of a part of a regular expression its limits are about;
* `Stencil.Pattern.OpenClass` — a class whose end is not read yet;
* `Stencil.Pattern.bracketed?` — a class, and what follows it.
-/

import Stencil.Pattern.Escape

set_option autoImplicit false

namespace Stencil.Pattern

/-! ### Limits -/

/-- What of a part of a regular expression its limits are about. -/
structure Extent where
  /-- How deep it nests. -/
  depth : Nat
  /-- How large a machine for it is, in steps that take one byte. -/
  size : Nat
  deriving DecidableEq, Repr

/-- The extent of several parts side by side, which together nest one deeper than each; of no part
or one, there is nothing to nest. -/
def Extent.join (parts : List Extent) : Extent :=
  let depth := (parts.map Extent.depth).foldl max 0
  ⟨if parts.length ≤ 1 then depth else depth + 1, (parts.map Extent.size).foldl (· + ·) 0⟩

/-- A part inside of a larger one. -/
def Extent.nest (e : Extent) : Extent := ⟨e.depth + 1, e.size⟩

/-! ### Items -/

/-- What stands for one item, or for one end of a range. -/
def classAtom? (m : Mode) : List Char → Option (Atom × List Char)
  | [] => none
  | '\\' :: s => escape? m s
  | c :: s => some (.literal c false, s)

/-- The character after the one at hand.  Where blanks do not count it is the next that is none; of
a comment only the mark is passed over. -/
def peekSpaced (s : List Char) : Option Char :=
  match s.dropWhile Character.isWhiteSpace with
  | '#' :: comment => ((comment.dropWhile Character.isWhiteSpace).head?).orElse fun _ => s.head?
  | rest => (rest.head?).orElse fun _ => s.head?

/-- Whether a `-` before `s` joins the ends of a range. -/
def joinsRange (m : Mode) (s : List Char) : Bool :=
  let next := if m.spaced then peekSpaced s else s.head?
  next != some ']' && next != some '-'

/-- An item that is no class in brackets: an atom, or a range with its ends in order. -/
def classItem? (m : Mode) (s : List Char) : Option (Extent × List Char) := do
  let (first, s) ← classAtom? m s
  let single (s : List Char) : Option (Extent × List Char) :=
    if first.isAllowed m true then some (⟨0, first.size⟩, s) else none
  match m.skip s with
  | [] => none
  | '-' :: after =>
    if joinsRange m after then
      let (last, s) ← classAtom? m (m.skip after)
      match first, last with
      | .literal a _, .literal b _ =>
        if a ≤ b ∧ first.isAllowed m true ∧ last.isAllowed m true then some (⟨0, 1⟩, s) else none
      | _, _ => none
    else single ('-' :: after)
  | s => single s

/-- The classes that have names. -/
def className (name : String) : Bool :=
  ["alnum", "alpha", "ascii", "blank", "cntrl", "digit", "graph", "lower", "print", "punct",
    "space", "upper", "word", "xdigit"].contains name

/-- A named class such as `[:alpha:]`, whose first bracket is read: whether it is negated, and what
follows. -/
def namedClass? : List Char → Option (Bool × List Char)
  | ':' :: s =>
    let (isNegated, s) :=
      match s with
      | '^' :: s => (true, s)
      | s => (false, s)
    match s.dropWhile (· != ':') with
    | ':' :: ']' :: rest =>
      if className (String.ofList (s.takeWhile (· != ':'))) then some (isNegated, rest) else none
    | _ => none
  | _ => none

/-! ### Classes -/

/-- A class whose end is not read yet. -/
structure OpenClass where
  isNegated : Bool
  /-- What stands before the last operator. -/
  left : Option Extent
  /-- The items since the last operator. -/
  items : List Extent

/-- The set that a class holds. -/
def OpenClass.set (c : OpenClass) : Extent :=
  let right := Extent.join c.items
  match c.left with
  | none => right
  | some left => Extent.join [left, right]

/-- An item joins a class. -/
def OpenClass.add (c : OpenClass) (item : Extent) : OpenClass :=
  { c with items := item :: c.items }

/-- The set read so far becomes an operand. -/
def OpenClass.operator (c : OpenClass) : OpenClass := { c with left := some c.set, items := [] }

/-- Every `-` at the start of a class stands for itself. -/
def leadingDashes (m : Mode) : List Char → Nat × List Char
  | '-' :: s =>
    let (count, s) := leadingDashes m (m.skip s)
    (count + 1, s)
  | s => (0, s)
termination_by s => s.length
decreasing_by exact Nat.lt_succ_of_le (m.length_skip_le _)

/-- The start of a class, whose bracket is read.  A `]` that comes first stands for itself. -/
def openClass (m : Mode) (s : List Char) : OpenClass × List Char :=
  let (isNegated, s) :=
    match m.skip s with
    | '^' :: s => (true, m.skip s)
    | s => (false, s)
  let literal : Extent := ⟨0, 1⟩
  match leadingDashes m s with
  | (0, ']' :: s) => (⟨isNegated, none, [literal]⟩, m.skip s)
  | (count, s) => (⟨isNegated, none, List.replicate count literal⟩, s)

/-- A class up to its end, inside of those that surround it. -/
def classTail? (m : Mode) : Nat → OpenClass → List OpenClass → List Char →
    Option (Extent × List Char)
  | 0, _, _, _ => none
  | fuel + 1, c, outer, s =>
    match m.skip s with
    | [] => none
    | '[' :: s =>
      match namedClass? s with
      | some (isNegated, s) =>
        if m.unicode || !isNegated then classTail? m fuel (c.add ⟨0, 1⟩) outer s else none
      | none =>
        let (inner, s) := openClass m s
        classTail? m fuel inner (c :: outer) s
    | ']' :: s =>
      if c.isNegated && !m.unicode then none
      else
        match outer with
        | [] => some (c.set.nest, s)
        | parent :: outer => classTail? m fuel (parent.add c.set.nest) outer s
    | '&' :: '&' :: s | '-' :: '-' :: s | '~' :: '~' :: s => classTail? m fuel c.operator outer s
    | s =>
      match classItem? m s with
      | some (item, s) => classTail? m fuel (c.add item) outer s
      | none => none

/-- A class, whose first bracket is read, and what follows it. -/
def bracketed? (m : Mode) (s : List Char) : Option (Extent × List Char) :=
  let (c, rest) := openClass m s
  classTail? m (s.length + 1) c [] rest

end Stencil.Pattern
