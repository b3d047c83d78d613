/-
**Regular expressions.**

A regular expression is read from left to right, with a stack of the groups that are open.  It is
refused if it is not well formed, if it nests too deep, or if a machine for it would be too large.
There are no references back and no conditions on what surrounds a match.

Main definitions:

* `Stencil.Pattern.Part` — a part of a regular expression;
* `Stencil.Pattern.Reading` — the state of reading;
* `Stencil.Pattern.isValid` — whether a text is a regular expression.
-/

import Stencil.Character.Numeric
import Stencil.Pattern.Class

set_option autoImplicit false

namespace Stencil.Pattern

/-! ### Parts -/

/-- A part of a regular expression. -/
structure Part where
  extent : Extent
  /-- Whether it matches nothing but the empty text. -/
  isEmpty : Bool
  /-- Whether it may be repeated. -/
  isRepeatable : Bool

/-- Parts one after the other. -/
def Part.sequence (parts : List Part) : Part :=
  ⟨Extent.join (parts.map Part.extent), parts.all Part.isEmpty, true⟩

/-- A part in parentheses. -/
def Part.group (captures : Bool) (p : Part) : Part :=
  let e := p.extent.nest
  ⟨if captures then { e with size := e.size + 2 } else e, p.isEmpty, true⟩

/-- How often a part is repeated: at least `least` times, and at most `most` times. -/
structure Count where
  least : Nat
  most : Option Nat

/-- Whether there is a number of times that a count allows. -/
def Count.isValid (n : Count) : Bool := n.most.all (n.least ≤ ·)

/-- A part that is repeated; a machine for it has a copy of the part for each time, but something
empty is not repeated. -/
def Part.repeated (p : Part) (n : Count) : Part :=
  let least := if p.isEmpty then min n.least 1 else n.least
  let most := if p.isEmpty then some (min (n.most.getD 1) 1) else n.most
  let copies := most.getD (max least 1)
  let size := p.extent.size * copies + (copies - least) + 1
  ⟨⟨p.extent.depth + 1, size⟩, p.isEmpty || most == some 0, true⟩

/-! ### Groups -/

/-- A group whose end is not read yet, or the whole expression. -/
structure Group where
  /-- The alternatives before the last `|`, last first. -/
  alternatives : List Part
  /-- The parts since then, last first. -/
  parts : List Part
  /-- The mode after the group. -/
  outside : Mode
  captures : Bool

/-- A group of which nothing is read yet. -/
def Group.start (outside : Mode) (captures : Bool) : Group := ⟨[], [], outside, captures⟩

/-- What a group holds. -/
def Group.content (g : Group) : Part :=
  let last := Part.sequence g.parts.reverse
  match g.alternatives with
  | [] => last
  | others =>
    let all := (last :: others).reverse
    ⟨Extent.join (all.map Part.extent), all.all Part.isEmpty, true⟩

/-- A part joins a group. -/
def Group.add (g : Group) (p : Part) : Group := { g with parts := p :: g.parts }

/-- The state of reading: what is left of the text, and the groups that are open. -/
structure Reading where
  rest : List Char
  mode : Mode
  current : Group
  outer : List Group
  /-- The names of groups so far. -/
  names : List String

/-- A part is read. -/
def Reading.add (r : Reading) (p : Part) (rest : List Char) : Reading :=
  { r with current := r.current.add p, rest := rest }

/-! ### Flags and names -/

/-- The flags of a group up to a `:` or `)`: the mode they lead to, whether there are any, and the
text from that character on.  A flag stands once. -/
def flags? (m : Mode) (seen : List Char) (isOff : Bool) :
    List Char → Option (Mode × Bool × List Char)
  | [] => none
  | c :: s =>
    if c = ':' ∨ c = ')' then
      if seen.head? = some '-' then none else some (m, !seen.isEmpty, c :: s)
    else if seen.contains c then none
    else if c = '-' then flags? m (c :: seen) true s
    else if c = 'u' then flags? { m with unicode := !isOff } (c :: seen) isOff s
    else if c = 'x' then flags? { m with spaced := !isOff } (c :: seen) isOff s
    else if "imsUR".toList.contains c then flags? m (c :: seen) isOff s
    else none

/-- Whether a character may be part of the name of a group. -/
def isNameChar (isFirst : Bool) (c : Char) : Bool :=
  if isFirst then c == '_' || Character.isAlphabetic c
  else "_.[]".toList.contains c || Character.isAlphanumeric c

/-- The name of a group up to a `>`, and what follows. -/
def groupName? (s : List Char) : Option (String × List Char) :=
  match s.takeWhile (· != '>'), s.dropWhile (· != '>') with
  | c :: name, _ :: rest =>
    if isNameChar true c && name.all (isNameChar false) then some (String.ofList (c :: name), rest)
    else none
  | _, _ => none

/-- A group begins, in a mode. -/
def Reading.openGroup (r : Reading) (m : Mode) (captures : Bool) (rest : List Char) : Reading :=
  { r with
    rest := rest
    mode := m
    current := Group.start r.mode captures
    outer := r.current :: r.outer }

/-- A group with a name begins. -/
def Reading.openNamed? (r : Reading) (s : List Char) : Option Reading :=
  match groupName? s with
  | some (name, rest) =>
    if r.names.contains name then none
    else some { r.openGroup r.mode true rest with names := name :: r.names }
  | none => none

/-- What a `(` begins: a group, or flags for the rest of the group at hand. -/
def Reading.open? (r : Reading) (s : List Char) : Option Reading :=
  match r.mode.skip s with
  | '?' :: '=' :: _ | '?' :: '!' :: _ | '?' :: '<' :: '=' :: _ | '?' :: '<' :: '!' :: _ => none
  | '?' :: 'P' :: '<' :: s | '?' :: '<' :: s => r.openNamed? s
  | '?' :: s =>
    match flags? r.mode [] false s with
    | some (m, _, ':' :: s) => some (r.openGroup m false s)
    | some (m, true, _ :: s) =>
      some { r.add ⟨⟨0, 0⟩, true, false⟩ s with mode := m }
    | _ => none
  | s => some (r.openGroup r.mode true s)

/-- The end of a group. -/
def Reading.close? (r : Reading) (s : List Char) : Option Reading :=
  match r.outer with
  | [] => none
  | g :: outer =>
    some { r with
      rest := s
      mode := r.current.outside
      current := g.add (r.current.content.group r.current.captures)
      outer := outer }

/-! ### Repetition -/

/-- The last part is repeated. -/
def Reading.repeat? (r : Reading) (n : Count) (s : List Char) : Option Reading :=
  match r.current.parts with
  | p :: parts =>
    if p.isRepeatable && n.isValid then
      some { r with rest := s, current := { r.current with parts := p.repeated n :: parts } }
    else none
  | [] => none

/-- A text after the mark of a repetition that takes as little as it can. -/
def skipLazy : List Char → List Char
  | '?' :: s => s
  | s => s

/-- Digits, with blanks between them where these do not count, and what follows. -/
def digits (m : Mode) : List Char → List Char × List Char
  | [] => ([], [])
  | c :: s =>
    if c.isDigit then
      let (ds, rest) := digits m (m.skip s)
      (c :: ds, rest)
    else ([], c :: s)
termination_by s => s.length
decreasing_by exact Nat.lt_succ_of_le (m.length_skip_le _)

/-- A number of 32 bits with white space around it, and what follows. -/
def number? (m : Mode) (s : List Char) : Option (Nat × List Char) :=
  let (ds, rest) := digits m (s.dropWhile Character.isWhiteSpace)
  let n := Decimal.natOfDigits ds
  if ds.isEmpty || Nat.pow 2 32 ≤ n then none
  else some (n, m.skip (rest.dropWhile Character.isWhiteSpace))

/-- How often something is repeated, up to the closing brace, and what follows. -/
def count? (m : Mode) (s : List Char) : Option (Count × List Char) := do
  let (least, s) ← number? m (m.skip s)
  match s with
  | ',' :: s =>
    match m.skip s with
    | '\x7d' :: s => some (⟨least, none⟩, s)
    | s =>
      let (most, s) ← number? m s
      match s with
      | '\x7d' :: s => some (⟨least, some most⟩, s)
      | _ => none
  | '\x7d' :: s => some (⟨least, some least⟩, s)
  | _ => none

/-! ### Expressions -/

/-- A part that is an atom. -/
def atomPart (a : Atom) : Part := ⟨⟨0, a.size⟩, a == .assertion, true⟩

/-- An atom outside of classes is read. -/
def Reading.atom? (r : Reading) (s : List Char) : Option Reading :=
  match s with
  | [] => none
  | '\\' :: s =>
    match escape? r.mode s with
    | some (a, s) => if a.isAllowed r.mode false then some (r.add (atomPart a) s) else none
    | none => none
  | '.' :: s => if r.mode.unicode then some (r.add ⟨⟨0, 16⟩, false, true⟩ s) else none
  | '^' :: s | '$' :: s => some (r.add (atomPart .assertion) s)
  | c :: s => some (r.add (atomPart (.literal c false)) s)

/-- One part, or the start or end of a group, is read. -/
def Reading.step? (r : Reading) : Option Reading :=
  match r.mode.skip r.rest with
  | '(' :: s => r.open? s
  | ')' :: s => r.close? s
  | '|' :: s =>
    let g := r.current
    let alternatives := Part.sequence g.parts.reverse :: g.alternatives
    some { r with rest := s, current := { g with alternatives := alternatives, parts := [] } }
  | '[' :: s =>
    match bracketed? r.mode s with
    | some (e, s) => some (r.add ⟨e, false, true⟩ s)
    | none => none
  | '?' :: s => r.repeat? ⟨0, some 1⟩ (skipLazy s)
  | '*' :: s => r.repeat? ⟨0, none⟩ (skipLazy s)
  | '+' :: s => r.repeat? ⟨1, none⟩ (skipLazy s)
  | '\x7b' :: s =>
    match count? r.mode s with
    | some (n, s) =>
      let s := r.mode.skip s
      r.repeat? n (skipLazy s)
    | none => none
  | s => r.atom? s

/-- The whole expression, if the text is one. -/
def read? : Nat → Reading → Option Part
  | 0, _ => none
  | fuel + 1, r =>
    if (r.mode.skip r.rest).isEmpty then
      if r.outer.isEmpty then some r.current.content else none
    else
      match r.step? with
      | some r => read? fuel r
      | none => none

/-- How deep an expression may nest. -/
def depthLimit : Nat := 250

/-- How large a machine for an expression may be, in steps that take one byte. -/
def sizeLimit : Nat := 327680

/-- Whether a text is a regular expression. -/
def isValid (source : String) : Bool :=
  let s := source.toList
  match read? (s.length + 1) ⟨s, .standard, Group.start .standard false, [], []⟩ with
  | some p => p.extent.depth ≤ depthLimit && p.extent.size ≤ sizeLimit
  | none => false

end Stencil.Pattern
