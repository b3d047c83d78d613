/-
**Single parts of regular expressions.**

Main definitions:

* `Stencil.Pattern.Mode` — how a part of a regular expression is read;
* `Stencil.Pattern.Mode.skip` — blanks and comments, where they do not count;
* `Stencil.Pattern.Atom` — a part that stands for one character or a place;
* `Stencil.Pattern.escape?` — what stands after a backslash;
* `Stencil.Pattern.Atom.isAllowed` — whether a part may stand in a mode.
-/

import Stencil.Character.Hexadecimal
import Stencil.Decimal.Reading
import Stencil.Pattern.Property
import Stencil.Text

set_option autoImplicit false

namespace Stencil.Pattern

/-! ### Modes -/

/-- How a part of a regular expression is read. -/
structure Mode where
  /-- Classes hold characters of the whole standard, and not only of ASCII. -/
  unicode : Bool
  /-- Blanks and comments do not count. -/
  spaced : Bool
  deriving DecidableEq, Repr

/-- The mode in which a regular expression starts. -/
def Mode.standard : Mode := ⟨true, false⟩

/-- A text without the blanks and comments at its start; a comment goes from a `#` to the end of
the line. -/
def skipSpace : Bool → List Char → List Char
  | _, [] => []
  | true, c :: s => skipSpace (c != '\n') s
  | false, c :: s =>
    if Character.isWhiteSpace c then skipSpace false s
    else if c = '#' then skipSpace true s
    else c :: s

theorem length_skipSpace_le (inComment : Bool) (s : List Char) :
    (skipSpace inComment s).length ≤ s.length := by
  fun_induction skipSpace inComment s <;> simp_all <;> omega

/-- A text without the blanks and comments at its start, if these do not count. -/
def Mode.skip (m : Mode) (s : List Char) : List Char := if m.spaced then skipSpace false s else s

theorem Mode.length_skip_le (m : Mode) (s : List Char) : (m.skip s).length ≤ s.length := by
  unfold Mode.skip
  split
  · exact length_skipSpace_le _ _
  · exact Nat.le_refl _

/-! ### Atoms -/

/-- A part that stands for one character or a place. -/
inductive Atom where
  /-- A character; `isByte` if it is written as two hexadecimal digits. -/
  | literal (c : Char) (isByte : Bool)
  /-- Digits, blanks or word characters, or all others; the size is that of a machine for it. -/
  | category (size : Nat) (isNegated : Bool)
  /-- The characters with a property. -/
  | property
  /-- A place between characters. -/
  | assertion
  deriving DecidableEq, Repr

/-- Whether an atom may stand in a mode, as an item of a class or elsewhere.  Where characters are
those of ASCII, nothing may match half of another character. -/
def Atom.isAllowed (m : Mode) (inClass : Bool) : Atom → Bool
  | literal c isByte => m.unicode || c.toNat < 128 || !(isByte || inClass)
  | category _ isNegated => m.unicode || !isNegated
  | property => m.unicode
  | assertion => !inClass

/-- How large a machine for an atom is, in steps that take one byte. -/
def Atom.size : Atom → Nat
  | literal c _ => c.utf8Size
  | category size _ => size
  | property => 600
  | assertion => 1

/-! ### Escapes -/

/-- The characters that mean something on their own. -/
def isMeta (c : Char) : Bool := "\\.+*?()|[]\x7b\x7d^$#&-~".toList.contains c

/-- Whether a backslash before a character makes it stand for itself. -/
def isEscapable (c : Char) : Bool :=
  isMeta c || (c.toNat < 128 && !c.isAlphanum && c != '<' && c != '>')

/-- What stands between braces without blanks and comments, if these do not count, and what
follows. -/
def braced? (spaced inComment : Bool) : List Char → Option (List Char × List Char)
  | [] => none
  | c :: s =>
    if inComment then braced? spaced (c != '\n') s
    else if c = '\x7d' then some ([], s)
    else if spaced && Character.isWhiteSpace c then braced? spaced false s
    else if spaced && c == '#' then braced? spaced true s
    else (braced? spaced false s).map fun (word, s) => (c :: word, s)

/-- The character with a code point, if there is one. -/
def char? (n : Nat) : Option Char := if n.isValidChar then some (Char.ofNat n) else none

/-- The number that so many hexadecimal digits write, behind `n`, and what follows. -/
def hexDigits? (m : Mode) : Nat → Nat → List Char → Option (Nat × List Char)
  | 0, n, s => some (n, s)
  | count + 1, n, c :: s =>
    match Character.hexValue? c with
    | some d => hexDigits? m count (16 * n + d) (m.skip s)
    | none => none
  | _ + 1, _, [] => none

/-- A character by its code point: in braces, or with so many digits. -/
def codePoint? (m : Mode) (count : Nat) (s : List Char) : Option (Atom × List Char) :=
  match m.skip s with
  | '\x7b' :: s =>
    match braced? m.spaced false s with
    | some ([], _) => none
    | some (digits, s) => do
      let n ← Character.hexNumber? digits
      return (.literal (← char? n) false, s)
    | none => none
  | s => do
    let (n, s) ← hexDigits? m count 0 s
    return (.literal (← char? n) (count == 2), s)

/-- Whether a text between braces names a property, or a value of one. -/
def isPropertyName (name : List Char) : Bool :=
  match Text.cut? "!=".toList name with
  | some (property, value) => Property.isValue (String.ofList property) (String.ofList value)
  | none =>
    let separator := if name.contains ':' then ':' else '='
    match name.dropWhile (· != separator) with
    | _ :: value =>
      Property.isValue (String.ofList (name.takeWhile (· != separator))) (String.ofList value)
    | [] => Property.isName (String.ofList name)

/-- The characters with a property, which one letter or a text between braces names. -/
def property? (m : Mode) (s : List Char) : Option (Atom × List Char) :=
  match m.skip s with
  | [] => none
  | '\x7b' :: s =>
    match braced? m.spaced false s with
    | some (name, s) => if isPropertyName name then some (.property, s) else none
    | none => none
  | c :: s => if Property.isName (String.singleton c) then some (.property, m.skip s) else none

/-- Whether a character may be part of the name of a kind of word boundary. -/
def isBoundaryChar (c : Char) : Bool := c.isAlpha || c == '-'

/-- A word boundary, whose kind may be named between braces.  Braces with something else in them
belong to what follows. -/
def boundary? (m : Mode) (s : List Char) : Option (Atom × List Char) :=
  match s with
  | '\x7b' :: inner =>
    match m.skip inner with
    | [] => none
    | c :: _ =>
      if isBoundaryChar c then
        match braced? m.spaced false inner with
        | some (name, s) =>
          if ["start", "end", "start-half", "end-half"].contains (String.ofList name) then
            some (.assertion, s)
          else none
        | none => none
      else some (.assertion, s)
  | s => some (.assertion, s)

/-- The control character that a letter stands for. -/
def control? (c : Char) : Option Char :=
  match c with
  | 'a' => some '\x07'
  | 'f' => some '\x0c'
  | 't' => some '\t'
  | 'n' => some '\n'
  | 'r' => some '\r'
  | 'v' => some '\x0b'
  | _ => none

/-- What stands after a backslash. -/
def escape? (m : Mode) : List Char → Option (Atom × List Char)
  | [] => none
  | c :: s =>
    if c = 'x' then codePoint? m 2 s
    else if c = 'u' then codePoint? m 4 s
    else if c = 'U' then codePoint? m 8 s
    else if c = 'p' ∨ c = 'P' then property? m s
    else if c = 'd' ∨ c = 'D' then some (.category 150 (c == 'D'), s)
    else if c = 's' ∨ c = 'S' then some (.category 30 (c == 'S'), s)
    else if c = 'w' ∨ c = 'W' then some (.category 1500 (c == 'W'), s)
    else if isEscapable c then some (.literal c false, s)
    else if c = 'b' then boundary? m s
    else if "AzB<>".toList.contains c then some (.assertion, s)
    else (control? c).map fun c => (.literal c false, s)

end Stencil.Pattern
