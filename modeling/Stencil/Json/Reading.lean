/-
**Reading JSON.**

The members of an object keep their order; a key that is repeated keeps its first place and gets
its last value.  A number without point and exponent that fits into 64 bits is an integer, every
other number is the nearest float.

Every value and every member takes a character, so a text of `n` characters is read within a depth
of `n`.

Main definitions:

* `Stencil.Json.stringTail?` — the characters of a string;
* `Stencil.Json.number?` — a number;
* `Stencil.Json.ofString?` — the value that a whole text writes.
-/

import Stencil.Character.Hexadecimal
import Stencil.Decimal.Reading
import Stencil.Json
import Stencil.Named

set_option autoImplicit false

namespace Stencil.Json

/-! ### Blanks and strings -/

/-- Whether a character may stand between the parts of a value. -/
def isBlank (c : Char) : Bool := c == ' ' || c == '\n' || c == '\t' || c == '\r'

/-- A text without the blanks at its start. -/
def skipBlanks (s : List Char) : List Char := s.dropWhile isBlank

/-- The character that a letter after a backslash stands for. -/
def escaped? (c : Char) : Option Char :=
  match c with
  | '\x22' | '\\' | '/' => some c
  | 'b' => some '\x08'
  | 'f' => some '\x0c'
  | 'n' => some '\n'
  | 'r' => some '\r'
  | 't' => some '\t'
  | _ => none

/-- Whether a number is the first half of a pair that stands for one character. -/
def isHighHalf (n : Nat) : Bool := 0xd800 ≤ n && n < 0xdc00

/-- Whether a number is the second half of a pair that stands for one character. -/
def isLowHalf (n : Nat) : Bool := 0xdc00 ≤ n && n < 0xe000

/-- The character that a pair of halves stands for. -/
def pairChar (high low : Nat) : Char :=
  Char.ofNat (0x10000 + (high - 0xd800) * 0x400 + (low - 0xdc00))

/-- The characters up to the closing quote, behind those read so far in reverse, and what follows
the quote. -/
def stringTail? (read : List Char) : List Char → Option (String × List Char)
  | [] => none
  | '\x22' :: s => some (String.ofList read.reverse, s)
  | '\\' :: 'u' :: a :: b :: c :: d :: '\\' :: 'u' :: e :: f :: g :: h :: s =>
    match Character.hexNumber? [a, b, c, d], Character.hexNumber? [e, f, g, h] with
    | some n, some m =>
      if isHighHalf n then
        if isLowHalf m then stringTail? (pairChar n m :: read) s else none
      else if isLowHalf n then none
      else stringTail? (Char.ofNat n :: read) ('\\' :: 'u' :: e :: f :: g :: h :: s)
    | _, _ => none
  | '\\' :: 'u' :: a :: b :: c :: d :: s =>
    match Character.hexNumber? [a, b, c, d] with
    | some n =>
      if isHighHalf n || isLowHalf n then none else stringTail? (Char.ofNat n :: read) s
    | none => none
  | '\\' :: c :: s =>
    match escaped? c with
    | some c => stringTail? (c :: read) s
    | none => none
  | c :: s => if c.toNat < 32 then none else stringTail? (c :: read) s
termination_by s => s.length

/-! ### Numbers -/

/-- Whether a character may be part of a number. -/
def isNumberChar (c : Char) : Bool :=
  c.isDigit || c == '-' || c == '+' || c == '.' || c == 'e' || c == 'E'

/-- Whether the digits before the point are written as they have to be: at least one, and no zero
before others. -/
def isWholePart (digits : List Char) : Bool :=
  !digits.isEmpty && (digits.head? != some '0' || digits.length == 1)

/-- The number that a whole text writes. -/
def number? (s : List Char) : Option Json :=
  let negative := s.head? == some '-'
  let size := if negative then s.drop 1 else s
  let digits := size.takeWhile Char.isDigit
  let rest := size.dropWhile Char.isDigit
  let n : Int := Decimal.natOfDigits digits
  let n := if negative then -n else n
  if !isWholePart digits then none
  else if rest.isEmpty && !(negative && n == 0) && -(Int.pow 2 63) ≤ n && n < Int.pow 2 63 then
    some (int n)
  else if rest.head? == some '.' && !(rest.drop 1).head?.any Char.isDigit then none
  else (Decimal.float? s).map float

/-! ### Values -/

/-- A value that is a word or a number. -/
def scalar? (s : List Char) : Option (Json × List Char) :=
  match s with
  | 't' :: 'r' :: 'u' :: 'e' :: s => some (bool true, s)
  | 'f' :: 'a' :: 'l' :: 's' :: 'e' :: s => some (bool false, s)
  | 'n' :: 'u' :: 'l' :: 'l' :: s => some (null, s)
  | s => (number? (s.takeWhile isNumberChar)).map fun n => (n, s.dropWhile isNumberChar)

mutual
/-- A value, and what follows it. -/
def value? : Nat → List Char → Option (Json × List Char)
  | 0, _ => none
  | fuel + 1, s =>
    match skipBlanks s with
    | '\x22' :: s => (stringTail? [] s).map fun (text, s) => (string text, s)
    | '[' :: s =>
      match skipBlanks s with
      | ']' :: s => some (array [], s)
      | s => items? fuel [] s
    | '\x7b' :: s =>
      match skipBlanks s with
      | '\x7d' :: s => some (object [], s)
      | s => members? fuel [] s
    | s => scalar? s

/-- The items of an array up to its end, behind those read so far in reverse. -/
def items? : Nat → List Json → List Char → Option (Json × List Char)
  | 0, _, _ => none
  | fuel + 1, read, s =>
    match value? fuel s with
    | none => none
    | some (item, s) =>
      match skipBlanks s with
      | ',' :: s => items? fuel (item :: read) s
      | ']' :: s => some (array (item :: read).reverse, s)
      | _ => none

/-- The members of an object up to its end, behind those read so far. -/
def members? : Nat → List (String × Json) → List Char → Option (Json × List Char)
  | 0, _, _ => none
  | fuel + 1, read, s =>
    match skipBlanks s with
    | '\x22' :: s =>
      match stringTail? [] s with
      | none => none
      | some (key, s) =>
        match skipBlanks s with
        | ':' :: s =>
          match value? fuel s with
          | none => none
          | some (value, s) =>
            let read := Named.insert read key value
            match skipBlanks s with
            | ',' :: s => members? fuel read s
            | '\x7d' :: s => some (object read, s)
            | _ => none
        | _ => none
    | _ => none
end

/-- The value that a whole text writes. -/
def ofString? (text : String) : Option Json :=
  let s := text.toList
  match value? (s.length + 1) s with
  | some (json, rest) => if (skipBlanks rest).isEmpty then some json else none
  | none => none

end Stencil.Json
