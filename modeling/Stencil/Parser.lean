/-
**The state of parsing.**

Parsing reads the tokens of a lexer, without those that are blanks, and may look at tokens ahead
before it takes them.  The tokens looked at wait in a buffer; an error in looking leaves those
before it there.

Main definitions:

* `Stencil.Parser` — a lexer with the tokens looked at and the tags that are open;
* `Stencil.Parse` — an action on a parser that gives a result or an error, and in both cases the
  parser after it;
* `Stencil.Parse.peek`, `Stencil.Parse.next`, `Stencil.Parse.expect`, `Stencil.Parse.skip` — looking
  at tokens and taking them;
* `Stencil.Parse.iterate` — repeating an action.
-/

import Stencil.Node
import Stencil.Token.Lexer

set_option autoImplicit false

namespace Stencil

/-- The next token that is no blank.  Two blanks never follow each other. -/
def Lexer.nextVisible (l : Lexer) : Lexer.Step (Option Token) :=
  match l.next with
  | (.ok (some token), after) =>
    if token.kind = .whitespace then after.next else (.ok (some token), after)
  | other => other

/-- A tag whose body is being read. -/
structure OpenTag where
  name : String
  endTag : String
  line : Nat
  deriving Repr

/-- A lexer with the tokens looked at and the tags that are open. -/
structure Parser where
  lexer : Lexer
  /-- The tokens looked at and not taken. -/
  buffer : List Token
  /-- Whether the next text loses the white space at its start. -/
  trimNext : Bool
  /-- The tags that are open, innermost first. -/
  opened : List OpenTag

/-- A parser at the start of a template. -/
def Parser.ofString (config : Config) (source : String) : Parser :=
  ⟨Lexer.ofString config source, [], false, []⟩

/-- A number that no parser can exceed in tokens still to be taken. -/
def Parser.size (p : Parser) : Nat := 2 * p.lexer.rest.length + p.buffer.length + 2

/-- An action on a parser. -/
abbrev Parse (α : Type) := ExceptT TemplateError (StateM Parser) α

namespace Parse

/-- Two actions one after the other. -/
theorem bind_eq_match {α β : Type} (x : Parse α) (f : α → Parse β) (p : Parser) :
    (x >>= f) p = match x p with
      | (.ok a, q) => f a q
      | (.error e, q) => (.error e, q) := by
  change (match x p with | (a, q) => ExceptT.bindCont f a q) = _
  rcases x p with ⟨e | a, q⟩ <;> rfl

/-! ### Errors -/

/-- An error at a place. -/
def failAt {α : Type} (cause : Cause) (p : Position) : Parse α := throw (.atPosition cause p)

/-- The template ended where something was wanted. -/
def endOfFile {α : Type} (what : String) : Parse α := do
  failAt (.endOfFile what) (← get).lexer.position

/-! ### Tokens -/

/-- The next token of the lexer that is no blank. -/
def pull : Parse (Option Token) := fun p =>
  let (answer, lexer) := p.lexer.nextVisible
  (answer, { p with lexer := lexer })

/-- Up to `n` tokens of the lexer join the buffer. -/
def fill : Nat → Parse Unit
  | 0 => pure ()
  | n + 1 => do
    match ← pull with
    | none => pure ()
    | some token =>
      modify fun p => { p with buffer := p.buffer ++ [token] }
      fill n

/-- The token that `n` tokens precede. -/
def peek (n : Nat) : Parse (Option Token) := do
  fill (n + 1 - (← get).buffer.length)
  return (← get).buffer[n]?

/-- The kind of the token that `n` tokens precede. -/
def peekKind (n : Nat) : Parse (Option TokenKind) := do
  return (← peek n).map Token.kind

/-- Whether the token that `n` tokens precede has the given kind and value. -/
def peekIs (n : Nat) (kind : TokenKind) (value : String) : Parse Bool := do
  return (← peek n).any fun t => t.is kind value

/-- The next token is taken. -/
def next : Parse (Option Token) := do
  match (← get).buffer with
  | token :: rest =>
    modify fun p => { p with buffer := rest }
    return some token
  | [] => pull

/-- A token of the given kind is taken. -/
def expect (kind : TokenKind) (what : String) : Parse Token := do
  match ← next with
  | some token =>
    if token.kind = kind then return token
    else failAt (.wanted ("expected " ++ what) token) token.position
  | none => endOfFile what

/-- A token of the given kind is taken if it is next. -/
def skip (kind : TokenKind) : Parse Bool := do
  if (← peekKind 0) = some kind then
    discard next
    return true
  return false

/-- A token of the given kind and value is taken if it is next. -/
def skipValue (kind : TokenKind) (value : String) : Parse Bool := do
  if ← peekIs 0 kind value then
    discard next
    return true
  return false

/-- A symbol is taken if it is next. -/
def skipSymbol (name : String) : Parse Bool := skipValue .symbol name

/-- The next token is none of those that a sentence says were wanted. -/
def failHere {α : Type} (sentence : String) : Parse α := do
  match ← peek 0 with
  | some token => failAt (.wanted sentence token) token.position
  | none => endOfFile sentence

/-- A symbol as a node. -/
def symbol (what : String) : Parse Node := do
  let token ← expect .symbol what
  return .symbol token.position token.value

/-! ### Repetition -/

/-- An action is repeated until it gives a result, at most `fuel` times. -/
def iterateWithin {α β : Type} (step : α → Parse (α ⊕ β)) : Nat → α → Parse β
  | 0, _ => do failAt .nestingTooDeep (← get).lexer.position
  | fuel + 1, a => do
    match ← step a with
    | .inl a => iterateWithin step fuel a
    | .inr b => return b

/-- An action that takes a token each time is repeated until it gives a result. -/
def iterate {α β : Type} (step : α → Parse (α ⊕ β)) (a : α) : Parse β := do
  iterateWithin step (← get).size a

end Parse

end Stencil
