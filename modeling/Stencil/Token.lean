/-
**Tokens.**

Main definitions:

* `Stencil.TokenKind`, `Stencil.Token` — the pieces that the lexer cuts a template into;
* `Stencil.TokenKind.name`, `Stencil.TokenKind.ofName?` — the kinds and their names;
* `Stencil.Token.patternParts` — the body and the flags of a regular expression literal;
* `Stencil.Token.describe` — a token as error messages name it.
-/

import Stencil.Position

set_option autoImplicit false

namespace Stencil

/-- What a token is. -/
inductive TokenKind where
  /-- Text outside of tags. -/
  | data
  | comment
  | blockStart
  | blockEnd
  | variableStart
  | variableEnd
  | whitespace
  | string
  | int
  | float
  | boolean
  /-- One of the words for the absent value. -/
  | nothing
  /-- A regular expression with its flags. -/
  | pattern
  | symbol
  | leftParen
  | rightParen
  | leftBracket
  | rightBracket
  | leftCurly
  | rightCurly
  | comma
  | colon
  | tilde
  | pipe
  | operator
  deriving DecidableEq, Repr, Inhabited

namespace TokenKind

/-- The name of a kind of token. -/
def name : TokenKind → String
  | data => "Data"
  | comment => "Comment"
  | blockStart => "BlockStart"
  | blockEnd => "BlockEnd"
  | variableStart => "VariableStart"
  | variableEnd => "VariableEnd"
  | whitespace => "Whitespace"
  | string => "String"
  | int => "Int"
  | float => "Float"
  | boolean => "Boolean"
  | nothing => "None"
  | pattern => "Regex"
  | symbol => "Symbol"
  | leftParen => "LeftParen"
  | rightParen => "RightParen"
  | leftBracket => "LeftBracket"
  | rightBracket => "RightBracket"
  | leftCurly => "LeftCurly"
  | rightCurly => "RightCurly"
  | comma => "Comma"
  | colon => "Colon"
  | tilde => "Tilde"
  | pipe => "Pipe"
  | operator => "Operator"

/-- Every kind of token. -/
def all : List TokenKind :=
  [.data, .comment, .blockStart, .blockEnd, .variableStart, .variableEnd, .whitespace, .string,
    .int, .float, .boolean, .nothing, .pattern, .symbol, .leftParen, .rightParen, .leftBracket,
    .rightBracket, .leftCurly, .rightCurly, .comma, .colon, .tilde, .pipe, .operator]

/-- The kind of the given name. -/
def ofName? (name : String) : Option TokenKind := all.find? fun kind => kind.name == name

theorem mem_all (kind : TokenKind) : kind ∈ all := by cases kind <;> decide

/-- A kind is found by its name. -/
theorem ofName?_name (kind : TokenKind) : ofName? kind.name = some kind := by
  cases kind <;> decide

end TokenKind

/-- A piece of a template.  The value is the text of the piece as it stands, delimiters with their
`-` markers; of a string it is the text that the string denotes. -/
structure Token where
  kind : TokenKind
  value : String
  position : Position
  deriving DecidableEq, Repr, Inhabited

namespace Token

/-- Whether a token has the given kind and value. -/
def is (t : Token) (kind : TokenKind) (value : String) : Bool := t.kind == kind && t.value == value

/-- The body and the flags of a regular expression: the flags follow the last slash. -/
def patternParts (t : Token) : Option (String × String) :=
  match t.kind, t.value.toList with
  | .pattern, 'r' :: '/' :: text =>
    match text.reverse.dropWhile (· != '/') with
    | [] => none
    | _ :: body =>
      some (String.ofList body.reverse,
        String.ofList (text.reverse.takeWhile (· != '/')).reverse)
  | _, _ => none

/-- Whether the value starts with a `-` marker. -/
def startsDashed (t : Token) : Bool := t.value.toList.head? == some '-'

/-- Whether the value ends with a `-` marker. -/
def endsDashed (t : Token) : Bool := t.value.toList.getLast? == some '-'

/-- A token as error messages name it. -/
def describe (t : Token) : String :=
  match t.kind with
  | .data => "template text"
  | .string => "string \"" ++ t.value ++ "\""
  | _ => "`" ++ t.value ++ "`"

end Token

end Stencil
