/-
**The lexer.**

The lexer cuts a template into tokens, one at a time.  It is in one of two modes: between tags it
looks for the next start delimiter and everything before it is text; inside of a tag it reads
words, numbers, strings and operators until a delimiter ends the tag.

Main definitions:

* `Stencil.Lexer.Options` — the options that a lexer looks at;
* `Stencil.Lexer` — the rest of a template, the place reached and the mode;
* `Stencil.Lexer.next` — the next token;
* `Stencil.Lexer.takeRaw` — the text up to an end tag, read without looking at tags in between;
* `Stencil.Lexer.tokens` — all tokens, up to the end or the first error.

An error leaves the lexer before the piece that it could not read, so asking again gives the same
error again.
-/

import Stencil.Character.Numeric
import Stencil.Config

set_option autoImplicit false

namespace Stencil

/-! ### Characters and words inside of tags -/

namespace Lexeme

/-- The characters that separate words inside of a tag. -/
def isBlank (c : Char) : Bool :=
  c == ' ' || c == '\n' || c == '\t' || c == '\r' || c == '\u00a0'

/-- The characters that operators and brackets are made of. -/
def punctuation : List Char := "()[]\x7b\x7d%*-+~/#,:|.<>=!".toList

/-- Whether a character ends a word. -/
def isPunctuation (c : Char) : Bool := punctuation.contains c

/-- The operators of more than one character; where two of them fit, the earlier counts. -/
def longOperators : List (List Char) :=
  ["===", "!==", "==", "!=", "<=", ">=", "//", "**"].map String.toList

/-- The letters that may follow a regular expression. -/
def isFlag (c : Char) : Bool := c == 'g' || c == 'i' || c == 'm' || c == 'y'

/-- Whether a character may start a name. -/
def startsName (c : Char) : Bool := Character.isAlphabetic c || c == '_' || c == '$'

/-- Whether a character may stand inside of a name. -/
def continuesName (c : Char) : Bool := Character.isAlphanumeric c || c == '_' || c == '$'

/-- Whether a word is a name. -/
def isName : List Char → Bool
  | [] => false
  | c :: word => startsName c && word.all continuesName

/-- The kind of an operator or bracket. -/
def punctuationKind : List Char → TokenKind
  | ['('] => .leftParen
  | [')'] => .rightParen
  | ['['] => .leftBracket
  | [']'] => .rightBracket
  | ['\x7b'] => .leftCurly
  | ['\x7d'] => .rightCurly
  | [','] => .comma
  | [':'] => .colon
  | ['~'] => .tilde
  | ['|'] => .pipe
  | _ => .operator

/-- The kind of a word that is no number, if it is one that may be written. -/
def wordKind? (word : List Char) : Option TokenKind :=
  if word = "true".toList ∨ word = "false".toList then some .boolean
  else if word = "none".toList ∨ word = "null".toList then some .nothing
  else if isName word then some .symbol
  else none

/-- The character that an escaped character stands for. -/
def unescape (c : Char) : Char :=
  if c = 'n' then '\n' else if c = 't' then '\t' else if c = 'r' then '\r' else c

/-- The text that a string denotes, the string as it is written up to its closing quote, and what
follows; the opening quote is read already. -/
def string? (quote : Char) : List Char → Option (List Char × List Char × List Char)
  | [] => none
  | '\\' :: [] => none
  | '\\' :: c :: s =>
    (string? quote s).map fun (text, written, rest) =>
      (unescape c :: text, '\\' :: c :: written, rest)
  | c :: s =>
    if c = quote then some ([], [c], s)
    else
      (string? quote s).map fun (text, written, rest) => (c :: text, c :: written, rest)

/-- The body of a regular expression, up to the first slash without a backslash before it, and
what follows this slash. -/
def pattern? (previous : Char) : List Char → Option (List Char × List Char)
  | [] => none
  | c :: s =>
    if c = '/' ∧ previous ≠ '\\' then some ([], s)
    else (pattern? c s).map fun (body, rest) => (c :: body, rest)

/-- An opening delimiter with the `-` marker that may follow it. -/
def opening? (delimiter s : List Char) : Option (List Char × List Char) :=
  (Text.after? delimiter s).map fun
    | '-' :: rest => (delimiter ++ ['-'], rest)
    | rest => (delimiter, rest)

/-- A closing delimiter with the `-` marker that may stand before it. -/
def closing? (delimiter s : List Char) : Option (List Char × List Char) :=
  match Text.after? delimiter s, s with
  | some rest, _ => some (delimiter, rest)
  | none, '-' :: s => (Text.after? delimiter s).map fun rest => ('-' :: delimiter, rest)
  | none, _ => none

/-- The newline at the start of a text, if there is one, and what follows. -/
def newline : List Char → List Char × List Char
  | '\r' :: '\n' :: s => (['\r', '\n'], s)
  | '\n' :: s => (['\n'], s)
  | s => ([], s)

/-- The text before the first place where one of some words stands, and the text from there on. -/
def textBefore (words : List (List Char)) : List Char → List Char × List Char
  | [] => ([], [])
  | c :: s =>
    if words.any fun word => Text.startsWith word (c :: s) then ([], c :: s)
    else
      let (text, rest) := textBefore words s
      (c :: text, rest)

/-- A text without the blanks that its last line consists of, unless it has none.  The first line
counts only if the text starts a line. -/
def withoutIndent (startsLine : Bool) (text : List Char) : List Char :=
  let line := (text.reverse.takeWhile (· != '\n')).reverse
  let before := (text.reverse.dropWhile (· != '\n')).reverse
  if (!before.isEmpty || startsLine) && line.all fun c => c == ' ' || c == '\t' then before
  else text

end Lexeme

/-! ### The lexer -/

/-- The options that decide how a template is cut into tokens. -/
structure Lexer.Options where
  /-- Drop the first newline after a block tag. -/
  trimBlocks : Bool
  /-- Drop the blanks between the start of a line and a block tag. -/
  lstripBlocks : Bool
  delimiters : Delimiters

/-- What a lexer takes of the options of an environment that is given none. -/
def Lexer.Options.standard : Lexer.Options := ⟨false, false, .standard⟩

/-- A template that is being cut into tokens. -/
structure Lexer where
  config : Lexer.Options
  /-- What is not read yet. -/
  rest : List Char
  /-- The place of the first character of the rest. -/
  position : Position
  /-- Whether the place is inside of a tag. -/
  inTag : Bool

/-- A text taken verbatim up to an end tag. -/
structure RawText where
  text : String
  /-- Whether the end tag is closed with a `-` marker. -/
  trimAfter : Bool
  deriving DecidableEq, Repr

namespace Lexer

/-- A lexer at the start of a template. -/
def ofString (config : Config) (source : String) : Lexer :=
  ⟨⟨config.trimBlocks, config.lstripBlocks, config.delimiters⟩, source.toList, .start, false⟩

/-- The lexer after the text `read`, which `rest` follows. -/
def moved (l : Lexer) (read rest : List Char) : Lexer :=
  { l with rest := rest, position := l.position.advance read }

/-- The token that the text `read` is, and the lexer after it. -/
def token (l : Lexer) (kind : TokenKind) (read rest : List Char) : Token × Lexer :=
  (⟨kind, String.ofList read, l.position⟩, l.moved read rest)

/-- The lexer without the newline after a block tag, if the configuration drops it. -/
def dropNewline (l : Lexer) : Lexer :=
  if l.config.trimBlocks then
    let (read, rest) := Lexeme.newline l.rest
    l.moved read rest
  else l

/-! ### Between tags -/

/-- What an attempt to read a token gives: a token or none, or an error, and the lexer after it. -/
abbrev Step (α : Type) := Except TemplateError α × Lexer

/-- The start of a tag, or a whole comment, if one stands here. -/
def tagStart? (l : Lexer) : Option (Step Token) :=
  let d := l.config.delimiters
  match Lexeme.opening? d.blockStart.toList l.rest with
  | some (read, rest) =>
    let (token, l) := l.token .blockStart read rest
    some (.ok token, { l with inTag := true })
  | none =>
    match Lexeme.opening? d.variableStart.toList l.rest with
    | some (read, rest) =>
      let (token, l) := l.token .variableStart read rest
      some (.ok token, { l with inTag := true })
    | none =>
      match Text.after? d.commentStart.toList l.rest with
      | none => none
      | some body =>
        match Text.cut? d.commentEnd.toList body with
        | none => some (.error (.atPosition .unclosedComment l.position), l)
        | some (text, rest) =>
          let read := d.commentStart.toList ++ text ++ d.commentEnd.toList
          let (token, l) := l.token .comment read rest
          some (.ok token, l)

/-- The part of a text before a tag that the template shows. -/
def visibleText (l : Lexer) (text next : List Char) : List Char :=
  let d := l.config.delimiters
  if l.config.lstripBlocks && (Text.startsWith d.blockStart.toList next
      || Text.startsWith d.commentStart.toList next) then
    Lexeme.withoutIndent (l.position.column == 1) text
  else text

/-- The next token between tags.  A text of which nothing is shown is passed over. -/
def textToken (l : Lexer) : Step (Option Token) :=
  match l.tagStart? with
  | some (answer, l) => (answer.map some, l)
  | none =>
    let d := l.config.delimiters
    let (text, next) := Lexeme.textBefore
      [d.blockStart.toList, d.variableStart.toList, d.commentStart.toList] l.rest
    let shown := l.visibleText text next
    let after := l.moved text next
    if shown.isEmpty then
      match after.tagStart? with
      | some (answer, l) => (answer.map some, l)
      | none => (.ok none, after)
    else (.ok (some ⟨.data, String.ofList shown, l.position⟩), after)

/-! ### Inside of a tag -/

/-- A string that starts with the given quote. -/
def stringToken (l : Lexer) (quote : Char) (s : List Char) : Step Token :=
  match Lexeme.string? quote s with
  | some (text, written, rest) =>
    (.ok ⟨.string, String.ofList text, l.position⟩, l.moved (quote :: written) rest)
  | none => (.error (.atPosition .unclosedString l.position), l)

/-- A regular expression; `s` follows its `r/`. -/
def patternToken (l : Lexer) (s : List Char) : Step Token :=
  match Lexeme.pattern? '\x00' s with
  | some (body, after) =>
    let flags := after.takeWhile Lexeme.isFlag
    let (token, l) := l.token .pattern ('r' :: '/' :: body ++ '/' :: flags)
      (after.dropWhile Lexeme.isFlag)
    (.ok token, l)
  | none => (.error (.atPosition .unclosedPattern l.position), l)

/-- An operator or a bracket. -/
def punctuationToken (l : Lexer) : Step Token :=
  let read := (Lexeme.longOperators.find? fun op => Text.startsWith op l.rest).getD
    (l.rest.take 1)
  let (token, l) := l.token (Lexeme.punctuationKind read) read (l.rest.drop read.length)
  (.ok token, l)

/-- A number or a word.  A number goes on behind a point only if a digit follows the point. -/
def wordToken (l : Lexer) : Step Token :=
  let inWord (c : Char) := !(Lexeme.isBlank c || Lexeme.isPunctuation c)
  let word := l.rest.takeWhile inWord
  let rest := l.rest.dropWhile inWord
  if word.all Char.isDigit then
    let fraction :=
      match rest with
      | '.' :: rest => rest.takeWhile Char.isDigit
      | _ => []
    if fraction.isEmpty then
      let (token, l) := l.token .int word rest
      (.ok token, l)
    else
      let (token, l) := l.token .float (word ++ '.' :: fraction)
        (rest.drop (fraction.length + 1))
      (.ok token, l)
  else
    match Lexeme.wordKind? word with
    | some kind =>
      let (token, l) := l.token kind word rest
      (.ok token, l)
    | none => (.error (.atPosition (.unreadableWord (String.ofList word)) l.position), l)

/-- The next token inside of a tag that starts with `c`. -/
def tagToken (l : Lexer) (c : Char) (s : List Char) : Step Token :=
  if c = '\x22' ∨ c = '\x27' then l.stringToken c s
  else if Lexeme.isBlank c then
    let (token, l) := l.token .whitespace (l.rest.takeWhile Lexeme.isBlank)
      (l.rest.dropWhile Lexeme.isBlank)
    (.ok token, l)
  else
    let d := l.config.delimiters
    match Lexeme.closing? d.blockEnd.toList l.rest with
    | some (read, rest) =>
      let (token, l) := l.token .blockEnd read rest
      (.ok token, { l with inTag := false }.dropNewline)
    | none =>
      match Lexeme.closing? d.variableEnd.toList l.rest with
      | some (read, rest) =>
        let (token, l) := l.token .variableEnd read rest
        (.ok token, { l with inTag := false })
      | none =>
        match c, s with
        | 'r', '/' :: s => l.patternToken s
        | _, _ => if Lexeme.isPunctuation c then l.punctuationToken else l.wordToken

/-! ### Tokens -/

/-- The next token, or none at the end. -/
def next (l : Lexer) : Step (Option Token) :=
  match l.rest with
  | [] => (.ok none, l)
  | c :: s =>
    if l.inTag then
      let (answer, l) := l.tagToken c s
      (answer.map some, l)
    else l.textToken

/-- The tokens that at most `fuel` steps give, the error that ended them if one did, and the lexer
after the last step. -/
def tokensWithin : Nat → Lexer → List Token × Option TemplateError × Lexer
  | 0, l => ([], none, l)
  | fuel + 1, l =>
    match l.next with
    | (.ok (some token), l) =>
      let (tokens, error, l) := tokensWithin fuel l
      (token :: tokens, error, l)
    | (.ok none, l) => ([], none, l)
    | (.error e, l) => ([], some e, l)

/-- All tokens, up to the end or the first error. -/
def tokens (l : Lexer) : List Token × Option TemplateError × Lexer :=
  tokensWithin (2 * l.rest.length + 2) l

/-! ### Raw text -/

/-- Whether the start delimiter just read opens the end tag: whether it has a `-` marker, whether
the tag is closed with one, and what follows the tag. -/
def endTag? (d : Delimiters) (name s : List Char) : Option (Bool × Bool × List Char) :=
  let (trimBefore, s) :=
    match s with
    | '-' :: s => (true, s)
    | s => (false, s)
  match Text.after? name (Text.trimStart s) with
  | none => none
  | some after =>
    if after.head?.any fun c => Character.isAlphanumeric c || c == '_' then none
    else
      let (trimAfter, s) :=
        match Text.trimStart after with
        | '-' :: s => (true, s)
        | s => (false, s)
      (Text.after? d.blockEnd.toList s).map fun rest => (trimBefore, trimAfter, rest)

/-- The text before an end tag, looked for at `fuel` start delimiters, and the markers of the tag
with what follows it; `seen` is the text passed already. -/
def rawText? (d : Delimiters) (name : List Char) :
    Nat → List Char → List Char → Option (List Char × Bool × Bool × List Char)
  | 0, _, _ => none
  | fuel + 1, seen, s =>
    match Text.cut? d.blockStart.toList s with
    | none => none
    | some (before, after) =>
      match endTag? d name after with
      | some found => some (seen ++ before, found)
      | none => rawText? d name fuel (seen ++ before ++ d.blockStart.toList) after

/-- The text up to the end tag of the given name, taken verbatim, and the lexer after the tag. -/
def takeRaw (l : Lexer) (name : String) : Option (RawText × Lexer) :=
  (rawText? l.config.delimiters name.toList (l.rest.length + 1) [] l.rest).map
    fun (text, trimBefore, trimAfter, rest) =>
      let shown := if trimBefore then Text.trimEnd text else text
      let read := l.rest.take (l.rest.length - rest.length)
      (⟨String.ofList shown, trimAfter⟩, (l.moved read rest).dropNewline)

end Lexer

end Stencil
