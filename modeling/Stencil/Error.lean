/-
**Errors.**

An error has a cause, the place of the node or token it arose at, the template that owns this
place, and the chain of templates that the error passed through on its way out.  Place and owner
are set once: what is nearest to the cause sets them first.

Main definitions:

* `Stencil.ErrorKind` — the six families of errors;
* `Stencil.Cause` — what went wrong, with `Stencil.Cause.kind` and `Stencil.Cause.message`;
* `Stencil.TemplateError` — a cause with its place;
* `Stencil.TemplateError.locate`, `Stencil.TemplateError.through` — an error that passes a node,
  or the boundary of a template;
* `Stencil.TemplateError.report` — the text shown to a user.
-/

import Stencil.Text
import Stencil.Token

set_option autoImplicit false

namespace Stencil

/-! ### Causes -/

/-- The families of errors. -/
inductive ErrorKind where
  /-- A comment, string or regular expression without end, or a word that is none. -/
  | lexical
  /-- An end tag that is missing, a token or tag out of place. -/
  | syntactic
  /-- A template, block, filter, test or import that is not there. -/
  | resolution
  /-- A failure while rendering. -/
  | evaluation
  /-- A failure that a loader, filter or extension of the host reports. -/
  | collaborator
  /-- A configuration that cannot be used. -/
  | configuration
  deriving DecidableEq, Repr

/-- The heading of a family in a report. -/
def ErrorKind.label : ErrorKind → String
  | lexical => "Lexical Error"
  | syntactic => "Syntax Error"
  | resolution => "Resolution Error"
  | evaluation => "Evaluation Error"
  | collaborator => "Error"
  | configuration => "Configuration Error"

/-- The name of a family. -/
def ErrorKind.name : ErrorKind → String
  | lexical => "Lexical"
  | syntactic => "Syntax"
  | resolution => "Resolution"
  | evaluation => "Evaluation"
  | collaborator => "Collaborator"
  | configuration => "Configuration"

/-- The family of the given name. -/
def ErrorKind.ofName? (name : String) : Option ErrorKind :=
  [lexical, syntactic, resolution, evaluation, collaborator, configuration].find? fun kind =>
    kind.name == name

/-- A family is found by its name. -/
theorem ErrorKind.ofName?_name (kind : ErrorKind) : ofName? kind.name = some kind := by
  cases kind <;> decide

/-- What went wrong. -/
inductive Cause where
  -- reading characters
  | unclosedComment
  | unclosedString
  | unclosedPattern
  | unreadableWord (word : String)
  -- reading tokens
  /-- Something was wanted and the template ended. -/
  | endOfFile (what : String)
  /-- A sentence says what was wanted, and another token stood there. -/
  | wanted (sentence : String) (found : Token)
  | strayToken (found : Token)
  | notExpression (found : Token)
  | tokenAfterRaw (found : Token) (tag : String)
  | missingEnd (endTag tag : String) (line : Nat)
  | misplacedTag (endTag tag : String) (line : Nat) (found : String)
  | strayTag (tag : String)
  | unknownTag (tag : String)
  | notMacroCall
  | privateImport
  | integerTooLarge
  | keywordName
  | positionalAfterKeyword
  | parameterShape
  | repeatedBlock (name : String)
  /-- Tags or expressions are nested deeper than the template is long. -/
  | nestingTooDeep
  -- finding names
  | importNotFound (name : String)
  | filterNotFound (name : String)
  | testNotFound (name : String)
  | extensionNotFound (name : String)
  | templateNotFound (name : String)
  | unknownBlock (name : String)
  -- rendering
  | nullOutput
  | cyclicInheritance (chain : List String)
  | noSuper (block : String)
  | superOutsideBlock (block : String)
  | templateName (type : String)
  | notIterable (type : String)
  | notUnpackable (type : String) (names : Nat)
  | setTarget
  | notPair
  | notComparison
  | notCaller
  | misplacedPart (node : String)
  | statementAsExpression (node : String)
  | sliceIndex (type : String)
  | sliceStep
  | notSliceable (type : String)
  | undefinedCall (name : String)
  | notCallable (name : String)
  | macroDepth (name : String)
  | testName
  | invalidPattern
  | operands (operator left right : String)
  | divisionByZero
  | quotientOverflow
  | notSearchable (needle type : String)
  | testArgument (test argument : String)
  | rangeInteger (type : String)
  | rangeArity (count : Nat)
  | rangeStep
  | rangeLength (count limit : Nat)
  | renderData (type : String)
  | suspended
  /-- A run nests deeper than the limit on nesting. -/
  | runTooDeep
  -- configuring
  | emptyDelimiter (name : String)
  | repeatedStart (delimiter : String)
  /-- A failure in the words of the host. -/
  | host (kind : ErrorKind) (message : String)
  deriving DecidableEq, Repr

namespace Cause

/-- The family of a cause. -/
def kind : Cause → ErrorKind
  | unclosedComment | unclosedString | unclosedPattern | unreadableWord _ => .lexical
  | endOfFile _ | wanted _ _ | strayToken _ | notExpression _ | tokenAfterRaw _ _
  | missingEnd _ _ _ | misplacedTag _ _ _ _ | strayTag _ | unknownTag _ | notMacroCall
  | privateImport | integerTooLarge | keywordName | positionalAfterKeyword | parameterShape
  | repeatedBlock _ | nestingTooDeep => .syntactic
  | importNotFound _ | filterNotFound _ | testNotFound _ | extensionNotFound _
  | templateNotFound _ | unknownBlock _ => .resolution
  | nullOutput | cyclicInheritance _ | noSuper _ | superOutsideBlock _ | templateName _
  | notIterable _ | notUnpackable _ _ | setTarget | notPair | notComparison | notCaller
  | misplacedPart _ | statementAsExpression _ | sliceIndex _ | sliceStep | notSliceable _
  | undefinedCall _ | notCallable _ | macroDepth _ | testName | invalidPattern
  | operands _ _ _ | divisionByZero | quotientOverflow | notSearchable _ _ | testArgument _ _
  | rangeInteger _ | rangeArity _ | rangeStep | rangeLength _ _ | renderData _ | suspended
  | runTooDeep => .evaluation
  | emptyDelimiter _ | repeatedStart _ => .configuration
  | host kind _ => kind

/-- The words of a cause. -/
def message : Cause → String
  | unclosedComment => "expected end of comment, got end of file"
  | unclosedString => "unterminated string"
  | unclosedPattern => "unterminated regular expression"
  | unreadableWord word => "unexpected value while parsing: " ++ word
  | endOfFile what => "expected " ++ what ++ ", got end of file"
  | wanted sentence found => sentence ++ ", got " ++ found.describe
  | strayToken found => "unexpected token at top level: " ++ found.describe
  | notExpression found => "unexpected token: " ++ found.describe
  | tokenAfterRaw found tag => "unexpected " ++ found.describe ++ " after " ++ tag ++ " tag"
  | missingEnd endTag tag line =>
    "missing end tag `" ++ endTag ++ "` for `" ++ tag ++ "` opened on line " ++ Nat.repr line
  | misplacedTag endTag tag line found =>
    "missing end tag `" ++ endTag ++ "` for `" ++ tag ++ "` opened on line " ++ Nat.repr line
      ++ ", found `" ++ found ++ "`"
  | strayTag tag => "unexpected `" ++ tag ++ "` tag"
  | unknownTag tag => "unknown block tag: " ++ tag
  | notMacroCall => "expected a macro call after \"call\""
  | privateImport => "names starting with an underscore cannot be imported"
  | integerTooLarge => "integer literal out of range"
  | keywordName => "keyword argument name must be a plain name"
  | positionalAfterKeyword => "positional argument follows keyword argument"
  | parameterShape => "macro parameters must be plain names or name=default"
  | repeatedBlock name => "block \"" ++ name ++ "\" defined more than once"
  | nestingTooDeep => "tags or expressions are nested too deep"
  | importNotFound name => "cannot import '" ++ name ++ "'"
  | filterNotFound name => "filter not found: " ++ name
  | testNotFound name => "test not found: " ++ name
  | extensionNotFound name => "extension not found: " ++ name
  | templateNotFound name => "template not found: " ++ name
  | unknownBlock name => "unknown block \"" ++ name ++ "\""
  | nullOutput => "attempted to output null or undefined value"
  | cyclicInheritance chain => "cyclic template inheritance: " ++ Text.joinWith " -> " chain
  | noSuper block => "no super block available for \"" ++ block ++ "\""
  | superOutsideBlock block => "super() called outside of block \"" ++ block ++ "\""
  | templateName type => "template name must be a string, got " ++ type
  | notIterable type => "cannot iterate over a value of type " ++ type
  | notUnpackable type names =>
    "cannot unpack a value of type " ++ type ++ " into " ++ Nat.repr names ++ " names"
  | setTarget => "set target must be a plain name"
  | notPair => "expected key/value pair"
  | notComparison => "malformed comparison"
  | notCaller => "malformed caller"
  | misplacedPart node => "unexpected " ++ node ++ " in expression"
  | statementAsExpression node => node ++ " cannot be used as an expression"
  | sliceIndex type => "slice indices must be integers, got " ++ type
  | sliceStep => "slice step cannot be zero"
  | notSliceable type => "cannot slice a value of type " ++ type
  | undefinedCall name => "unable to call `" ++ name ++ "`, which is undefined or falsey"
  | notCallable name => "unable to call `" ++ name ++ "`, which is not a function"
  | macroDepth name => "maximum macro call depth exceeded in `" ++ name ++ "`"
  | testName => "test name must be a plain name"
  | invalidPattern => "invalid regular expression"
  | operands operator left right =>
    "unsupported operand types for " ++ operator ++ ": " ++ left ++ " and " ++ right
  | divisionByZero => "integer division by zero"
  | quotientOverflow => "integer overflow in //"
  | notSearchable needle type =>
    "cannot use \"in\" operator to search for \"" ++ needle ++ "\" in a value of type " ++ type
  | testArgument test argument => "test \"" ++ test ++ "\" expects an argument (" ++ argument ++ ")"
  | rangeInteger type => "range() expects integers, got " ++ type
  | rangeArity count => "range() takes 1 to 3 arguments, got " ++ Nat.repr count
  | rangeStep => "range() step must not be zero"
  | rangeLength count limit =>
    "range() would produce " ++ Nat.repr count ++ " items; the limit is " ++ Nat.repr limit
  | renderData type => "render data must be a map, got " ++ type
  | suspended => "template needs async rendering; use render_async"
  | runTooDeep => "the run is nested too deep"
  | emptyDelimiter name => "invalid configuration: delimiter `" ++ name ++ "` is empty"
  | repeatedStart delimiter =>
    "invalid configuration: start delimiter `" ++ delimiter ++ "` is used twice"
  | host _ message => message

end Cause

/-! ### Errors -/

/-- A cause with its place. -/
structure TemplateError where
  cause : Cause
  position : Option Position
  /-- The template that owns the position. -/
  template : Option String
  /-- The templates that the error passed through after its own, nearest first. -/
  chain : List String
  deriving DecidableEq, Repr

namespace TemplateError

/-- An error whose place is not known yet. -/
def ofCause (cause : Cause) : TemplateError := ⟨cause, none, none, []⟩

/-- An error at a place. -/
def atPosition (cause : Cause) (p : Position) : TemplateError := ⟨cause, some p, none, []⟩

/-- The error passes a node: its place is set unless it has one. -/
def locate (e : TemplateError) (p : Position) : TemplateError :=
  { e with position := some (e.position.getD p) }

/-- The error passes the boundary of a template.  The first template becomes the owner of the
place, the others join the chain; the same boundary twice in a row counts once. -/
def through (e : TemplateError) (name : String) : TemplateError :=
  match e.template with
  | none => { e with template := some name }
  | some owner =>
    if e.chain.getLast?.getD owner = name then e else { e with chain := e.chain ++ [name] }

/-- The family of an error. -/
def kind (e : TemplateError) : ErrorKind := e.cause.kind

/-- The words of an error. -/
def message (e : TemplateError) : String := e.cause.message

/-- The text shown to a user. -/
def report (e : TemplateError) : String :=
  let place := e.position.map fun p =>
    "[Line " ++ Nat.repr p.line ++ ", Column " ++ Nat.repr p.column ++ "]"
  let owner := e.template.map fun name => "(" ++ name ++ ")"
  let heading :=
    match owner, place with
    | some owner, some place => owner ++ " " ++ place ++ "\n  "
    | some owner, none => owner ++ "\n  "
    | none, some place => place ++ "\n  "
    | none, none => ""
  let route :=
    if e.chain.isEmpty then "" else "\n  via " ++ Text.joinWith " <- " e.chain
  heading ++ e.kind.label ++ ": " ++ e.message ++ route

/-- A place is set once. -/
theorem locate_locate (e : TemplateError) (p q : Position) :
    (e.locate p).locate q = e.locate p := rfl

end TemplateError

end Stencil
