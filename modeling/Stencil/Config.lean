/-
**The options of an environment.**

Main definitions:

* `Stencil.Delimiters` — the words that start and end tags and comments;
* `Stencil.Config` — all options;
* `Stencil.Config.validate` — refuses a configuration with an empty delimiter, or with two start
  delimiters that are the same.
-/

import Stencil.Error

set_option autoImplicit false

namespace Stencil

/-- The words that start and end tags and comments. -/
structure Delimiters where
  blockStart : String
  blockEnd : String
  variableStart : String
  variableEnd : String
  commentStart : String
  commentEnd : String
  deriving DecidableEq, Repr

/-- The delimiters of a configuration that names none. -/
def Delimiters.standard : Delimiters :=
  ⟨"\x7b%", "%\x7d", "\x7b\x7b", "\x7d\x7d", "\x7b#", "#\x7d"⟩

/-- The options of an environment. -/
structure Config where
  /-- Escape what is output unless it is marked safe. -/
  autoescape : Bool
  /-- Fail where an undefined or absent value is output. -/
  strict : Bool
  /-- Drop the first newline after a block tag. -/
  trimBlocks : Bool
  /-- Drop the blanks between the start of a line and a block tag. -/
  lstripBlocks : Bool
  delimiters : Delimiters
  deriving DecidableEq, Repr

namespace Config

/-- The options of an environment that is given none. -/
def standard : Config := ⟨true, false, false, false, .standard⟩

/-- The delimiters with the names under which a configuration lists them. -/
def namedDelimiters (c : Config) : List (String × String) :=
  let d := c.delimiters
  [("block_start", d.blockStart), ("block_end", d.blockEnd),
    ("variable_start", d.variableStart), ("variable_end", d.variableEnd),
    ("comment_start", d.commentStart), ("comment_end", d.commentEnd)]

/-- Refuses a configuration that no lexer can use. -/
def validate (c : Config) : Except TemplateError Unit :=
  match c.namedDelimiters.find? fun (_, word) => word.isEmpty with
  | some (name, _) => .error (.ofCause (.emptyDelimiter name))
  | none =>
    let d := c.delimiters
    if d.blockStart = d.variableStart ∨ d.blockStart = d.commentStart then
      .error (.ofCause (.repeatedStart d.blockStart))
    else if d.variableStart = d.commentStart then
      .error (.ofCause (.repeatedStart d.variableStart))
    else .ok ()

end Config

end Stencil
