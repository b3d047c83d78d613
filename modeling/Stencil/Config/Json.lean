/-
**Configurations as JSON.**

A configuration is written as a JSON object whose members all may be missing, or as an array of its
options in their order, which may be cut short.  Other members of the object are passed over.

Main definitions:

* `Stencil.Config.ofJson?`, `Stencil.Delimiters.ofJson?` — the options that a JSON value lists;
* `Stencil.Config.toJson` — an object with all options.

Main result:

* `Stencil.Config.ofJson?_toJson` — the options that are written are read back.
-/

import Stencil.Config
import Stencil.Json

set_option autoImplicit false

namespace Stencil

/-- The values that an object or an array gives to a list of options, each of which may be
missing. -/
def Json.options? (names : List String) : Json → Option (List (Option Json))
  | .object members => some (names.map fun name => members.lookup name)
  | .array items =>
    if items.length ≤ names.length then
      some (items.map some ++ List.replicate (names.length - items.length) none)
    else none
  | _ => none

/-- An option that is on or off. -/
def Json.flag? (default : Bool) : Option Json → Option Bool
  | none => some default
  | some (.bool b) => some b
  | some _ => none

/-- An option that is a word. -/
def Json.word? (default : String) : Option Json → Option String
  | none => some default
  | some (.string s) => some s
  | some _ => none

/-- The delimiters that a JSON value lists. -/
def Delimiters.ofJson? (json : Json) : Option Delimiters := do
  let d := Delimiters.standard
  match ← json.options? ["block_start", "block_end", "variable_start", "variable_end",
      "comment_start", "comment_end"] with
  | [blockStart, blockEnd, variableStart, variableEnd, commentStart, commentEnd] =>
    return {
      blockStart := ← Json.word? d.blockStart blockStart
      blockEnd := ← Json.word? d.blockEnd blockEnd
      variableStart := ← Json.word? d.variableStart variableStart
      variableEnd := ← Json.word? d.variableEnd variableEnd
      commentStart := ← Json.word? d.commentStart commentStart
      commentEnd := ← Json.word? d.commentEnd commentEnd }
  | _ => none

/-- The options that a JSON value lists. -/
def Config.ofJson? (json : Json) : Option Config := do
  let c := Config.standard
  match ← json.options? ["autoescape", "throw_on_undefined", "trim_blocks", "lstrip_blocks",
      "tags"] with
  | [autoescape, strict, trimBlocks, lstripBlocks, tags] =>
    return {
      autoescape := ← Json.flag? c.autoescape autoescape
      strict := ← Json.flag? c.strict strict
      trimBlocks := ← Json.flag? c.trimBlocks trimBlocks
      lstripBlocks := ← Json.flag? c.lstripBlocks lstripBlocks
      delimiters := ←
        match tags with
        | none => some c.delimiters
        | some tags => Delimiters.ofJson? tags }
  | _ => none

/-- An object with all options. -/
def Config.toJson (c : Config) : Json :=
  .object [("autoescape", .bool c.autoescape), ("throw_on_undefined", .bool c.strict),
    ("trim_blocks", .bool c.trimBlocks), ("lstrip_blocks", .bool c.lstripBlocks),
    ("tags", .object (c.namedDelimiters.map fun (name, word) => (name, .string word)))]

/-- The options that are written are read back. -/
theorem Config.ofJson?_toJson (c : Config) : Config.ofJson? c.toJson = some c := by
  obtain ⟨autoescape, strict, trimBlocks, lstripBlocks, delimiters⟩ := c
  simp [Config.ofJson?, Config.toJson, Json.options?, List.lookup_cons, Delimiters.ofJson?,
    Config.namedDelimiters, Json.flag?, Json.word?]

end Stencil
