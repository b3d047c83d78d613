/-
**Trees as JSON.**

A tool that looks at templates gets a tree as JSON: each node is an object with its kind, its place,
what it says beside its parts, and its parts under their names.

Main definitions:

* `Stencil.Literal.toJson` — a literal with its type;
* `Stencil.Node.attributes` — what a node says beside its parts;
* `Stencil.Node.toJson` — a tree.

Main result:

* `Stencil.Node.toJson_eq_objectWith` — the parts of a node stand under their names.
-/

import Stencil.Decimal.Bits
import Stencil.Json
import Stencil.Node

set_option autoImplicit false

namespace Stencil

/-- A literal with its type; numbers are texts, so that no digit is lost. -/
def Literal.toJson : Literal → Json
  | none => .object [("t", .string "none")]
  | bool b => .object [("t", .string "bool"), ("v", .bool b)]
  | int n => .object [("t", .string "int"), ("v", .string (Int.repr n))]
  | float x => .object [("t", .string "float"), ("v", .string (Decimal.hexBits x))]
  | string s => .object [("t", .string "str"), ("v", .string s)]
  | pattern body flags =>
    .object [("t", .string "regex"), ("v", .string body), ("flags", .string flags)]

namespace Node

/-- The new name of an imported name, or null. -/
def newNameJson (name : ImportName) : Json :=
  match name.newName with
  | some newName => .string newName
  | none => .null

/-- What a node says beside its parts. -/
def attributes : Node → List (String × Json)
  | text _ content => [("text", .string content)]
  | literal _ value => [("value", value.toJson)]
  | symbol _ name => [("name", .string name)]
  | operand _ op _ => [("op", .string op.operator)]
  | filter _ name _ => [("name", .string name)]
  | tagCall _ tag _ _ =>
    [("extension", .string tag.extension), ("method", .string tag.method),
      ("autoescape", .bool tag.autoescape)]
  | definition _ _ name _ _ => [("name", .string name)]
  | block _ name _ => [("name", .string name)]
  | overridden _ name _ => [("block_name", .string name)]
  | embed _ _ ignoreMissing => [("ignore_missing", .bool ignoreMissing)]
  | importAll _ _ target withContext =>
    [("target", .string target), ("with_context", .bool withContext)]
  | importNames _ _ names withContext =>
    [("names", .array (names.map fun name => .array [.string name.name, newNameJson name])),
      ("with_context", .bool withContext)]
  | group _ _ _ | capture _ _ | pair _ _ _ | binary _ _ _ _ | unary _ _ _ | compare _ _ _
  | choice _ _ _ _ | lookup _ _ _ | slice _ _ _ _ | call _ _ _ | branch _ _ _ _ _
  | loop _ _ _ _ _ _ | assign _ _ _ _ | extend _ _ | bind _ _ _ => []

/-- A node as JSON, its parts being there already. -/
def objectWith (n : Node) (parts : List (String × Json)) : Json :=
  .object ([("k", .string n.kindName),
    ("at", .array [.int n.position.line, .int n.position.column])] ++ n.attributes ++ parts)

mutual
/-- A tree as JSON. -/
def toJson : Node → Json
  | n@(group _ _ a) => n.objectWith [("children", .array (toJsonAll a))]
  | n@(text _ _) => n.objectWith []
  | n@(literal _ _) => n.objectWith []
  | n@(symbol _ _) => n.objectWith []
  | n@(capture _ a) => n.objectWith [("body", toJson a)]
  | n@(pair _ a b) => n.objectWith [("key", toJson a), ("value", toJson b)]
  | n@(binary _ _ a b) => n.objectWith [("left", toJson a), ("right", toJson b)]
  | n@(unary _ _ a) => n.objectWith [("target", toJson a)]
  | n@(compare _ a b) => n.objectWith [("expr", toJson a), ("ops", .array (toJsonAll b))]
  | n@(operand _ _ a) => n.objectWith [("expr", toJson a)]
  | n@(choice _ a b c) =>
    n.objectWith [("cond", toJson a), ("body", toJson b), ("else", toJsonOption c)]
  | n@(lookup _ a b) => n.objectWith [("target", toJson a), ("val", toJson b)]
  | n@(slice _ a b c) =>
    n.objectWith [("start", toJsonOption a), ("stop", toJsonOption b), ("step", toJsonOption c)]
  | n@(call _ a b) => n.objectWith [("name", toJson a), ("args", toJson b)]
  | n@(filter _ _ a) => n.objectWith [("args", toJson a)]
  | n@(tagCall _ _ a b) => n.objectWith [("args", toJson a), ("content", .array (toJsonAll b))]
  | n@(branch _ _ a b c) =>
    n.objectWith [("cond", toJson a), ("body", toJson b), ("else", toJsonOption c)]
  | n@(loop _ _ a b c d) =>
    n.objectWith [("arr", toJson a), ("name", toJson b), ("body", toJson c),
      ("else", toJsonOption d)]
  | n@(assign _ a b c) =>
    n.objectWith [("targets", .array (toJsonAll a)), ("value", toJsonOption b),
      ("body", toJsonOption c)]
  | n@(definition _ _ _ a b) => n.objectWith [("args", toJson a), ("body", toJson b)]
  | n@(block _ _ a) => n.objectWith [("body", toJson a)]
  | n@(overridden _ _ a) => n.objectWith [("symbol", toJson a)]
  | n@(extend _ a) => n.objectWith [("template", toJson a)]
  | n@(embed _ a _) => n.objectWith [("template", toJson a)]
  | n@(importAll _ a _ _) => n.objectWith [("template", toJson a)]
  | n@(importNames _ a _ _) => n.objectWith [("template", toJson a)]
  | n@(bind _ a b) => n.objectWith [("call", toJson a), ("symbol", toJson b)]

/-- The trees of a list as JSON. -/
def toJsonAll : List Node → List Json
  | [] => []
  | n :: rest => toJson n :: toJsonAll rest

/-- A tree as JSON, or null. -/
def toJsonOption : Option Node → Json
  | none => .null
  | some n => toJson n
end

/-- A part of a node as JSON. -/
def Field.toJson : Field → Json
  | one n => n.toJson
  | optional n => toJsonOption n
  | many ns => .array (toJsonAll ns)

/-- The name of a part in JSON. -/
def partName (name : String) : String := if name = "else_" then "else" else name

/-- The parts of a node stand under their names. -/
theorem toJson_eq_objectWith (n : Node) :
    n.toJson = n.objectWith (n.fields.map fun (name, part) => (partName name, part.toJson)) := by
  cases n <;> rfl

end Node

end Stencil
