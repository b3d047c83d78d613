/-
**Loaders.**

A loader finds the sources of templates by name.  A name that starts with `./` or `../` is taken to
be relative to the template that uses it.

Main definitions:

* `Stencil.Loader.isRelativeName`, `Stencil.Loader.resolvePath` — relative names;
* `Stencil.Loader` — where sources come from;
* `Stencil.Loader.memory` — sources held in memory.
-/

import Stencil.Action

set_option autoImplicit false

namespace Stencil

/-- A source that a loader found. -/
structure Source where
  text : String
  /-- The full name of the template, which relative names in it are resolved against. -/
  path : String
  /-- Whether the template may be kept. -/
  cacheable : Bool

/-- Where sources come from. -/
structure Loader where
  /-- The source of a name, if the loader has it. -/
  source : String → Action (Option Source)
  isRelative : String → Bool
  /-- The full name that a relative name stands for in a template. -/
  resolve : String → String → String

namespace Loader

/-! ### Relative names -/

/-- Whether a name starts with `./` or `../`. -/
def isRelativeName (name : String) : Bool :=
  Text.startsWith "./".toList name.toList || Text.startsWith "../".toList name.toList

/-- The segments reached from others, innermost first, by one more segment: none and `.` stay,
`..` goes out. -/
def enter (segments : List (List Char)) (segment : List Char) : List (List Char) :=
  if segment = [] ∨ segment = ['.'] then segments
  else if segment = ['.', '.'] then segments.drop 1
  else segment :: segments

/-- The name reached from the folder of a template. -/
def resolvePath (parent name : String) : String :=
  let folder := (Text.splitOn '/' parent.toList).reverse.drop 1
  let segments := (Text.splitOn '/' name.toList).foldl enter folder
  Text.joinWith "/" ((segments.reverse.filter fun segment => !segment.isEmpty).map String.ofList)

/-! ### Sources in memory -/

/-- The source of a name among those of a list; the last one counts. -/
def find? (sources : List (String × String)) (name : String) : Option String :=
  sources.reverse.lookup name

/-- A loader of the sources held under a number. -/
def memory (number : Nat) (cacheable : Bool) : Loader where
  source name := Action.read fun s =>
    (find? ((s.memories[number]?).getD []) name).map fun text => ⟨text, name, cacheable⟩
  isRelative := isRelativeName
  resolve := resolvePath

/-- A place for sources in memory. -/
def newMemory (s : State) : Nat × State :=
  (s.memories.size, { s with memories := s.memories.push [] })

/-- A source is put into memory. -/
def insert (number : Nat) (name text : String) (s : State) : State :=
  { s with memories := s.memories.modify number fun sources => sources ++ [(name, text)] }

end Loader

end Stencil
