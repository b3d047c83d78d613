/-
**Environments.**

An environment holds what the host registered: a configuration, loaders, filters, tests, globals
and extensions.  It also has a cache of the templates that it loaded.  What is registered shapes
the templates, so each registration gives the environment a new, empty cache; copies of an
environment share a cache until one of them registers something.

Main definitions:

* `Stencil.Filter`, `Stencil.Extension` — what a host registers beside loaders, tests and globals;
* `Stencil.Environment` — everything registered;
* `Stencil.Environment.create`, `Stencil.Environment.ofConfig` — new environments;
* `Stencil.Environment.addLoader`, `Stencil.Environment.addFilter`,
  `Stencil.Environment.addAsyncFilter`, `Stencil.Environment.addTest`,
  `Stencil.Environment.addGlobal`, `Stencil.Environment.addExtension` — registrations;
* `Stencil.Environment.load`, `Stencil.Environment.compile` — templates by name, and their trees.
-/

import Stencil.Builtin
import Stencil.Loader

set_option autoImplicit false

namespace Stencil

/-! ### Registrations -/

/-- A function of the host that gives an answer at once and may note something down. -/
abbrev Immediate (α : Type) := Array String → Except TemplateError α × Array String

/-- A filter: a function of the value filtered and the arguments, which may suspend if it is
registered as one that does. -/
inductive Filter where
  | immediate (f : Value → List Value → Immediate Value)
  | suspending (f : Value → List Value → Action Value)

/-- The answer of a function of the host. -/
def Action.ofImmediate {α : Type} (f : Immediate α) : Action α := fun s =>
  let (answer, notes) := f s.notes
  .done answer { s with notes := notes }

/-- The action that a filter is on a value and arguments. -/
def Filter.apply : Filter → Value → List Value → Action Value
  | immediate f, v, args => Action.ofImmediate (f v args)
  | suspending f, v, args => f v args

/-- An extension: tags with a reader, and what calls of its methods do. -/
structure Extension extends TagReader where
  name : String
  /-- What a method does with the arguments and the bodies of a tag; a body is rendered when its
  action is run. -/
  run : ContextId → String → CallArgs → List (Action String) → Action Value

/-- Everything that a host registered. -/
structure Environment where
  config : Config
  loaders : List Loader
  filters : List (String × Filter)
  /-- The names of the filters that may suspend. -/
  asyncFilters : List String
  tests : List (String × Test)
  globals : Bindings
  extensions : List Extension
  /-- The number of the cache. -/
  cache : Nat

/-- A name in a list of registrations gets another meaning. -/
def register {α : Type} (entries : List (String × α)) (name : String) (a : α) :
    List (String × α) :=
  (name, a) :: entries.filter fun (other, _) => other != name

namespace Environment

/-- A new cache. -/
def newCache (s : State) : Nat × State :=
  (s.caches.size, { s with caches := s.caches.push [] })

/-- The environment with a new, empty cache. -/
def withNewCache (env : Environment) (s : State) : Environment × State :=
  let (cache, s) := newCache s
  ({ env with cache := cache }, s)

/-- A function of the host gets a number. -/
def newFunction (f : CallArgs → Except TemplateError Value) (s : State) : Nat × State :=
  (s.functions.size, { s with functions := s.functions.push f })

/-- An environment with the standard configuration, in which nothing is registered beside what is
built in. -/
def create (s : State) : Environment × State :=
  let (number, s) := newFunction Value.range s
  let (cache, s) := newCache s
  ({ config := .standard
     loaders := []
     filters := Builtin.filters.map fun (name, f) =>
       (name, .immediate fun v _ notes => (.ok (f v), notes))
     asyncFilters := []
     tests := Builtin.tests
     globals := [("range", .function number "range")]
     extensions := []
     cache := cache }, s)

/-- An environment with a configuration that is found valid. -/
def ofConfig (config : Config) (s : State) : Except TemplateError (Environment × State) := do
  config.validate
  let (env, s) := create s
  return withNewCache { env with config := config } s

/-- A loader is asked after those that are there. -/
def addLoader (env : Environment) (loader : Loader) : State → Environment × State :=
  withNewCache { env with loaders := env.loaders ++ [loader] }

/-- A filter that does not suspend. -/
def addFilter (env : Environment) (name : String) (f : Value → List Value → Immediate Value) :
    State → Environment × State :=
  withNewCache { env with
    asyncFilters := env.asyncFilters.filter fun other => other != name
    filters := register env.filters name (.immediate f) }

/-- A filter that may suspend. -/
def addAsyncFilter (env : Environment) (name : String) (f : Value → List Value → Action Value) :
    State → Environment × State :=
  withNewCache { env with
    asyncFilters := name :: env.asyncFilters.filter fun other => other != name
    filters := register env.filters name (.suspending f) }

/-- A test. -/
def addTest (env : Environment) (name : String) (test : Test) : State → Environment × State :=
  withNewCache { env with tests := register env.tests name test }

/-- A value that every template sees. -/
def addGlobal (env : Environment) (name : String) (v : Value) : State → Environment × State :=
  withNewCache { env with globals := env.globals.insert name v }

/-- An extension; where tags or names are the same, the earlier one counts. -/
def addExtension (env : Environment) (extension : Extension) : State → Environment × State :=
  withNewCache { env with extensions := env.extensions ++ [extension] }

/-- Every template in the cache is dropped. -/
def invalidateCache (env : Environment) (s : State) : State :=
  { s with caches := s.caches.modify env.cache fun _ => [] }

/-- The extension of the given name. -/
def extension? (env : Environment) (name : String) : Option Extension :=
  env.extensions.find? fun extension => extension.name == name

/-! ### Templates -/

/-- A template that is not compiled yet. -/
def newTemplate (name source : String) (s : State) : TemplateId × State :=
  (s.templates.size, { s with templates := s.templates.push ⟨name, source, none⟩ })

/-- A template. -/
def template (id : TemplateId) : Action Template := Action.read fun s =>
  (s.templates[id]?).getD default

/-- The template that a cache keeps under a name. -/
def cached? (env : Environment) (name : String) (s : State) : Option TemplateId :=
  ((s.caches[env.cache]?).getD []).lookup name

/-- A source becomes a template, which the cache keeps if it may. -/
def keep (env : Environment) (name : String) (source : Source) (s : State) : TemplateId × State :=
  let (id, s) := newTemplate source.path source.text s
  if source.cacheable then
    (id, { s with caches := s.caches.modify env.cache fun entries => register entries name id })
  else (id, s)

/-- A template by name from the first of some loaders that has it, or from the cache.  A relative
name is resolved against the template that uses it, by each loader on its own. -/
def loadFrom (env : Environment) (name : String) (parent : Option String) :
    List Loader → Action (Option TemplateId)
  | [] => pure none
  | loader :: rest => do
    let full :=
      match parent with
      | some parent => if loader.isRelative name then loader.resolve parent name else name
      | none => name
    match ← Action.read (env.cached? full) with
    | some id => return some id
    | none =>
      match ← loader.source full with
      | some source => some <$> Action.change (env.keep full source)
      | none => loadFrom env name parent rest

/-- A template by name; none if it is missing and may be. -/
def load (env : Environment) (name : String) (parent : Option String) (ignoreMissing : Bool) :
    Action (Option TemplateId) := do
  match ← env.loadFrom name parent env.loaders with
  | some id => return some id
  | none => if ignoreMissing then return none else Action.fail (.templateNotFound name)

/-- A template by name, which has to be there. -/
def loadRequired (env : Environment) (name : String) (parent : Option String) :
    Action TemplateId := do
  match ← env.load name parent false with
  | some id => return id
  | none => Action.fail (.templateNotFound name)

/-- A template as a tree ready to be rendered.  It is compiled once; a failure is not kept. -/
def compile (env : Environment) (id : TemplateId) : Action Compiled := do
  let template ← template id
  match template.compiled with
  | some compiled => return compiled
  | none =>
    let number ← Action.read State.next
    let compiled ← Action.throughTemplate template.name <| Action.ofExcept <|
      Template.build env.config (env.extensions.map Extension.toTagReader) env.asyncFilters
        template.name template.source number
    Action.change fun s =>
      (compiled, { s with
        next := number + compiled.blocks.length
        templates := s.templates.modify id fun t => { t with compiled := some compiled } })

end Environment

end Stencil
