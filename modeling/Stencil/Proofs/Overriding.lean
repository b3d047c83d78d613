/-
**Blocks that override each other.**

A context holds the definitions of a block in the order in which templates extend each other, and `super`
goes from one of them to the next.  It finds the place of a definition by its number.  So the way up leads
through the definitions one after the other as long as no number comes twice; a definition that stands in two
places leads back to where it stands first, and the way never ends.

Main definitions:

* `Stencil.Context.above` — what `super` leads to from the definition that overrides all others;
* `Stencil.Context.Layered` — a context made from a template and those extended since;
* `Stencil.Layers` — templates whose blocks can be told apart.

Main results:

* `Stencil.Context.above_ends_iff` — the way up ends if and only if no definition stands in two places;
* `Stencil.Template.defineBlocks_numbered` — a template gives each of its blocks a name and a number of its
  own;
* `Stencil.Context.Layered.ascends` — **super goes up through the templates**, each of which defines the
  block once, and the way ends if and only if none of these was extended twice.
-/

import Mathlib.Data.List.Nodup
import Mathlib.Data.List.Range
import Stencil.Context
import Stencil.Proofs.Named
import Stencil.Template

set_option autoImplicit false

namespace Stencil

namespace Context

variable {c : Context} {name : String} {b : BlockDef}

/-! ### The way up -/

/-- What `super` leads to in `n` steps from the definition that overrides all others. -/
def above (c : Context) (name : String) : Nat → Except TemplateError BlockDef
  | 0 => c.block name
  | n + 1 => c.above name n >>= c.overridden name

/-- A definition that is there; else none is overridden. -/
def found (name : String) : Option BlockDef → Except TemplateError BlockDef
  | some b => .ok b
  | none => .error (.ofCause (.noSuper name))

/-- Behind the first place with the number of a definition stands the one that it overrides. -/
theorem overridden_eq {i : Nat} {d : BlockDef} (hi : (c.entries name)[i]? = some d)
    (hd : d.number = b.number) (hfirst : ∀ e ∈ (c.entries name).take i, e.number ≠ b.number) :
    c.overridden name b = found name (c.entries name)[i + 1]? := by
  have hdrop : (c.entries name).dropWhile (fun e => e.number != b.number) = (c.entries name).drop i := by
    obtain ⟨hlt, hget⟩ := List.getElem?_eq_some_iff.1 hi
    conv_lhs => rw [← List.take_append_drop i (c.entries name)]
    rw [List.dropWhile_append_of_pos fun e he => bne_iff_ne.2 (hfirst e he),
      List.drop_eq_getElem_cons hlt, hget, List.dropWhile_cons_of_neg (by simp [hd])]
  rw [overridden, hdrop, List.getElem?_drop]
  cases (c.entries name)[i + 1]? <;> rfl

/-- In front of a place where no number came twice, no number is the one of the place. -/
theorem number_ne_of_nodup {i k : Nat} (hik : i < k)
    (hnodup : (((c.entries name).take k).map BlockDef.number).Nodup)
    (hi : (c.entries name)[i]? = some b) : ∀ d ∈ (c.entries name).take i, d.number ≠ b.number := by
  intro d hd heq
  obtain ⟨j, hj, rfl⟩ := List.mem_take_iff_getElem.1 hd
  obtain ⟨hlt, rfl⟩ := List.getElem?_eq_some_iff.1 hi
  have hlength : j < (((c.entries name).take k).map BlockDef.number).length := by
    simp only [List.length_map, List.length_take]
    omega
  have hij := (List.getElem?_inj hlength hnodup).1 (show _ = _[i]? by
    simp [hik, hlt, heq, show j < k by omega, show j < (c.entries name).length by omega])
  omega

/-- The way starts at the definition that overrides all others. -/
theorem above_zero (hknown : c.entries name ≠ []) : ∃ d, (c.entries name)[0]? = some d ∧
    c.above name 0 = .ok d := by
  rw [above, block, ← List.head?_eq_getElem?]
  cases hentries : c.entries name with
  | nil => exact absurd hentries hknown
  | cons b rest => exact ⟨b, rfl, rfl⟩

/-- The way up leads through the definitions one after the other if no number comes twice. -/
theorem above_eq (hnodup : ((c.entries name).map BlockDef.number).Nodup)
    (hknown : c.entries name ≠ []) (n : Nat) :
    c.above name n = found name (c.entries name)[n]? := by
  induction n with
  | zero =>
      obtain ⟨d, hd, habove⟩ := above_zero hknown
      rw [habove, hd, found]
  | succ n ih =>
      rw [above, ih]
      cases hn : (c.entries name)[n]? with
      | none =>
          have hlength := List.getElem?_eq_none_iff.1 hn
          rw [List.getElem?_eq_none (by omega)]
          rfl
      | some b =>
          have hlt := (List.getElem?_eq_some_iff.1 hn).1
          exact overridden_eq hn rfl (number_ne_of_nodup hlt (by rwa [List.take_length]) hn)

/-- A list in which something comes twice, up to where something comes for the second time. -/
theorem exists_repeated {α : Type} {xs : List α} (h : ¬ xs.Nodup) :
    ∃ front x back, xs = front ++ x :: back ∧ front.Nodup ∧ x ∈ front := by
  induction xs using List.reverseRecOn with
  | nil => exact absurd List.nodup_nil h
  | append_singleton xs x ih =>
      by_cases hxs : xs.Nodup
      · refine ⟨xs, x, [], rfl, hxs, ?_⟩
        by_contra hx
        exact h (List.nodup_append.2 ⟨hxs, List.nodup_singleton x, fun a ha b hb => by
          obtain rfl := List.mem_singleton.1 hb
          exact fun heq => hx (heq ▸ ha)⟩)
      · obtain ⟨front, y, back, rfl, hfront, hy⟩ := ih hxs
        exact ⟨front, y, back ++ [x], by simp, hfront, hy⟩

/-- If a number comes twice, the way up does not end: where the number comes for the second time, it goes
back to where the number came first. -/
theorem above_of_repeated (hrepeated : ¬ ((c.entries name).map BlockDef.number).Nodup) (n : Nat) :
    ∃ b, c.above name n = .ok b := by
  obtain ⟨front, x, back, hnumbers, hfront, hx⟩ := exists_repeated hrepeated
  have hknown : c.entries name ≠ [] := by
    intro hnil
    simp [hnil] at hnumbers
  have hlength : front.length < (c.entries name).length := by
    have := congrArg List.length hnumbers
    simp at this
    omega
  have htake : ((c.entries name).take front.length).map BlockDef.number = front := by
    rw [List.map_take, hnumbers, List.take_left]
  -- the way stays in front of the place where the number comes for the second time
  have hway : ∀ n, ∃ b i d, c.above name n = .ok b ∧ i < front.length ∧
      (c.entries name)[i]? = some d ∧ d.number = b.number := by
    intro n
    induction n with
    | zero =>
        obtain ⟨d, hd, habove⟩ := above_zero hknown
        exact ⟨d, 0, d, habove, List.length_pos_of_mem hx, hd, rfl⟩
    | succ n ih =>
        obtain ⟨b, i, d, habove, hi, hd, hnumber⟩ := ih
        have hnext : i + 1 < (c.entries name).length := by omega
        have hfirst := number_ne_of_nodup hi (by rwa [htake]) hd
        have hstep : c.above name (n + 1) = .ok (c.entries name)[i + 1] := by
          rw [above, habove]
          refine (overridden_eq hd hnumber (hnumber ▸ hfirst)).trans ?_
          rw [List.getElem?_eq_getElem hnext, found]
        rcases Nat.lt_or_ge (i + 1) front.length with hlt | hge
        · exact ⟨_, i + 1, _, hstep, hlt, List.getElem?_eq_getElem hnext, rfl⟩
        · obtain ⟨j, hj, hjx⟩ := List.mem_iff_getElem.1 hx
          have hij : i + 1 = front.length := by omega
          have hnumber : ∀ k (hk : k < (c.entries name).length),
              some (c.entries name)[k].number = (front ++ x :: back)[k]? := by
            intro k hk
            rw [← hnumbers, List.getElem?_map, List.getElem?_eq_getElem hk, Option.map_some]
          refine ⟨_, j, (c.entries name)[j], hstep, hj, List.getElem?_eq_getElem (by omega),
            Option.some_inj.1 ?_⟩
          rw [hnumber, hnumber, hij, List.getElem?_append_left hj, List.getElem?_eq_getElem hj, hjx]
          simp
  obtain ⟨b, -, -, habove, -⟩ := hway n
  exact ⟨b, habove⟩

/-- The way up ends if and only if no definition stands in two places. -/
theorem above_ends_iff (hknown : c.entries name ≠ []) :
    (∃ n, c.above name n = .error (.ofCause (.noSuper name))) ↔
      ((c.entries name).map BlockDef.number).Nodup := by
  constructor
  · rintro ⟨n, hends⟩
    by_contra hrepeated
    obtain ⟨b, hgoes⟩ := above_of_repeated hrepeated n
    rw [hgoes] at hends
    cases hends
  · intro hnodup
    refine ⟨(c.entries name).length, ?_⟩
    rw [above_eq hnodup hknown, List.getElem?_eq_none (Nat.le_refl _), found]

/-! ### Definitions of a context -/

/-- What a name has in a list of definitions. -/
theorem lookup_map_singleton (blocks : List BlockDef) (name : String) :
    (blocks.map fun b => (b.name, [b])).lookup name =
      (blocks.find? fun b => b.name == name).map fun b => [b] := by
  induction blocks with
  | nil => rfl
  | cons b rest ih =>
      rw [List.map_cons, List.lookup_cons, List.find?_cons, ih, BEq.comm]
      cases b.name == name <;> rfl

/-- The definitions of a new context. -/
theorem entries_ofBlocks (globals bindings : Bindings) {blocks : List BlockDef}
    (hnames : (blocks.map BlockDef.name).Nodup) (name : String) :
    (ofBlocks globals bindings blocks).entries name =
      (blocks.find? fun b => b.name == name).toList := by
  have hkeys : ((blocks.map fun b => (b.name, [b])).map Prod.fst).Nodup := by
    rwa [List.map_map]
  have hget := Named.get?_insertAll (b := []) hkeys name
  rw [entries, ofBlocks, Named.ofList, hget, Named.get?, lookup_map_singleton]
  cases blocks.find? _ <;> rfl

theorem entries_addBlock (c : Context) (b : BlockDef) (name : String) :
    (c.addBlock b).entries name = if b.name = name then c.entries name ++ [b] else c.entries name := by
  unfold entries addBlock
  split
  · next hname =>
      subst hname
      rw [Named.get?_insert_self, Option.getD_some, entries]
  · next hname => rw [Named.get?_insert_of_ne _ _ (Ne.symm hname)]

/-- Those that a template adds are overridden by those that there are. -/
theorem entries_addBlocks (c : Context) {blocks : List BlockDef}
    (hnames : (blocks.map BlockDef.name).Nodup) (name : String) :
    (blocks.foldl addBlock c).entries name =
      c.entries name ++ (blocks.find? fun b => b.name == name).toList := by
  induction blocks generalizing c with
  | nil => simp
  | cons b rest ih =>
      rw [List.map_cons, List.nodup_cons] at hnames
      rw [List.foldl_cons, ih (c.addBlock b) hnames.2, entries_addBlock, List.find?_cons]
      by_cases hname : b.name = name
      · subst hname
        have hrest : rest.find? (fun d => d.name == b.name) = none := by
          rw [List.find?_eq_none]
          intro d hd heq
          exact hnames.1 (List.mem_map.2 ⟨d, hd, beq_iff_eq.1 heq⟩)
        simp [hrest]
      · rw [beq_eq_false_iff_ne.2 hname, if_neg hname]

end Context

/-! ### Templates that extend each other -/

/-- Templates whose blocks can be told apart: a template gives each of its blocks a name of its own, and
no two templates give out the same number. -/
structure Layers where
  blocks : TemplateId → List BlockDef
  names : ∀ id, ((blocks id).map BlockDef.name).Nodup
  numbers : ∀ {id other : TemplateId} {b d : BlockDef}, b ∈ blocks id → d ∈ blocks other →
    b.number = d.number → id = other

namespace Layers

variable (L : Layers)

/-- The definition that a template has of a block. -/
def definition (name : String) (id : TemplateId) : Option BlockDef :=
  (L.blocks id).find? fun b => b.name == name

theorem filterMap_definition_singleton (name : String) (id : TemplateId) :
    [id].filterMap (L.definition name) = ((L.blocks id).find? fun b => b.name == name).toList := by
  rw [List.filterMap_cons, definition]
  cases (L.blocks id).find? _ <;> rfl

theorem mem_of_definition {L : Layers} {name : String} {id : TemplateId} {b : BlockDef}
    (h : L.definition name id = some b) : b ∈ L.blocks id := List.mem_of_find?_eq_some h

/-- Definitions of a block have different numbers just if they come from different templates. -/
theorem nodup_definitions_iff (name : String) (ids : List TemplateId) :
    ((ids.filterMap (L.definition name)).map BlockDef.number).Nodup ↔
      (ids.filter fun id => (L.definition name id).isSome).Nodup := by
  induction ids with
  | nil => simp
  | cons id rest ih =>
      cases hid : L.definition name id with
      | none => simpa [hid] using ih
      | some b =>
          have hmem : b.number ∈ (rest.filterMap (L.definition name)).map BlockDef.number ↔
              id ∈ rest.filter fun id => (L.definition name id).isSome := by
            simp only [List.mem_map, List.mem_filterMap, List.mem_filter]
            constructor
            · rintro ⟨d, ⟨other, hother, hd⟩, hnumber⟩
              obtain rfl := L.numbers (mem_of_definition hid) (mem_of_definition hd) hnumber.symm
              exact ⟨hother, by simp [hid]⟩
            · rintro ⟨hrest, -⟩
              exact ⟨b, ⟨id, hrest, hid⟩, rfl⟩
          rw [List.filterMap_cons_some hid, List.map_cons, List.nodup_cons, hmem, ih,
            List.filter_cons_of_pos (by simp [hid]), List.nodup_cons]

end Layers

/-- A template numbers its blocks one after the other and gives each a name of its own. -/
theorem Template.defineBlocks_numbered {template : String} {number : Nat} {known : List String}
    {ns : List Node} {blocks : List BlockDef}
    (h : defineBlocks template number known ns = .ok blocks) :
    blocks.map BlockDef.number = List.range' number blocks.length ∧
      (blocks.map BlockDef.name).Nodup ∧ ∀ b ∈ blocks, b.name ∉ known := by
  -- by induction on the nodes; each block is added to the known ones before those behind it are numbered
  induction ns generalizing number known blocks with
  | nil =>
      cases h
      exact ⟨rfl, List.nodup_nil, fun b hb => by simp at hb⟩
  | cons n rest ih =>
      cases n with
      | block p name body =>
          obtain ⟨hnew, more, hmore, rfl⟩ := defineBlocks_block_eq_ok_iff.1 h
          obtain ⟨hnumbers, hnames, hothers⟩ := ih hmore
          refine ⟨by simp [hnumbers, List.range'_succ], ?_, ?_⟩
          · refine List.nodup_cons.2 ⟨fun hmem => ?_, hnames⟩
            obtain ⟨b, hb, hname⟩ := List.mem_map.1 hmem
            exact hothers b hb (hname ▸ List.mem_cons_self)
          · refine List.forall_mem_cons.2 ⟨hnew, fun b hb hknown => ?_⟩
            exact hothers b hb (List.mem_cons_of_mem _ hknown)
      | _ => exact ih h

theorem Template.build_numbered {config : Config} {hosts : List TagReader} {filters : List String}
    {name source : String} {number : Nat} {c : Compiled}
    (h : build config hosts filters name source number = .ok c) :
    c.blocks.map BlockDef.number = List.range' number c.blocks.length ∧
      (c.blocks.map BlockDef.name).Nodup := by
  obtain ⟨_, -, -, hblocks⟩ := build_eq_ok_iff.1 h
  obtain ⟨hnumbers, hnames, -⟩ := defineBlocks_numbered hblocks
  exact ⟨hnumbers, hnames⟩

/-- Templates that were compiled with numbers from different ranges. -/
def Layers.ofBuilds (compiled : TemplateId → Compiled) (start : TemplateId → Nat)
    (hbuild : ∀ id, ∃ config hosts filters name source,
      Template.build config hosts filters name source (start id) = .ok (compiled id))
    (hapart : ∀ id other, id ≠ other → start id + (compiled id).blocks.length ≤ start other ∨
      start other + (compiled other).blocks.length ≤ start id) : Layers where
  blocks id := (compiled id).blocks
  names id := by
    obtain ⟨config, hosts, filters, name, source, h⟩ := hbuild id
    exact (Template.build_numbered h).2
  numbers {id other b d} hb hd hnumber := by
    have hrange : ∀ {id b}, b ∈ (compiled id).blocks →
        start id ≤ b.number ∧ b.number < start id + (compiled id).blocks.length := by
      intro id b hb
      obtain ⟨config, hosts, filters, name, source, h⟩ := hbuild id
      have hmem := List.mem_map_of_mem (f := BlockDef.number) hb
      rw [(Template.build_numbered h).1, List.mem_range'_1] at hmem
      exact hmem
    by_contra hne
    have hb := hrange hb
    have hd := hrange hd
    rcases hapart id other hne with h | h <;> omega

/-- A context that was made for a template and in which others were extended since, the one that started
first. -/
inductive Context.Layered (L : Layers) : List TemplateId → Context → Prop
  | ofBlocks (id : TemplateId) (globals bindings : Bindings) :
    Layered L [id] (.ofBlocks globals bindings (L.blocks id))
  | bind {ids : List TemplateId} {c : Context} (h : Layered L ids c) (name : String) (v : Value) :
    Layered L ids (c.bind name v)
  | addExport {ids : List TemplateId} {c : Context} (h : Layered L ids c) (name : String) :
    Layered L ids (c.addExport name)
  | extend {ids : List TemplateId} {c : Context} (h : Layered L ids c) (id : TemplateId) :
    Layered L (ids ++ [id]) ((L.blocks id).foldl Context.addBlock c)

namespace Context.Layered

variable {L : Layers} {ids : List TemplateId} {c : Context}

/-- The definitions of a block are those that the templates have of it. -/
theorem entries_eq (h : Layered L ids c) (name : String) :
    c.entries name = ids.filterMap (L.definition name) := by
  induction h with
  | ofBlocks id globals bindings =>
      rw [entries_ofBlocks globals bindings (L.names id), L.filterMap_definition_singleton]
  | bind _ _ _ ih => exact ih
  | addExport _ other ih =>
      rw [← ih]
      unfold Context.addExport entries
      split <;> rfl
  | extend _ id ih =>
      rw [entries_addBlocks _ (L.names id), ih, List.filterMap_append, L.filterMap_definition_singleton]

/-- **Super goes up through the templates.**  From the definition of a block that overrides all others, it
leads through those of the templates that define the block, in the order in which they extend each other; and
the way up ends if and only if none of these templates was extended twice. -/
theorem ascends (h : Layered L ids c) {name : String} (hknown : ∃ id ∈ ids, (L.definition name id).isSome) :
    ((∃ n, c.above name n = .error (.ofCause (.noSuper name))) ↔
      (ids.filter fun id => (L.definition name id).isSome).Nodup) ∧
    ((ids.filter fun id => (L.definition name id).isSome).Nodup →
      ∀ n, c.above name n = found name (ids.filterMap (L.definition name))[n]?) := by
  have hentries : c.entries name ≠ [] := by
    obtain ⟨id, hid, hsome⟩ := hknown
    obtain ⟨b, hb⟩ := Option.isSome_iff_exists.1 hsome
    rw [h.entries_eq name]
    exact List.ne_nil_of_mem (List.mem_filterMap.2 ⟨id, hid, hb⟩)
  have hnumbers := L.nodup_definitions_iff name ids
  rw [← h.entries_eq name] at hnumbers ⊢
  exact ⟨(above_ends_iff hentries).trans hnumbers, fun hnodup => above_eq (hnumbers.2 hnodup) hentries⟩

end Context.Layered

end Stencil
