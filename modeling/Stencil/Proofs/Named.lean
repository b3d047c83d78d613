/-
**What lists of named things hold.**

Main results:

* `Stencil.Named.mem_of_get?`, `Stencil.Named.get?_of_mem` — what a name has is what is in the list;
* `Stencil.Named.mem_of_mem_insert`, `Stencil.Named.mem_of_mem_insertAll` — nothing comes into a
  list but what is put there;
* `Stencil.Named.get?_erase_of_ne` — a name keeps what it has when another is taken out;
* `Stencil.Named.nodup_insert`, `Stencil.Named.get?_insertAll` — names stay distinct, and what they got
  counts before what they had;
* `Stencil.Named.insert_of_forall_ne` — a new name comes last.
-/

import Stencil.Named

set_option autoImplicit false

namespace Stencil.Named

variable {α : Type}

theorem mem_of_get? {b : Named α} {name : String} {a : α} (h : b.get? name = some a) :
    (name, a) ∈ b := by
  induction b with
  | nil => simp [get?] at h
  | cons head rest ih =>
      obtain ⟨other, c⟩ := head
      by_cases hn : name = other
      · subst hn
        have hc : c = a := by simpa [get?] using h
        simp [hc]
      · have hn' : (name == other) = false := by simpa using hn
        have hrest : get? rest name = some a := by simpa [get?, List.lookup_cons, hn'] using h
        exact List.mem_cons_of_mem _ (ih hrest)

theorem get?_of_mem {b : Named α} {name : String} {a : α} (hnames : (b.map Prod.fst).Nodup)
    (h : (name, a) ∈ b) : b.get? name = some a := by
  induction b with
  | nil => cases h
  | cons head rest ih =>
      rw [List.map_cons, List.nodup_cons] at hnames
      rcases List.mem_cons.1 h with rfl | hrest
      · simp [get?]
      · have hother : name ≠ head.1 := fun heq => hnames.1 (List.mem_map.2 ⟨_, hrest, heq⟩)
        rw [get?, List.lookup_cons, beq_eq_false_iff_ne.2 hother]
        exact ih hnames.2 hrest

/-- Nothing comes into a list but what is put there. -/
theorem mem_of_mem_insert {b : Named α} {name : String} {a : α} {m : String × α}
    (h : m ∈ b.insert name a) : m = (name, a) ∨ m ∈ b := by
  induction b with
  | nil =>
      rw [insert, List.mem_singleton] at h
      exact .inl h
  | cons head rest ih =>
      obtain ⟨other, c⟩ := head
      rw [insert] at h
      by_cases hn : other = name
      · rw [if_pos hn] at h
        rcases List.mem_cons.1 h with h | h
        · exact .inl h
        · exact .inr (List.mem_cons_of_mem _ h)
      · rw [if_neg hn] at h
        rcases List.mem_cons.1 h with h | h
        · exact .inr (h ▸ List.mem_cons_self)
        · rcases ih h with h | h
          · exact .inl h
          · exact .inr (List.mem_cons_of_mem _ h)

theorem mem_of_mem_insertAll {b more : Named α} {m : String × α} (h : m ∈ b.insertAll more) :
    m ∈ more ∨ m ∈ b := by
  induction more generalizing b with
  | nil => exact .inr h
  | cons head rest ih =>
      rcases ih (b := b.insert head.1 head.2) h with h | h
      · exact .inl (List.mem_cons_of_mem _ h)
      · rcases mem_of_mem_insert h with rfl | h
        · exact .inl List.mem_cons_self
        · exact .inr h

theorem mem_of_mem_ofList {more : List (String × α)} {m : String × α} (h : m ∈ ofList more) :
    m ∈ more := by
  rcases mem_of_mem_insertAll h with h | h
  · exact h
  · simp at h

theorem mem_of_mem_erase {b : Named α} {name : String} {m : String × α} (h : m ∈ b.erase name) :
    m ∈ b :=
  List.mem_of_mem_eraseP h

/-- The names of a list in which one name got a thing. -/
theorem map_fst_insert (b : Named α) (name : String) (a : α) :
    (b.insert name a).map Prod.fst =
      if name ∈ b.map Prod.fst then b.map Prod.fst else b.map Prod.fst ++ [name] := by
  induction b with
  | nil => rfl
  | cons head rest ih =>
      obtain ⟨other, c⟩ := head
      by_cases hother : other = name
      · simp [insert, hother]
      · rw [insert, if_neg hother, List.map_cons, ih, List.map_cons]
        simp only [List.mem_cons, Ne.symm hother, false_or]
        split <;> rfl

theorem nodup_insert {b : Named α} (hnames : (b.map Prod.fst).Nodup) (name : String) (a : α) :
    ((b.insert name a).map Prod.fst).Nodup := by
  rw [map_fst_insert]
  split
  · exact hnames
  · next hnew =>
      refine List.nodup_append.2 ⟨hnames, by simp, fun x hx y hy => ?_⟩
      obtain rfl := List.mem_singleton.1 hy
      exact fun heq => hnew (heq ▸ hx)

theorem nodup_insertAll {b : Named α} (hnames : (b.map Prod.fst).Nodup) (more : Named α) :
    ((b.insertAll more).map Prod.fst).Nodup := by
  induction more generalizing b with
  | nil => exact hnames
  | cons head rest ih => exact ih (nodup_insert hnames head.1 head.2)

/-- A name has what it got, or else what it had. -/
theorem get?_insertAll {b more : Named α} (hnames : (more.map Prod.fst).Nodup) (name : String) :
    (b.insertAll more).get? name = (more.get? name).or (b.get? name) := by
  induction more generalizing b with
  | nil => rfl
  | cons head rest ih =>
      obtain ⟨other, a⟩ := head
      rw [List.map_cons, List.nodup_cons] at hnames
      have hstep : (insertAll b ((other, a) :: rest)).get? name =
          (get? rest name).or ((b.insert other a).get? name) := ih hnames.2
      by_cases hname : name = other
      · subst hname
        have hrest : get? rest name = none := by
          rw [Option.eq_none_iff_forall_ne_some]
          exact fun w hw => hnames.1 (List.mem_map.2 ⟨_, mem_of_get? hw, rfl⟩)
        rw [hstep, hrest, get?_insert_self]
        simp [get?]
      · rw [hstep, get?_insert_of_ne b a hname]
        simp [get?, List.lookup_cons, beq_eq_false_iff_ne.2 hname]

/-- A new name comes last. -/
theorem insert_of_forall_ne {b : Named α} {name : String} (a : α) (h : ∀ m ∈ b, m.1 ≠ name) :
    b.insert name a = b ++ [(name, a)] := by
  induction b with
  | nil => rfl
  | cons head rest ih =>
      rw [insert, if_neg (h head List.mem_cons_self), ih fun m hm => h m (List.mem_cons_of_mem _ hm)]
      rfl

/-- Another name keeps what it has when one is taken out. -/
theorem get?_erase_of_ne (b : Named α) {name name' : String} (h : name' ≠ name) :
    (b.erase name).get? name' = b.get? name' := by
  induction b with
  | nil => rfl
  | cons head rest ih =>
      obtain ⟨other, a⟩ := head
      have hcons : erase ((other, a) :: rest) name =
          bif other == name then rest else (other, a) :: erase rest name := List.eraseP_cons
      rw [hcons]
      unfold get? at *
      by_cases hother : other = name
      · have hne : (name' == name) = false := beq_eq_false_iff_ne.2 h
        rw [hother, beq_self_eq_true, cond_true, List.lookup_cons, hne]
      · rw [beq_eq_false_iff_ne.2 hother, cond_false, List.lookup_cons, List.lookup_cons, ih]

/-- What a name has in a list in which everything was changed. -/
theorem lookup_map {β : Type} (f : α → β) (entries : List (String × α)) (name : String) :
    (entries.map fun (other, a) => (other, f a)).lookup name = (entries.lookup name).map f := by
  induction entries with
  | nil => rfl
  | cons head rest ih =>
      obtain ⟨other, a⟩ := head
      rw [List.map_cons, List.lookup_cons, List.lookup_cons]
      cases name == other with
      | true => rfl
      | false => exact ih

end Stencil.Named
