/-
**Relative names.**

A relative name is resolved against the template that uses it.  The segments of the template's name, without
the last one, are a stack; the segments of the relative name are entered one after the other, and `..` takes
the innermost one away, if there is one.  So long as the name of the template is made of ordinary segments,
the stack holds ordinary segments only, and what it is joined to can be split again: resolving a name
against it goes on where the stack stood before the last segment came.

Main definitions:

* `Stencil.Loader.IsOrdinary`, `Stencil.Loader.IsNormal` — a segment that is a name, and a name made of such;
* `Stencil.Loader.segments`, `Stencil.Loader.joined` — a name as its segments, and back;
* `Stencil.Loader.folder` — a name without its last segment;
* `Stencil.Loader.reached` — the segments reached from the folder of a template.

Main results:

* `Stencil.Loader.segments_joined` — joined segments are split again;
* `Stencil.Loader.resolvePath_eq` — what a resolved name is joined from;
* `Stencil.Loader.resolvePath_inside`, `Stencil.Loader.resolvePath_outwards` — names inside of a folder, and
  one step out of it;
* `Stencil.Loader.resolvePath_composes` — **resolving normalises, stays inside, and composes**.
-/

import Stencil.Loader

set_option autoImplicit false

namespace Stencil

/-! ### Segments -/

namespace Text

theorem splitOn_eq (c : Char) (s : List Char) : splitOn c s = s.splitOn c := by
  induction s with
  | nil => rw [splitOn, List.splitOn_nil]
  | cons d s ih =>
      rw [splitOn, List.splitOn_cons_eq_if_modifyHead, ih]
      by_cases h : d = c
      · simp [h]
      · have hne := List.splitOn_ne_nil c s
        cases hs : s.splitOn c with
        | nil => exact absurd hs hne
        | cons segment rest => simp [h]

/-- No segment holds the character between segments. -/
theorem notMem_of_mem_splitOn {c : Char} {s segment : List Char} (h : segment ∈ splitOn c s) :
    c ∉ segment := by
  induction s generalizing segment with
  | nil =>
      rw [splitOn, List.mem_singleton] at h
      simp [h]
  | cons d s ih =>
      rw [splitOn] at h
      split at h
      · rcases List.mem_cons.1 h with rfl | h
        · exact List.not_mem_nil
        · exact ih h
      · next hd =>
          cases hs : splitOn c s with
          | nil =>
              rw [hs, List.mem_singleton] at h
              simp [h, Ne.symm hd]
          | cons first rest =>
              rw [hs] at h ih
              rcases List.mem_cons.1 h with rfl | h
              · simpa [Ne.symm hd] using ih List.mem_cons_self
              · exact ih (List.mem_cons_of_mem _ h)

theorem toList_joinWith (separator : String) (texts : List String) :
    (joinWith separator texts).toList = separator.toList.intercalate (texts.map String.toList) := by
  induction texts with
  | nil => rfl
  | cons s texts ih =>
      cases texts with
      | nil => simp [joinWith, List.intercalate]
      | cons t texts => simp [joinWith, ih, List.intercalate_cons_cons]

end Text

namespace Loader

/-- A segment that is a name: it is not empty and does not stand for a folder. -/
def IsOrdinary (segment : List Char) : Prop :=
  segment ≠ [] ∧ segment ≠ ['.'] ∧ segment ≠ ['.', '.']

instance : DecidablePred IsOrdinary := fun _ => inferInstanceAs (Decidable (_ ∧ _ ∧ _))

/-- The segments of a name. -/
def segments (name : String) : List (List Char) := Text.splitOn '/' name.toList

/-- Segments as a name. -/
def joined (path : List (List Char)) : String := Text.joinWith "/" (path.map String.ofList)

/-- A name that is made of ordinary segments. -/
def IsNormal (name : String) : Prop := ∀ segment ∈ segments name, IsOrdinary segment

/-- A name without its last segment. -/
def folder (name : String) : String := joined (segments name).dropLast

/-- The segments reached by those of a name from the folder of a template. -/
def reached (parent name : String) : List (List Char) :=
  ((segments name).foldl enter (segments parent).dropLast.reverse).reverse

theorem segments_ne_nil (name : String) : segments name ≠ [] := by
  rw [segments, Text.splitOn_eq]
  exact List.splitOn_ne_nil '/' _

theorem toList_joined (path : List (List Char)) : (joined path).toList = ['/'].intercalate path := by
  rw [joined, Text.toList_joinWith]
  simp [Function.comp_def]

/-- Joined segments are split again. -/
theorem segments_joined {path : List (List Char)} (hslash : ∀ segment ∈ path, '/' ∉ segment)
    (hne : path ≠ []) : segments (joined path) = path := by
  rw [segments, Text.splitOn_eq, toList_joined]
  exact List.splitOn_intercalate '/' hslash hne

theorem segments_append (front back : String) :
    segments (front ++ "/" ++ back) = segments front ++ segments back := by
  have htext : (front ++ "/" ++ back).toList = front.toList ++ '/' :: back.toList := by simp
  simp only [segments, Text.splitOn_eq, htext]
  exact List.splitOn_append_cons_self ..

/-! ### Entering segments -/

@[simp] theorem enter_ordinary {segment : List Char} (h : IsOrdinary segment)
    (stack : List (List Char)) : enter stack segment = segment :: stack := by
  simp [enter, h.1, h.2.1, h.2.2]

/-- Nothing is entered but ordinary segments. -/
theorem mem_enter {stack : List (List Char)} {segment s : List Char} (h : s ∈ enter stack segment) :
    s ∈ stack ∨ s = segment ∧ IsOrdinary s := by
  rw [enter] at h
  split at h
  · exact .inl h
  · next hhere =>
      rw [not_or] at hhere
      split at h
      · exact .inl (List.mem_of_mem_drop h)
      · next hout =>
          rcases List.mem_cons.1 h with rfl | h
          · exact .inr ⟨rfl, hhere.1, hhere.2, hout⟩
          · exact .inl h

theorem mem_foldl_enter {path stack : List (List Char)} {s : List Char}
    (h : s ∈ path.foldl enter stack) : s ∈ stack ∨ s ∈ path ∧ IsOrdinary s := by
  induction path generalizing stack with
  | nil => exact .inl h
  | cons segment path ih =>
      rcases ih h with h | ⟨h, hs⟩
      · rcases mem_enter h with h | ⟨rfl, hs⟩
        · exact .inl h
        · exact .inr ⟨List.mem_cons_self, hs⟩
      · exact .inr ⟨List.mem_cons_of_mem _ h, hs⟩

theorem foldl_enter_ordinary {path : List (List Char)} (h : ∀ s ∈ path, IsOrdinary s)
    (stack : List (List Char)) : path.foldl enter stack = path.reverse ++ stack := by
  induction path generalizing stack with
  | nil => rfl
  | cons segment path ih =>
      obtain ⟨hsegment, hpath⟩ := List.forall_mem_cons.1 h
      rw [List.foldl_cons, enter_ordinary hsegment, ih hpath]
      simp

/-! ### Resolved names -/

variable {parent name : String}

theorem mem_reached (hparent : IsNormal parent) {s : List Char} (h : s ∈ reached parent name) :
    IsOrdinary s ∧ '/' ∉ s := by
  rcases mem_foldl_enter (List.mem_reverse.1 h) with h | ⟨h, hs⟩
  · have hs := List.dropLast_subset _ (List.mem_reverse.1 h)
    exact ⟨hparent s hs, Text.notMem_of_mem_splitOn hs⟩
  · exact ⟨hs, Text.notMem_of_mem_splitOn h⟩

/-- What a resolved name is joined from.  That empty segments are left out matters only if the template's
name has some. -/
theorem resolvePath_eq_filter (parent name : String) :
    resolvePath parent name =
      joined ((reached parent name).filter fun segment => !segment.isEmpty) := by
  have hstack : (segments parent).reverse.drop 1 = (segments parent).dropLast.reverse := by simp
  rw [reached, ← hstack]
  rfl

theorem resolvePath_eq (hparent : IsNormal parent) (name : String) :
    resolvePath parent name = joined (reached parent name) := by
  rw [resolvePath_eq_filter, List.filter_eq_self.2]
  exact fun s hs => by simpa using (mem_reached hparent hs).1.1

/-- A name of ordinary segments is found in the folder of the template. -/
theorem resolvePath_inside (hparent : IsNormal parent) (hname : IsNormal name) :
    resolvePath parent name = joined ((segments parent).dropLast ++ segments name) := by
  rw [resolvePath_eq hparent, reached, foldl_enter_ordinary hname]
  simp

/-- The segments of a folder are those of the name without the last one, and if that leaves none, a single
one with nothing in it. -/
theorem segments_folder (name : String) :
    segments (folder name) = if (segments name).dropLast = [] then [[]] else (segments name).dropLast := by
  split
  · next hnone =>
      rw [folder, hnone]
      rfl
  · next hsome =>
      refine segments_joined (fun s hs => ?_) hsome
      exact Text.notMem_of_mem_splitOn (List.dropLast_subset _ hs)

/-- Entering a folder is entering the segments of the name but for the last one. -/
theorem foldl_enter_folder (name : String) (stack : List (List Char)) :
    (segments (folder name)).foldl enter stack = (segments name).dropLast.foldl enter stack := by
  rw [segments_folder]
  split
  · next hnone => simp [hnone, enter]
  · rfl

/-- A step out of the folder of a template is a step into the folder of its folder. -/
theorem resolvePath_outwards (parent name : String) :
    resolvePath parent (".." ++ "/" ++ name) = resolvePath (folder parent) name := by
  have hout : segments ".." = [['.', '.']] := by decide +kernel
  have hstack : enter (segments parent).dropLast.reverse ['.', '.'] =
      (segments (folder parent)).dropLast.reverse := by
    rw [segments_folder]
    split
    · next hnone => simp [hnone, enter]
    · simp [enter]
  have hreached : reached parent (".." ++ "/" ++ name) = reached (folder parent) name := by
    rw [reached, segments_append, hout, List.singleton_append, List.foldl_cons, hstack, reached]
  rw [resolvePath_eq_filter, hreached, ← resolvePath_eq_filter]

/-- What is reached by a name with an ordinary last segment: this segment, in what is reached before it. -/
theorem reached_last (parent : String) {last : List Char} (hlast : last ∈ (segments name).getLast?)
    (hordinary : IsOrdinary last) :
    reached parent name = ((segments name).dropLast.foldl enter
      (segments parent).dropLast.reverse).reverse ++ [last] := by
  obtain ⟨front, hname⟩ := List.getLast?_eq_some_iff.1 hlast
  rw [reached, hname, List.foldl_append, List.dropLast_concat]
  simp [enter_ordinary hordinary]

/-- A resolved name is normal, unless it is that of the root. -/
theorem resolvePath_normal (hparent : IsNormal parent) (hreached : reached parent name ≠ []) :
    segments (resolvePath parent name) = reached parent name ∧ IsNormal (resolvePath parent name) := by
  have hsegments : segments (resolvePath parent name) = reached parent name := by
    rw [resolvePath_eq hparent]
    exact segments_joined (fun s hs => (mem_reached hparent hs).2) hreached
  refine ⟨hsegments, fun s hs => ?_⟩
  rw [hsegments] at hs
  exact (mem_reached hparent hs).1

/-- Joined segments do not start with a slash. -/
theorem head?_joined {path : List (List Char)} (h : ∀ s ∈ path, IsOrdinary s ∧ '/' ∉ s) :
    (joined path).toList.head? ≠ some '/' := by
  rw [toList_joined]
  cases path with
  | nil => simp [List.intercalate]
  | cons first rest =>
      obtain ⟨⟨hne, -⟩, hslash⟩ := h first List.mem_cons_self
      obtain ⟨c, more, rfl⟩ := List.exists_cons_of_ne_nil hne
      have hc : c ≠ '/' := fun heq => hslash (heq ▸ List.mem_cons_self)
      cases rest <;> simp [List.intercalate_cons_cons, hc]

/-- **Resolving normalises, stays inside, and composes.**  Against a template whose name is made of ordinary
segments, every name is resolved to ordinary segments, so that nothing leads out above the root.  And
resolving against a resolved name is resolving in one step, from the folder of the first name on. -/
theorem resolvePath_composes (hparent : IsNormal parent) :
    (∀ name, ∃ path, resolvePath parent name = joined path ∧
      (∀ segment ∈ path, IsOrdinary segment ∧ '/' ∉ segment) ∧
      (resolvePath parent name).toList.head? ≠ some '/') ∧
    ∀ a b, (∀ last ∈ (segments a).getLast?, IsOrdinary last) →
      resolvePath (resolvePath parent a) b = resolvePath parent (folder a ++ "/" ++ b) := by
  refine ⟨fun name => ⟨reached parent name, resolvePath_eq hparent name, fun s => mem_reached hparent, ?_⟩,
    fun a b hordinary => ?_⟩
  · rw [resolvePath_eq hparent]
    exact head?_joined fun s => mem_reached hparent
  have hlast : (segments a).getLast (segments_ne_nil a) ∈ (segments a).getLast? :=
    List.getLast?_eq_some_getLast _
  have hreached := reached_last parent hlast (hordinary _ hlast)
  have hsome : reached parent a ≠ [] := by simp [hreached]
  obtain ⟨hsegments, hnormal⟩ := resolvePath_normal hparent hsome
  calc resolvePath (resolvePath parent a) b
      = joined (reached (resolvePath parent a) b) := resolvePath_eq hnormal b
    _ = joined (reached parent (folder a ++ "/" ++ b)) := by
        -- Without the last segment of `a` the stack is as it was before that segment came.
        rw [reached, hsegments, hreached, List.dropLast_concat, List.reverse_reverse, reached,
          segments_append, List.foldl_append, foldl_enter_folder]
    _ = resolvePath parent (folder a ++ "/" ++ b) := (resolvePath_eq hparent _).symm

/-- Out of a folder, into others, and out above the root. -/
theorem resolvePath_composes_upwards : IsNormal "pages/blog/post" ∧
    (∀ last ∈ (segments "..//./shop/../cart/item").getLast?, IsOrdinary last) ∧
    resolvePath "pages/blog/post" "..//./shop/../cart/item" = "pages/cart/item" ∧
    resolvePath (resolvePath "pages/blog/post" "..//./shop/../cart/item") "../../../x" =
      resolvePath "pages/blog/post" (folder "..//./shop/../cart/item" ++ "/" ++ "../../../x") ∧
    resolvePath (resolvePath "pages/blog/post" "..//./shop/../cart/item") "../../../x" = "x" := by
  have hparent : IsNormal "pages/blog/post" := by
    unfold IsNormal
    decide +kernel
  have hlast : ∀ last ∈ (segments "..//./shop/../cart/item").getLast?, IsOrdinary last := by
    decide +kernel
  exact ⟨hparent, hlast, by decide +kernel, (resolvePath_composes hparent).2 _ _ hlast, by decide +kernel⟩

end Loader

end Stencil
