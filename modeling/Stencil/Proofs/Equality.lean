/-
**Strict equality.**

Two values are strictly equal if they are of the same kind and have the same content.  Arrays are
compared item by item.  Of maps only the one side is walked through: the sizes are compared, and each
member is looked up on the other side.  That this comes to the same from either side is due to the keys
being distinct.  Integers and floats are of one kind and compared as floats, so nothing of what follows
holds where floats occur.

Main definitions:

* `Stencil.Value.Atom`, `Stencil.Value.atom?` — the content of a value without parts;
* `Stencil.Value.Exact` — a value without floats in which the keys of each map are distinct;
* `Stencil.Value.SameContent` — the same content, whatever strings are marked as safe and in whatever
  order the members of maps are.

Main results:

* `Stencil.Value.strictEq_map_iff` — equality of maps, said of both sides alike;
* `Stencil.Value.strictEq_iff` — strictly equal is what has the same content;
* `Stencil.Value.strictEq_equivalence` — **strict equality is an equivalence**.
-/

import Stencil.Proofs.Named
import Stencil.Value.Equality
import Mathlib.Data.List.Perm.Subperm

set_option autoImplicit false

namespace Stencil.Value

/-! ### Content -/

/-- What a value without parts is known by.  A text is known by its characters, a macro and a function
by what they were declared as. -/
inductive Atom where
  | undefined
  | nothing
  | bool (b : Bool)
  | int (n : Int)
  | text (s : String)
  | pattern (source : String)
  | function (number : Nat)
  | callable (number : Nat)
  deriving DecidableEq

/-- What a value is known by, if it has no parts and is no float. -/
def atom? : Value → Option Atom
  | undefined => some .undefined
  | nothing => some .nothing
  | bool b => some (.bool b)
  | int n => some (.int n)
  | string s | safe s => some (.text s)
  | pattern source => some (.pattern source)
  | function number _ => some (.function number)
  | callable declared _ _ => some (.callable declared.number)
  | float _ | array _ | map _ => none

/-- A value in which no float occurs, at whatever depth, and in which the keys of each map are distinct.
What a macro closes over does not count as a part of it. -/
inductive Exact : Value → Prop where
  | atom {v : Value} {x : Atom} (h : v.atom? = some x) : Exact v
  | array {items : List Value} (h : ∀ v ∈ items, Exact v) : Exact (array items)
  | map {members : List (String × Value)} (hkeys : (members.map Prod.fst).Nodup)
      (h : ∀ m ∈ members, Exact m.2) : Exact (map members)

/-- The same content: what has no parts is known by the same, arrays have the same content place by
place, and maps have the same keys, in any order, with the same content at each. -/
inductive SameContent : Value → Value → Prop where
  | atom {a b : Value} {x : Atom} (ha : a.atom? = some x) (hb : b.atom? = some x) : SameContent a b
  | array {as bs : List Value} (hlength : as.length = bs.length)
      (h : ∀ (i : Nat) (v w : Value), as[i]? = some v → bs[i]? = some w → SameContent v w) :
      SameContent (array as) (array bs)
  | map {as bs : List (String × Value)} (hkeys : (as.map Prod.fst).Perm (bs.map Prod.fst))
      (h : ∀ (key : String) (v w : Value), (key, v) ∈ as → (key, w) ∈ bs → SameContent v w) :
      SameContent (map as) (map bs)

variable {a b c : Value}

namespace SameContent

theorem refl (h : a.Exact) : a.SameContent a := by
  induction h with
  | atom h => exact .atom h h
  | array _ ih =>
      refine .array rfl fun i v w hv hw => ?_
      obtain rfl := Option.some.inj (hv.symm.trans hw)
      exact ih v (List.mem_of_getElem? hv)
  | map hkeys _ ih =>
      refine .map (.refl _) fun key v w hv hw => ?_
      obtain rfl : v = w := Option.some.inj <|
        (Named.get?_of_mem hkeys hv).symm.trans (Named.get?_of_mem hkeys hw)
      exact ih _ hv

/-- What has the same content is known by the same, or has parts on both sides. -/
theorem atom?_eq (h : a.SameContent b) : a.atom? = b.atom? := by
  cases h with
  | atom ha hb => exact ha.trans hb.symm
  | array | map => rfl

theorem symm (h : a.SameContent b) : b.SameContent a := by
  induction h with
  | atom ha hb => exact .atom hb ha
  | array hlength _ ih => exact .array hlength.symm fun i v w hv hw => ih i w v hw hv
  | map hkeys _ ih => exact .map hkeys.symm fun key v w hv hw => ih key w v hw hv

theorem trans (h : a.SameContent b) (h' : b.SameContent c) : a.SameContent c := by
  induction h generalizing c with
  | atom ha hb =>
      cases h' with
      | atom hb' hc => exact .atom ha (hb.symm.trans hb' ▸ hc)
      | array | map => cases hb
  | @array as bs hlength h ih =>
      cases h' with
      | atom hb => cases hb
      | @array _ cs hlength' h' =>
          refine .array (hlength.trans hlength') fun i v w hv hw => ?_
          have hi : i < bs.length := hlength ▸ (List.getElem?_eq_some_iff.1 hv).1
          have hmiddle : bs[i]? = some bs[i] := List.getElem?_eq_getElem hi
          exact ih i v _ hv hmiddle (h' i _ w hmiddle hw)
  | @map as bs hkeys h ih =>
      cases h' with
      | atom hb => cases hb
      | @map _ cs hkeys' h' =>
          refine .map (hkeys.trans hkeys') fun key v w hv hw => ?_
          have hkey : key ∈ bs.map Prod.fst := hkeys.subset (List.mem_map_of_mem hv)
          obtain ⟨⟨_, u⟩, hmiddle, rfl⟩ := List.mem_map.1 hkey
          exact ih _ v u hv hmiddle (h' _ u w hmiddle hw)

end SameContent

/-! ### What is compared -/

/-- Values without parts are equal if they are known by the same. -/
theorem strictEq_atom_iff {x y : Atom} (ha : a.atom? = some x) (hb : b.atom? = some y) :
    strictEq a b = true ↔ x = y := by
  cases a <;> cases ha <;> cases b <;> cases hb <;> simp [strictEq]

theorem strictEqItems_iff {as bs : List Value} :
    strictEqItems as bs = true ↔ as.length = bs.length ∧
      ∀ (i : Nat) (v w : Value), as[i]? = some v → bs[i]? = some w → strictEq v w = true := by
  induction as generalizing bs with
  | nil => cases bs <;> simp [strictEqItems]
  | cons a as ih =>
      cases bs with
      | nil => simp [strictEqItems]
      | cons b bs =>
          rw [strictEqItems, Bool.and_eq_true, ih, List.length_cons, List.length_cons,
            Nat.succ_inj]
          constructor
          · rintro ⟨hab, hlength, h⟩
            refine ⟨hlength, fun i v w hv hw => ?_⟩
            cases i with
            | zero =>
                obtain rfl : a = v := Option.some.inj hv
                obtain rfl : b = w := Option.some.inj hw
                exact hab
            | succ i => exact h i v w hv hw
          · rintro ⟨hlength, h⟩
            exact ⟨h 0 a b rfl rfl, hlength, fun i => h (i + 1)⟩

theorem strictEqMembers_iff {as bs : List (String × Value)} :
    strictEqMembers as bs = true ↔
      ∀ m ∈ as, ∃ w, Named.get? bs m.1 = some w ∧ strictEq m.2 w = true := by
  induction as with
  | nil => simp [strictEqMembers]
  | cons m as ih =>
      rw [strictEqMembers, Bool.and_eq_true, ih, List.forall_mem_cons]
      refine and_congr_left fun _ => ?_
      rw [Named.get?]
      cases bs.lookup m.1 <;> simp

/-- Maps with distinct keys are equal if they have the same keys and are equal at each: as many distinct
keys as on the other side that are all found there are all that are there. -/
theorem strictEq_map_iff {as bs : List (String × Value)} (ha : (as.map Prod.fst).Nodup)
    (hb : (bs.map Prod.fst).Nodup) :
    strictEq (map as) (map bs) = true ↔ (as.map Prod.fst).Perm (bs.map Prod.fst) ∧
      ∀ (key : String) (v w : Value), (key, v) ∈ as → (key, w) ∈ bs → strictEq v w = true := by
  rw [strictEq, Bool.and_eq_true, beq_iff_eq, strictEqMembers_iff]
  constructor
  · rintro ⟨hlength, h⟩
    have hsubset : as.map Prod.fst ⊆ bs.map Prod.fst := by
      intro key hkey
      obtain ⟨m, hm, rfl⟩ := List.mem_map.1 hkey
      obtain ⟨w, hw, -⟩ := h m hm
      exact List.mem_map.2 ⟨_, Named.mem_of_get? hw, rfl⟩
    refine ⟨(List.subperm_of_subset ha hsubset).perm_of_length_le (by simp [hlength]),
      fun key v w hv hw => ?_⟩
    obtain ⟨w', hw', heq⟩ := h _ hv
    obtain rfl : w = w' := Option.some.inj ((Named.get?_of_mem hb hw).symm.trans hw')
    exact heq
  · rintro ⟨hkeys, h⟩
    refine ⟨by simpa using hkeys.length_eq, fun m hm => ?_⟩
    have hkey : m.1 ∈ bs.map Prod.fst := hkeys.subset (List.mem_map_of_mem hm)
    obtain ⟨⟨key, w⟩, hw, hname⟩ := List.mem_map.1 hkey
    obtain rfl : key = m.1 := hname
    exact ⟨w, Named.get?_of_mem hb hw, h _ _ w hm hw⟩

/-! ### Strict equality -/

/-- Strictly equal is what has the same content. -/
theorem strictEq_iff (ha : a.Exact) (hb : b.Exact) : strictEq a b = true ↔ a.SameContent b := by
  -- By induction on the one value, for every other.  Where only one of them has parts, neither side holds.
  induction ha generalizing b with
  | @atom a x ha =>
      cases hb with
      | atom hb =>
          rw [strictEq_atom_iff ha hb]
          exact ⟨fun h => .atom ha (h ▸ hb),
            fun h => Option.some.inj (ha.symm.trans (h.atom?_eq.trans hb))⟩
      | array | map =>
          refine iff_of_false ?_ fun h => nomatch ha.symm.trans h.atom?_eq
          cases a <;> cases ha <;> simp [strictEq]
  | array _ ih =>
      cases hb with
      | atom hb =>
          refine iff_of_false ?_ fun h => nomatch h.atom?_eq.trans hb
          cases b <;> cases hb <;> simp [strictEq]
      | map => exact iff_of_false (by simp [strictEq]) (by rintro (ha | - | -); cases ha)
      | @array bs hbs =>
          rw [strictEq, strictEqItems_iff]
          refine ⟨fun ⟨hlength, h⟩ => .array hlength fun i v w hv hw => ?_, fun h => ?_⟩
          · exact (ih v (List.mem_of_getElem? hv) (hbs w (List.mem_of_getElem? hw))).1 (h i v w hv hw)
          · cases h with
            | atom ha => cases ha
            | array hlength h =>
                refine ⟨hlength, fun i v w hv hw => ?_⟩
                exact (ih v (List.mem_of_getElem? hv) (hbs w (List.mem_of_getElem? hw))).2
                  (h i v w hv hw)
  | map hkeys _ ih =>
      cases hb with
      | atom hb =>
          refine iff_of_false ?_ fun h => nomatch h.atom?_eq.trans hb
          cases b <;> cases hb <;> simp [strictEq]
      | array => exact iff_of_false (by simp [strictEq]) (by rintro (ha | - | -); cases ha)
      | map hkeys' hbs =>
          rw [strictEq_map_iff hkeys hkeys']
          refine ⟨fun ⟨hperm, h⟩ => .map hperm fun key v w hv hw => ?_, fun h => ?_⟩
          · exact (ih _ hv (hbs _ hw)).1 (h key v w hv hw)
          · cases h with
            | atom ha => cases ha
            | map hperm h => exact ⟨hperm, fun key v w hv hw => (ih _ hv (hbs _ hw)).2 (h key v w hv hw)⟩

/-- **Strict equality is an equivalence** on values without floats.  What it tells apart is the content at
every depth, and nothing but the content: neither whether a string is marked as safe nor the order of the
members of a map counts, wherever in the values they stand. -/
theorem strictEq_equivalence (ha : a.Exact) (hb : b.Exact) (hc : c.Exact) :
    strictEq a a = true ∧ strictEq a b = strictEq b a ∧
      (strictEq a b = true → strictEq b c = true → strictEq a c = true) ∧
      (strictEq a b = true ↔ a.SameContent b) := by
  refine ⟨(strictEq_iff ha ha).2 (.refl ha), ?_, fun hab hbc => ?_, strictEq_iff ha hb⟩
  · rw [Bool.eq_iff_iff, strictEq_iff ha hb, strictEq_iff hb ha]
    exact ⟨.symm, .symm⟩
  · exact (strictEq_iff ha hc).2 (((strictEq_iff ha hb).1 hab).trans ((strictEq_iff hb hc).1 hbc))

/-- A record with a map inside of an array. -/
def record : Value :=
  map [("title", string "<b>"), ("rows", array [map [("n", int 1), ("of", nothing)], safe "&"])]

/-- The same record with its members in another order and other strings marked as safe. -/
def recordReordered : Value :=
  map [("rows", array [map [("of", nothing), ("n", int 1)], string "&"]), ("title", safe "<b>")]

/-- The same record with its rows in another order. -/
def recordReversed : Value :=
  map [("title", string "<b>"), ("rows", array [safe "&", map [("n", int 1), ("of", nothing)]])]

/-- The order counts in arrays and does not in maps. -/
theorem strictEq_equivalence_of_reordered :
    record.Exact ∧ recordReordered.Exact ∧ recordReversed.Exact ∧
      record.SameContent recordReordered ∧ ¬record.SameContent recordReversed ∧
      strictEq recordReordered record = true := by
  have hrow : (map [("n", int 1), ("of", nothing)]).Exact :=
    .map (by decide) (by simpa using ⟨Exact.atom rfl, Exact.atom rfl⟩)
  have hrow' : (map [("of", nothing), ("n", int 1)]).Exact :=
    .map (by decide) (by simpa using ⟨Exact.atom rfl, Exact.atom rfl⟩)
  have hrecord : record.Exact :=
    .map (by decide) (by simpa using ⟨.atom rfl, .array (by simpa using ⟨hrow, .atom rfl⟩)⟩)
  have hreordered : recordReordered.Exact :=
    .map (by decide) (by simpa using ⟨.array (by simpa using ⟨hrow', .atom rfl⟩), .atom rfl⟩)
  have hreversed : recordReversed.Exact :=
    .map (by decide) (by simpa using ⟨.atom rfl, .array (by simpa using ⟨.atom rfl, hrow⟩)⟩)
  obtain ⟨-, hsymm, -, hcontent⟩ := strictEq_equivalence hrecord hreordered hreversed
  obtain ⟨-, -, -, hreversal⟩ := strictEq_equivalence hrecord hreversed hreordered
  have hequal : strictEq record recordReordered = true := by decide +kernel
  have hunequal : strictEq record recordReversed = false := by decide +kernel
  refine ⟨hrecord, hreordered, hreversed, hcontent.1 hequal, fun h => ?_, hsymm.symm.trans hequal⟩
  exact Bool.false_ne_true (hunequal.symm.trans (hreversal.2 h))

end Stencil.Value
