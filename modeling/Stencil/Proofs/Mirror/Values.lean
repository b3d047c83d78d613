/-
**Values that are alike.**

A value holds a tree only as the body or a default of a macro.  Two values are alike if they are
the same but for the trees in their macros, and these are related.  No operator looks into a
macro, so operators take values that are alike to values that are alike.

Main definitions:

* `Stencil.MacroDef.Alike`, `Stencil.Value.Alike`, `Stencil.Bindings.Alike` — macros, values and
  names bound to values that are alike;
* `Stencil.CallArgs.Alike`, `Stencil.Answer.Alike` — arguments and answers that are alike.

Main results:

* `Stencil.Value.Alike.text`, `Stencil.Value.Alike.strictEq` — what is read off values that are
  alike is the same;
* `Stencil.Value.Alike.member`, `Stencil.Value.Alike.strictOperator`, `Stencil.Value.Alike.slice` —
  what operators give is alike;
* `Stencil.Value.Alike.eq` — values that are alike for equal trees are equal.
-/

import Mathlib.Data.List.Forall2
import Stencil.Proofs.Logic.Policy

set_option autoImplicit false

namespace Stencil

/-- Two macros that are the same but for the trees in them. -/
structure MacroDef.Alike (R : Node → Node → Prop) (d d' : MacroDef) : Prop where
  number : d'.number = d.number
  name : d'.name = d.name
  parameters : d'.parameters = d.parameters
  defaults : List.Forall₂ (fun e e' : String × Node => e'.1 = e.1 ∧ R e.2 e'.2) d.defaults
    d'.defaults
  body : R d.body d'.body
  template : d'.template = d.template
  isCaller : d'.isCaller = d.isCaller

/-- Whether a value holds no other value. -/
def Value.isFlat : Value → Bool
  | .array _ | .map _ | .callable _ _ _ => false
  | _ => true

/-- Two values that are the same but for the trees in their macros. -/
inductive Value.Alike (R : Node → Node → Prop) : Value → Value → Prop
  | flat {v : Value} (h : v.isFlat = true) : Alike R v v
  | array {items items' : List Value} (hlength : items.length = items'.length)
    (h : ∀ p ∈ items.zip items', Alike R p.1 p.2) : Alike R (.array items) (.array items')
  | map {members members' : List (String × Value)}
    (hnames : members'.map Prod.fst = members.map Prod.fst)
    (h : ∀ p ∈ members.zip members', Alike R p.1.2 p.2.2) : Alike R (.map members) (.map members')
  | callable {d d' : MacroDef} {closure closure' scope scope' : Option (List (String × Value))}
    (hd : d.Alike R d')
    (hclosure : closure'.map (List.map Prod.fst) = closure.map (List.map Prod.fst))
    (hscope : scope'.map (List.map Prod.fst) = scope.map (List.map Prod.fst))
    (hinner : ∀ b b', closure = some b → closure' = some b' → ∀ p ∈ b.zip b', Alike R p.1.2 p.2.2)
    (houter : ∀ b b', scope = some b → scope' = some b' → ∀ p ∈ b.zip b', Alike R p.1.2 p.2.2) :
    Alike R (.callable d closure scope) (.callable d' closure' scope')

/-- The same names bound to values that are alike. -/
def Bindings.Alike (R : Node → Node → Prop) (b b' : Bindings) : Prop :=
  List.Forall₂ (fun m m' : String × Value => m'.1 = m.1 ∧ m.2.Alike R m'.2) b b'

/-- Arguments that are alike. -/
structure CallArgs.Alike (R : Node → Node → Prop) (args args' : CallArgs) : Prop where
  positional : List.Forall₂ (Value.Alike R) args.positional args'.positional
  keywords : Bindings.Alike R args.keywords args'.keywords

variable {R : Node → Node → Prop}

/-- Members with the same names and related values, by the names and by the values. -/
theorem forall₂_members_iff {Q : Value → Value → Prop} {b b' : Bindings} :
    List.Forall₂ (fun m m' : String × Value => m'.1 = m.1 ∧ Q m.2 m'.2) b b' ↔
      b'.map Prod.fst = b.map Prod.fst ∧ ∀ p ∈ b.zip b', Q p.1.2 p.2.2 := by
  constructor
  · intro h
    induction h with
    | nil => simp
    | cons h _ ih =>
        refine ⟨by simp [h.1, ih.1], fun p hp => ?_⟩
        rcases List.mem_cons.1 hp with rfl | hp
        · exact h.2
        · exact ih.2 p hp
  · rintro ⟨hnames, h⟩
    induction b generalizing b' with
    | nil =>
        obtain rfl : b' = [] := by simpa using hnames
        exact .nil
    | cons m b ih =>
        cases b' with
        | nil => simp at hnames
        | cons m' b' =>
            simp only [List.map_cons, List.cons.injEq] at hnames
            refine .cons ⟨hnames.1, h (m, m') (by simp)⟩ (ih hnames.2 fun p hp => h p ?_)
            exact List.mem_cons_of_mem _ hp

/-- The same for members that may be missing as a whole. -/
theorem optionRel_members_iff {Q : Value → Value → Prop} {o o' : Option Bindings} :
    Option.Rel (List.Forall₂ fun m m' : String × Value => m'.1 = m.1 ∧ Q m.2 m'.2) o o' ↔
      o'.map (List.map Prod.fst) = o.map (List.map Prod.fst) ∧
        ∀ b b', o = some b → o' = some b' → ∀ p ∈ b.zip b', Q p.1.2 p.2.2 := by
  constructor
  · intro h
    cases h with
    | none => exact ⟨rfl, by simp⟩
    | some h =>
        obtain ⟨hnames, h⟩ := forall₂_members_iff.1 h
        refine ⟨congrArg some hnames, ?_⟩
        rintro b b' ⟨⟩ ⟨⟩
        exact h
  · rintro ⟨hnames, h⟩
    cases o <;> cases o'
    · exact .none
    · cases hnames
    · cases hnames
    · exact .some (forall₂_members_iff.2 ⟨Option.some.inj hnames, h _ _ rfl rfl⟩)

/-! ### What values hold -/

namespace Value.Alike

variable {v v' w w' : Value}

theorem ofItems {items items' : List Value} (h : List.Forall₂ (Value.Alike R) items items') :
    (Value.array items).Alike R (.array items') := by
  obtain ⟨hlength, h⟩ := List.forall₂_iff_zip.1 h
  exact .array hlength fun p hp => h hp

theorem ofMembers {members members' : Bindings} (h : Bindings.Alike R members members') :
    (Value.map members).Alike R (.map members') := by
  obtain ⟨hnames, h⟩ := forall₂_members_iff.1 h
  exact .map hnames h

theorem ofCallable {d d' : MacroDef} {closure closure' scope scope' : Option Bindings}
    (hd : d.Alike R d') (hclosure : Option.Rel (Bindings.Alike R) closure closure')
    (hscope : Option.Rel (Bindings.Alike R) scope scope') :
    (Value.callable d closure scope).Alike R (.callable d' closure' scope') := by
  obtain ⟨hclosure, hinner⟩ := optionRel_members_iff.1 hclosure
  obtain ⟨hscope, houter⟩ := optionRel_members_iff.1 hscope
  exact .callable hd hclosure hscope hinner houter

/-- What holds of two values that are alike if it holds of what they hold, holds of all. -/
theorem induction {motive : ∀ v v' : Value, v.Alike R v' → Prop}
    (flat : ∀ v h, motive v v (.flat h))
    (array : ∀ items items' (h : List.Forall₂ (Value.Alike R) items items'),
      List.Forall₂ (fun v v' => ∃ h, motive v v' h) items items' →
        motive (.array items) (.array items') (ofItems h))
    (map : ∀ b b' (h : Bindings.Alike R b b'),
      List.Forall₂ (fun m m' => m'.1 = m.1 ∧ ∃ h, motive m.2 m'.2 h) b b' →
        motive (.map b) (.map b') (ofMembers h))
    (callable : ∀ d d' closure closure' scope scope' (hd : d.Alike R d')
      (hclosure : Option.Rel (Bindings.Alike R) closure closure')
      (hscope : Option.Rel (Bindings.Alike R) scope scope'),
      Option.Rel (List.Forall₂ fun m m' => m'.1 = m.1 ∧ ∃ h, motive m.2 m'.2 h) closure closure' →
      Option.Rel (List.Forall₂ fun m m' => m'.1 = m.1 ∧ ∃ h, motive m.2 m'.2 h) scope scope' →
        motive (.callable d closure scope) (.callable d' closure' scope')
          (ofCallable hd hclosure hscope))
    {v v' : Value} (h : v.Alike R v') : motive v v' h := by
  induction h with
  | flat h => exact flat _ h
  | array hlength h ih =>
      exact array _ _ (List.forall₂_iff_zip.2 ⟨hlength, fun hp => h _ hp⟩)
        (List.forall₂_iff_zip.2 ⟨hlength, fun hp => ⟨_, ih _ hp⟩⟩)
  | map hnames h ih =>
      exact map _ _ (forall₂_members_iff.2 ⟨hnames, h⟩)
        ((forall₂_members_iff (Q := fun v v' => ∃ h, motive v v' h)).2
          ⟨hnames, fun p hp => ⟨_, ih p hp⟩⟩)
  | callable hd hclosure hscope hinner houter ihinner ihouter =>
      exact callable _ _ _ _ _ _ hd (optionRel_members_iff.2 ⟨hclosure, hinner⟩)
        (optionRel_members_iff.2 ⟨hscope, houter⟩)
        ((optionRel_members_iff (Q := fun v v' => ∃ h, motive v v' h)).2
          ⟨hclosure, fun b b' hb hb' p hp => ⟨_, ihinner b b' hb hb' p hp⟩⟩)
        ((optionRel_members_iff (Q := fun v v' => ∃ h, motive v v' h)).2
          ⟨hscope, fun b b' hb hb' p hp => ⟨_, ihouter b b' hb hb' p hp⟩⟩)

end Value.Alike

/-- Lists of things that are equal one by one are equal. -/
theorem eq_of_forall₂ {α : Type} {Q : α → α → Prop} (hQ : ∀ a a', Q a a' → a' = a)
    {as as' : List α} (h : List.Forall₂ Q as as') : as' = as := by
  induction h with
  | nil => rfl
  | cons h _ ih => rw [ih, hQ _ _ h]

theorem eq_of_optionRel {α : Type} {Q : α → α → Prop} (hQ : ∀ a a', Q a a' → a' = a)
    {o o' : Option α} (h : Option.Rel Q o o') : o' = o := by
  cases h with
  | none => rfl
  | some h => rw [hQ _ _ h]

/-- Where each tree is related to itself, each macro is alike to itself. -/
theorem MacroDef.Alike.refl (hR : ∀ n, R n n) (d : MacroDef) : d.Alike R d :=
  ⟨rfl, rfl, rfl, List.forall₂_same.2 fun _ _ => ⟨rfl, hR _⟩, hR _, rfl, rfl⟩

/-- Where trees are related only if they are equal, macros are alike only if they are. -/
theorem MacroDef.Alike.eq (hR : ∀ n n', R n n' → n' = n) {d d' : MacroDef} (h : d.Alike R d') :
    d' = d := by
  obtain ⟨hnumber, hname, hparameters, hdefaults, hbody, htemplate, hcaller⟩ := h
  have hdefaults' := eq_of_forall₂ (fun _ _ h => Prod.ext h.1 (hR _ _ h.2)) hdefaults
  have hbody' := hR _ _ hbody
  cases d
  cases d'
  simp only [MacroDef.mk.injEq]
  exact ⟨hnumber, hname, hparameters, hdefaults', hbody', htemplate, hcaller⟩

namespace Value.Alike

variable {v v' w w' : Value}

/-- Where trees are related only if they are equal, values are alike only if they are. -/
theorem eq (hR : ∀ n n', R n n' → n' = n) (h : v.Alike R v') : v' = v := by
  have hmembers : ∀ {b b' : Bindings}, List.Forall₂ (fun m m' : String × Value =>
      m'.1 = m.1 ∧ ∃ _ : m.2.Alike R m'.2, m'.2 = m.2) b b' → b' = b :=
    eq_of_forall₂ fun _ _ h => Prod.ext h.1 h.2.2
  induction h using induction with
  | flat v _ => rfl
  | array items items' _ ih => rw [eq_of_forall₂ (fun _ _ h => h.2) ih]
  | map b b' _ ih => rw [hmembers ih]
  | callable d d' closure closure' scope scope' hd _ _ hclosure hscope =>
      rw [hd.eq hR, eq_of_optionRel (fun _ _ => hmembers) hclosure,
        eq_of_optionRel (fun _ _ => hmembers) hscope]

/-- Where each tree is related to itself, each value is alike to itself. -/
theorem refl (hR : ∀ n, R n n) : ∀ v : Value, v.Alike R v
  | .array items => ofItems <| List.forall₂_same.2 fun v hv =>
    have := List.sizeOf_lt_of_mem hv
    refl hR v
  | .map members => ofMembers <| List.forall₂_same.2 fun m hm =>
    have := sizeOf_member_lt hm
    ⟨rfl, refl hR m.2⟩
  | .callable declared closure scope => by
    have hinner : ∀ b, closure = some b → Bindings.Alike R b b := fun b hb =>
      List.forall₂_same.2 fun m hm =>
        have := sizeOf_closure_lt hb hm
        ⟨rfl, refl hR m.2⟩
    have houter : ∀ b, scope = some b → Bindings.Alike R b b := fun b hb =>
      List.forall₂_same.2 fun m hm =>
        have := sizeOf_closure_lt hb hm
        ⟨rfl, refl hR m.2⟩
    refine ofCallable (.refl hR declared) ?_ ?_
    · cases closure with
      | none => exact .none
      | some b => exact .some (hinner b rfl)
    · cases scope with
      | none => exact .none
      | some b => exact .some (houter b rfl)
  | .undefined | .nothing | .bool _ | .int _ | .float _ | .string _ | .safe _ | .pattern _
  | .function _ _ => .flat rfl
termination_by v => sizeOf v
decreasing_by
  · rw [Value.array.sizeOf_spec]
    omega
  · rw [Value.map.sizeOf_spec]
    omega
  all_goals
    rw [Value.callable.sizeOf_spec]
    omega

/-! ### Reading values -/

theorem isTruthy (h : v.Alike R v') : v'.isTruthy = v.isTruthy := by
  cases h with
  | flat h => rfl
  | @array items items' hlength _ => cases items <;> cases items' <;> first | rfl | cases hlength
  | @map members members' hnames _ =>
      cases members <;> cases members' <;> first | rfl | cases hnames
  | callable => rfl

theorem isNullish (h : v.Alike R v') : v'.isNullish = v.isNullish := by
  cases h <;> rfl

theorem typeName (h : v.Alike R v') : v'.typeName = v.typeName := by
  cases h <;> rfl

theorem asString? (h : v.Alike R v') : v'.asString? = v.asString? := by
  cases h <;> rfl

theorem asInt? (h : v.Alike R v') : v'.asInt? = v.asInt? := by
  cases h <;> rfl

theorem asFloat? (h : v.Alike R v') : v'.asFloat? = v.asFloat? := by
  cases h <;> rfl

theorem isScalar (h : v.Alike R v') : v'.isScalar = v.isScalar := by
  cases h <;> rfl

theorem toJson (h : v.Alike R v') : v'.toJson = v.toJson := by
  induction h using induction with
  | flat v _ => rfl
  | array items items' hitems ih =>
      clear hitems
      simp only [Value.toJson, Json.array.injEq]
      induction ih with
      | nil => rfl
      | cons h _ ih => simp only [Value.toJsonItems, h.2, ih]
  | map b b' hb ih =>
      clear hb
      simp only [Value.toJson, Json.object.injEq]
      induction ih with
      | nil => rfl
      | cons h _ ih => simp only [Value.toJsonMembers, h.1, h.2.2, ih]
  | callable _ _ _ _ _ _ hd => simp only [Value.toJson, hd.name]

theorem text (h : v.Alike R v') : v'.text = v.text := by
  have hitems : ∀ {items items' : List Value} (out : String),
      List.Forall₂ (fun v v' => ∃ _ : v.Alike R v', v'.text = v.text) items items' →
        Value.textOfItems out items' = Value.textOfItems out items := by
    intro items items' out h
    induction h generalizing out with
    | nil => rfl
    | cons h hrest ih =>
        cases hrest with
        | nil => simp only [Value.textOfItems, h.2]
        | cons => simp only [Value.textOfItems, h.2, ih]
  induction h using induction with
  | flat v _ => rfl
  | array items items' _ ih => simp only [Value.text, hitems "" ih]
  | map b b' hb => simp only [Value.text, (ofMembers hb).toJson]
  | callable _ _ _ _ _ _ hd => simp only [Value.text, hd.name]

end Value.Alike

/-! ### Names -/

namespace Bindings.Alike

variable {b b' more more' : Bindings} {v v' : Value}

theorem nil : Bindings.Alike R [] [] := List.Forall₂.nil

theorem refl (hR : ∀ n, R n n) (b : Bindings) : Bindings.Alike R b b :=
  List.forall₂_same.2 fun _ _ => ⟨rfl, .refl hR _⟩

theorem eq (hR : ∀ n n', R n n' → n' = n) (h : Bindings.Alike R b b') : b' = b :=
  eq_of_forall₂ (fun _ _ hm => Prod.ext hm.1 (hm.2.eq hR)) h

theorem get? (h : Bindings.Alike R b b') (name : String) :
    Option.Rel (Value.Alike R) (Named.get? b name) (Named.get? b' name) := by
  induction h with
  | nil => exact .none
  | @cons m m' _ _ hm _ ih =>
      obtain ⟨key, v⟩ := m
      obtain ⟨key', v'⟩ := m'
      obtain ⟨rfl : key' = key, hv⟩ := hm
      simp only [Named.get?, List.lookup_cons] at ih ⊢
      cases name == key' with
      | true => exact .some hv
      | false => exact ih

theorem getD (h : Bindings.Alike R b b') (name : String) :
    ((Named.get? b name).getD .undefined).Alike R ((Named.get? b' name).getD .undefined) := by
  have hget := h.get? name
  generalize Named.get? b name = o, Named.get? b' name = o' at hget
  cases hget with
  | none => exact .flat rfl
  | some h => exact h

theorem contains (h : Bindings.Alike R b b') (name : String) :
    Named.contains b' name = Named.contains b name := by
  have hget := h.get? name
  unfold Named.contains
  generalize Named.get? b name = o, Named.get? b' name = o' at hget
  cases hget <;> rfl

theorem insert (h : Bindings.Alike R b b') (hv : v.Alike R v') (name : String) :
    Bindings.Alike R (Named.insert b name v) (Named.insert b' name v') := by
  induction h with
  | nil => exact .cons ⟨rfl, hv⟩ .nil
  | @cons m m' _ _ hm hrest ih =>
      obtain ⟨key, w⟩ := m
      obtain ⟨key', w'⟩ := m'
      obtain ⟨rfl : key' = key, hw⟩ := hm
      simp only [Named.insert]
      split
      · exact .cons ⟨rfl, hv⟩ hrest
      · exact .cons ⟨rfl, hw⟩ ih

theorem insertAll (h : Bindings.Alike R b b') (hmore : Bindings.Alike R more more') :
    Bindings.Alike R (Named.insertAll b more) (Named.insertAll b' more') := by
  unfold Named.insertAll
  induction hmore generalizing b b' with
  | nil => exact h
  | @cons m m' _ _ hm _ ih =>
      obtain ⟨key, w⟩ := m
      obtain ⟨key', w'⟩ := m'
      obtain ⟨rfl : key' = key, hw⟩ := hm
      exact ih (h.insert hw _)

theorem ofList (h : Bindings.Alike R more more') :
    Bindings.Alike R (Named.ofList more) (Named.ofList more') :=
  insertAll nil h

theorem erase (h : Bindings.Alike R b b') (name : String) :
    Bindings.Alike R (Named.erase b name) (Named.erase b' name) := by
  unfold Named.erase
  induction h with
  | nil => exact .nil
  | @cons m m' _ _ hm hrest ih =>
      obtain ⟨key, w⟩ := m
      obtain ⟨key', w'⟩ := m'
      obtain ⟨rfl : key' = key, hw⟩ := hm
      rw [List.eraseP_cons, List.eraseP_cons]
      cases hkey : key' == name with
      | true =>
          simp only [hkey, cond_true]
          exact hrest
      | false =>
          simp only [hkey, cond_false]
          exact .cons ⟨rfl, hw⟩ ih

end Bindings.Alike

theorem CallArgs.Alike.eq (hR : ∀ n n', R n n' → n' = n) {args args' : CallArgs}
    (h : args.Alike R args') : args' = args := by
  have hpositional := eq_of_forall₂ (fun _ _ hv => hv.eq hR) h.positional
  have hkeywords := h.keywords.eq hR
  cases args
  cases args'
  exact congrArg₂ CallArgs.mk hpositional hkeywords

/-! ### Operators -/

/-- Two answers, both with related results or both with related errors. -/
inductive Answers {α β : Type} (E : TemplateError → TemplateError → Prop) (Q : α → β → Prop) :
    Except TemplateError α → Except TemplateError β → Prop
  | ok {a b} (h : Q a b) : Answers E Q (.ok a) (.ok b)
  | error {e e'} (h : E e e') : Answers E Q (.error e) (.error e')

namespace Answers

variable {α β γ δ : Type} {E : TemplateError → TemplateError → Prop} {Q : α → β → Prop}
  {S : γ → δ → Prop} {x : Except TemplateError α} {x' : Except TemplateError β}

theorem of_eq (hE : ∀ e, E e e) {x : Except TemplateError α} {Q : α → α → Prop} (hQ : ∀ a, Q a a) :
    Answers E Q x x := by
  cases x with
  | ok a => exact .ok (hQ a)
  | error e => exact .error (hE e)

theorem bind (h : Answers E Q x x') {f : α → Except TemplateError γ}
    {f' : β → Except TemplateError δ} (hf : ∀ a a', Q a a' → Answers E S (f a) (f' a')) :
    Answers E S (x >>= f) (x' >>= f') := by
  cases h with
  | ok h => exact hf _ _ h
  | error h => exact .error h

theorem map (h : Answers E Q x x') {f : α → γ} {f' : β → δ}
    (hf : ∀ a a', Q a a' → S (f a) (f' a')) : Answers E S (x.map f) (x'.map f') := by
  cases h with
  | ok h => exact .ok (hf _ _ h)
  | error h => exact .error h

end Answers

namespace Value.Alike

variable {a a' b b' v v' w w' : Value}

/-- Items are compared one by one, and so are related as soon as each of them is. -/
theorem strictEqItems {as as' bs bs' : List Value}
    (ha : List.Forall₂ (fun a a' => ∀ {b b' : Value}, b.Alike R b' →
      Value.strictEq a' b' = Value.strictEq a b) as as')
    (hb : List.Forall₂ (Value.Alike R) bs bs') :
    Value.strictEqItems as' bs' = Value.strictEqItems as bs := by
  induction ha generalizing bs bs' with
  | nil => cases hb <;> rfl
  | cons h _ ih =>
      cases hb with
      | nil => rfl
      | cons hb hrest => simp only [Value.strictEqItems, h hb, ih hrest]

theorem strictEqMembers {as as' bs bs' : Bindings}
    (ha : List.Forall₂ (fun m m' : String × Value => m'.1 = m.1 ∧ ∀ {b b' : Value}, b.Alike R b' →
      Value.strictEq m'.2 b' = Value.strictEq m.2 b) as as')
    (hb : Bindings.Alike R bs bs') :
    Value.strictEqMembers as' bs' = Value.strictEqMembers as bs := by
  induction ha with
  | nil => rfl
  | @cons m m' _ _ h _ ih =>
      have hget : Option.Rel (Value.Alike R) (bs.lookup m.1) (bs'.lookup m.1) := hb.get? m.1
      simp only [Value.strictEqMembers, ih, h.1]
      generalize bs.lookup m.1 = o, bs'.lookup m.1 = o' at hget
      cases hget with
      | none => rfl
      | some hw => simp only [h.2 hw]

/-- Macros are told apart by their numbers, and all else is compared as it is. -/
theorem strictEq (ha : a.Alike R a') (hb : b.Alike R b') :
    Value.strictEq a' b' = Value.strictEq a b := by
  induction ha using induction generalizing b b' with
  | flat v h =>
      cases hb with
      | flat => rfl
      | array | map | callable => cases v <;> first | rfl | cases h
  | array items items' _ ih =>
      cases hb with
      | flat h => cases b <;> first | rfl | cases h
      | map | callable => rfl
      | array hlength h =>
          exact strictEqItems (ih.imp fun _ _ h => h.2) (List.forall₂_iff_zip.2 ⟨hlength, h _⟩)
  | map members members' hmembers ih =>
      cases hb with
      | flat h => cases b <;> first | rfl | cases h
      | array | callable => rfl
      | map hnames h =>
          have hothers : Bindings.Alike R _ _ := forall₂_members_iff.2 ⟨hnames, h⟩
          simp only [Value.strictEq, hmembers.length_eq.symm, hothers.length_eq,
            strictEqMembers (ih.imp fun _ _ h => ⟨h.1, h.2.2⟩) hothers]
  | callable d d' _ _ _ _ hd =>
      cases hb with
      | flat h => cases b <;> first | rfl | cases h
      | array | map => rfl
      | callable hd' => simp only [Value.strictEq, hd.number, hd'.number]

theorem looseEq (ha : a.Alike R a') (hb : b.Alike R b') :
    Value.looseEq a' b' = Value.looseEq a b := by
  simp only [Value.looseEq, ha.strictEq hb, ha.isNullish, hb.isNullish, ha.asString?,
    hb.asString?, ha.isScalar, hb.isScalar, ha.asFloat?, hb.asFloat?]

theorem compare? (ha : a.Alike R a') (hb : b.Alike R b') :
    Value.compare? a' b' = Value.compare? a b := by
  simp only [Value.compare?, ha.asString?, hb.asString?, ha.asFloat?, hb.asFloat?]

theorem holds (op : Comparison) (ha : a.Alike R a') (hb : b.Alike R b') :
    Value.holds op a' b' = Value.holds op a b := by
  cases op <;> simp only [Value.holds, ha.strictEq hb, ha.looseEq hb, ha.compare? hb]

end Value.Alike

/-! ### Arithmetic -/

/-- Answers of operators that are alike; the errors are the same. -/
abbrev Value.Given (R : Node → Node → Prop) :
    Except TemplateError Value → Except TemplateError Value → Prop :=
  Answers Eq (Value.Alike R)

/-- An answer that holds no other value. -/
def Value.FlatAnswer (x : Except TemplateError Value) : Prop :=
  ∀ v, x = .ok v → v.isFlat = true

namespace Value.FlatAnswer

variable {x x' : Except TemplateError Value}

theorem ok {v : Value} (h : v.isFlat = true) : FlatAnswer (.ok v) := by
  rintro w ⟨⟩
  exact h

theorem error (e : TemplateError) : FlatAnswer (.error e) := by
  rintro w ⟨⟩

/-- Equal answers that hold no other value are alike. -/
theorem given (h : FlatAnswer x) (hx : x' = x) : Given R x x' := by
  rw [hx]
  cases x with
  | ok v => exact .ok (.flat (h v rfl))
  | error e => exact .error rfl

theorem onFloats (op : String) {f : Float → Float → Value} (hf : ∀ x y, (f x y).isFlat = true)
    (a b : Value) : FlatAnswer (Value.onFloats op f a b) := by
  unfold Value.onFloats Value.floats
  split
  · exact ok (hf _ _)
  · exact error _

theorem onNumbers (op : String) (exact' : Int → Int → Int) (f : Float → Float → Float)
    (a b : Value) : FlatAnswer (Value.onNumbers op exact' f a b) := by
  unfold Value.onNumbers
  split
  · split
    · exact ok rfl
    · exact onFloats op (fun _ _ => rfl) _ _
  · exact onFloats op (fun _ _ => rfl) _ _

theorem floorDiv (a b : Value) : FlatAnswer (a.floorDiv b) := by
  have hfloor : ∀ x y : Float, (Value.floorValue (x / y)).isFlat = true := by
    intro x y
    unfold Value.floorValue
    split
    · split <;> rfl
    · rfl
  unfold Value.floorDiv
  split
  · split
    · exact error _
    · split
      · exact ok rfl
      · exact error _
  · exact onFloats _ hfloor _ _

theorem rem (a b : Value) : FlatAnswer (a.rem b) := by
  unfold Value.rem
  split
  · split
    · exact ok rfl
    · split
      · exact ok rfl
      · exact onFloats _ (fun _ _ => rfl) _ _
  · exact onFloats _ (fun _ _ => rfl) _ _

theorem pow (a b : Value) : FlatAnswer (a.pow b) := by
  unfold Value.pow
  split
  · split
    · split
      · exact ok rfl
      · exact onFloats _ (fun _ _ => rfl) _ _
    · exact onFloats _ (fun _ _ => rfl) _ _
  · exact onFloats _ (fun _ _ => rfl) _ _

theorem neg (a : Value) : FlatAnswer a.neg := by
  unfold Value.neg
  split
  · split <;> exact ok rfl
  · exact onFloats "unary -" (f := fun x _ => .float (-x)) (fun _ _ => rfl) _ _

end Value.FlatAnswer

namespace Value.Alike

variable {a a' b b' v v' : Value}

theorem onFloats (op : String) (f : Float → Float → Value) (ha : a.Alike R a')
    (hb : b.Alike R b') : Value.onFloats op f a' b' = Value.onFloats op f a b := by
  unfold Value.onFloats Value.floats
  rw [ha.asFloat?, hb.asFloat?, ha.typeName, hb.typeName]

/-- An operator that treats operands as floats unless both hold no other value. -/
theorem operator_eq {op onFloats : Value → Value → Except TemplateError Value}
    (hop : ∀ a b : Value, a.isFlat = false ∨ b.isFlat = false → op a b = onFloats a b)
    (ha : a.Alike R a') (hb : b.Alike R b') (hfloats : onFloats a' b' = onFloats a b) :
    op a' b' = op a b := by
  have hcomposite : (a'.isFlat = false ∨ b'.isFlat = false) →
      (a.isFlat = false ∨ b.isFlat = false) → op a' b' = op a b := fun h' h => by
    rw [hop a' b' h', hop a b h, hfloats]
  cases ha with
  | flat =>
      cases hb with
      | flat => rfl
      | array | map | callable => exact hcomposite (.inr rfl) (.inr rfl)
  | array | map | callable => exact hcomposite (.inl rfl) (.inl rfl)

theorem onNumbers (op : String) (exact' : Int → Int → Int) (f : Float → Float → Float)
    (ha : a.Alike R a') (hb : b.Alike R b') :
    Given R (Value.onNumbers op exact' f a b) (Value.onNumbers op exact' f a' b') :=
  (FlatAnswer.onNumbers op exact' f a b).given <| operator_eq
    (fun a b h => by cases a <;> cases b <;> first | rfl | simp [Value.isFlat] at h)
    ha hb (ha.onFloats op _ hb)

theorem add (ha : a.Alike R a') (hb : b.Alike R b') : Given R (a.add b) (a'.add b') := by
  have hnumbers := ha.onNumbers "+" (· + ·) (· + ·) hb
  unfold Value.add
  rw [ha.asString?, hb.asString?]
  split
  · exact .ok (by rw [Value.concat, Value.concat, ha.text, hb.text]; exact .flat rfl)
  · cases ha with
    | flat h => cases a <;> first | exact hnumbers | cases h
    | map | callable => exact hnumbers
    | array hlength h =>
        cases hb with
        | flat h => cases b <;> first | exact hnumbers | cases h
        | map | callable => exact hnumbers
        | array hlength' h' =>
            exact .ok (ofItems (List.rel_append (List.forall₂_iff_zip.2 ⟨hlength, h _⟩)
              (List.forall₂_iff_zip.2 ⟨hlength', h' _⟩)))

theorem floorDiv (ha : a.Alike R a') (hb : b.Alike R b') :
    Given R (a.floorDiv b) (a'.floorDiv b') :=
  (FlatAnswer.floorDiv a b).given <| operator_eq
    (fun a b h => by cases a <;> cases b <;> first | rfl | simp [Value.isFlat] at h)
    ha hb (ha.onFloats "//" (fun x y => Value.floorValue (x / y)) hb)

theorem rem (ha : a.Alike R a') (hb : b.Alike R b') : Given R (a.rem b) (a'.rem b') :=
  (FlatAnswer.rem a b).given <| operator_eq
    (fun a b h => by cases a <;> cases b <;> first | rfl | simp [Value.isFlat] at h)
    ha hb (ha.onFloats "%" (fun x y => .float (Decimal.remainder x y)) hb)

theorem pow (ha : a.Alike R a') (hb : b.Alike R b') : Given R (a.pow b) (a'.pow b') :=
  (FlatAnswer.pow a b).given <| operator_eq
    (fun a b h => by cases a <;> cases b <;> first | rfl | simp [Value.isFlat] at h)
    ha hb (ha.onFloats "**" (fun x y => .float (Float.pow x y)) hb)

/-- A value holds what is alike to what the other one holds. -/
theorem contains (ha : a.Alike R a') (hb : b.Alike R b') :
    Value.contains a' b' = Value.contains a b := by
  have htext := hb.text
  cases ha with
  | flat h => cases a <;> first | (simp only [Value.contains, htext]; done) | cases h
  | @array items items' hlength h =>
      have hitems : List.Forall₂ (Value.Alike R) items items' :=
        List.forall₂_iff_zip.2 ⟨hlength, h _⟩
      simp only [Value.contains, Except.ok.injEq]
      clear hlength h
      induction hitems with
      | nil => rfl
      | cons h _ ih => simp only [List.any_cons, h.looseEq hb, ih]
  | map hnames h =>
      have hmembers : Bindings.Alike R _ _ := forall₂_members_iff.2 ⟨hnames, h⟩
      simp only [Value.contains, htext, hmembers.contains]
  | callable => simp only [Value.contains, htext, Value.typeName]

/-- An operator between two evaluated operands. -/
theorem strictOperator (op : BinaryOp) (ha : a.Alike R a') (hb : b.Alike R b') :
    Given R (Render.strictOperator op a b) (Render.strictOperator op a' b') := by
  cases op with
  | add => exact ha.add hb
  | sub | mul => exact ha.onNumbers _ _ _ hb
  | div =>
      exact (FlatAnswer.onFloats "/" (fun _ _ => rfl) a b).given
        (ha.onFloats "/" (fun x y => .float (x / y)) hb)
  | floorDiv => exact ha.floorDiv hb
  | mod => exact ha.rem hb
  | pow => exact ha.pow hb
  | concat =>
      refine .ok ?_
      rw [Value.concat, Value.concat, ha.text, hb.text]
      exact .flat rfl
  | within =>
      simp only [Render.strictOperator, hb.contains ha]
      exact .map (Q := Eq) (.of_eq (fun _ => rfl) fun _ => rfl) fun _ _ h => h ▸ .flat rfl
  | or | and | test => exact .ok hb

theorem neg (ha : a.Alike R a') : Given R a.neg a'.neg := by
  refine (FlatAnswer.neg a).given ?_
  cases ha with
  | flat => rfl
  | array | map | callable => rfl

theorem plus (ha : a.Alike R a') : Given R a.plus a'.plus := by
  cases ha with
  | flat h =>
      have hfloats := FlatAnswer.onFloats "unary +" (f := fun x _ => .float x) (fun _ _ => rfl) a
        (.int 0)
      cases a <;> first | exact .ok (.flat rfl) | exact hfloats.given rfl
  | array | map | callable => exact .error rfl

theorem unaryOperator (op : UnaryOp) (ha : a.Alike R a') :
    Given R (Render.unaryOperator op a) (Render.unaryOperator op a') := by
  cases op with
  | not =>
      refine .ok ?_
      rw [ha.isTruthy]
      exact .flat rfl
  | neg => exact ha.neg
  | pos => exact ha.plus

/-! ### Members, slices and loops -/

/-- An item of a list that may be missing. -/
theorem getElem? {items items' : List Value} (h : List.Forall₂ (Value.Alike R) items items')
    (i : Nat) : Option.Rel (Value.Alike R) items[i]? items'[i]? := by
  induction h generalizing i with
  | nil => exact .none
  | cons h _ ih =>
      cases i with
      | zero => exact .some h
      | succ i => exact ih i

theorem orUndefined {o o' : Option Value} (h : Option.Rel (Value.Alike R) o o') :
    (o.getD .undefined).Alike R (o'.getD .undefined) := by
  cases h with
  | none => exact .flat rfl
  | some h => exact h

theorem lengthMember (ha : a.Alike R a') (hb : b.Alike R b') :
    (Value.lengthMember a b).Alike R (Value.lengthMember a' b') := by
  have hsize : a'.size? = a.size? := by
    cases ha with
    | flat => rfl
    | array hlength => simp only [Value.size?, hlength]
    | map hnames => simpa [Value.size?] using congrArg List.length hnames
    | callable => rfl
  have hflat : ∀ a b : Value, (Value.lengthMember a b).isFlat = true := by
    intro a b
    unfold Value.lengthMember
    split
    · split <;> rfl
    · rfl
  have heq : Value.lengthMember a' b' = Value.lengthMember a b := by
    unfold Value.lengthMember
    rw [hsize, hb.asString?]
  rw [heq]
  exact .flat (hflat a b)

theorem memberOfMap {members members' : Bindings} (h : Bindings.Alike R members members')
    (hb : b.Alike R b') : (Value.memberOfMap members b).Alike R (Value.memberOfMap members' b') := by
  cases hb with
  | flat hflat => cases b <;> first | exact h.getD _ | exact .flat rfl
  | array | map | callable => exact .flat rfl

/-- A member of a value that is looked up. -/
theorem member (ha : a.Alike R a') (hb : b.Alike R b') : (a.member b).Alike R (a'.member b') := by
  have hlength := ha.lengthMember hb
  cases ha with
  | flat hflat =>
      cases hb with
      | flat =>
          cases a <;> first | exact .flat rfl | cases hflat
          all_goals cases b <;> first | exact hlength | skip
          all_goals
            simp only [Value.member]
            split <;> exact .flat rfl
      | array | map | callable => cases a <;> exact .flat rfl
  | @array items items' hlen h =>
      have hitems : List.Forall₂ (Value.Alike R) items items' := List.forall₂_iff_zip.2 ⟨hlen, h _⟩
      cases hb with
      | flat hflat =>
          cases b <;> first | exact hlength | skip
          simp only [Value.member, hlen]
          generalize Value.index? items'.length _ = i
          cases i with
          | none => exact .flat rfl
          | some i => exact orUndefined (getElem? hitems i)
      | array | map | callable => exact hlength
  | map hnames h => exact memberOfMap (forall₂_members_iff.2 ⟨hnames, h⟩) hb
  | callable => exact .flat rfl

/-- A slice of a value. -/
theorem slice (ha : a.Alike R a') (start stop step : Option Int) :
    Given R (a.slice start stop step) (a'.slice start stop step) := by
  unfold Value.slice
  dsimp only
  split
  · exact .error rfl
  · cases ha with
    | flat hflat => cases a <;> first | exact .ok (.flat rfl) | exact .error rfl | cases hflat
    | @array items items' hlength h =>
        have hitems : List.Forall₂ (Value.Alike R) items items' :=
          List.forall₂_iff_zip.2 ⟨hlength, h _⟩
        refine .ok (ofItems ?_)
        rw [hlength]
        simp only [Value.pick, List.getElem?_toArray]
        generalize Value.sliceIndices _ _ _ _ = indices
        induction indices with
        | nil => exact .nil
        | cons i rest ih =>
            have hi := getElem? hitems i.toNat
            simp only [List.filterMap_cons]
            generalize items[i.toNat]? = o, items'[i.toNat]? = o' at hi
            cases hi with
            | none => exact ih
            | some hi => exact .cons hi ih
    | map | callable => exact .error rfl

/-- What a loop runs through. -/
theorem loopItems? (ha : a.Alike R a') (names : Nat) :
    Option.Rel (List.Forall₂ (Value.Alike R)) (Render.loopItems? names a)
      (Render.loopItems? names a') := by
  cases ha with
  | flat hflat =>
      have hchars : ∀ cs : List Char, List.Forall₂ (Value.Alike R)
          (cs.map fun c => .string (String.singleton c))
          (cs.map fun c => .string (String.singleton c)) := fun cs =>
        List.forall₂_same.2 fun v hv => by
          obtain ⟨c, _, rfl⟩ := List.mem_map.1 hv
          exact .flat rfl
      cases a <;> first | exact .none | exact .some .nil | exact .some (hchars _) | cases hflat
  | array hlength h => exact .some (List.forall₂_iff_zip.2 ⟨hlength, h _⟩)
  | @map members members' hnames h =>
      have hmembers : Bindings.Alike R members members' := forall₂_members_iff.2 ⟨hnames, h⟩
      clear hnames h
      simp only [Render.loopItems?]
      split
      · refine .some ?_
        induction hmembers with
        | nil => exact .nil
        | cons hm _ ih =>
            refine .cons (ofItems (.cons ?_ (.cons hm.2 .nil))) ih
            rw [hm.1]
            exact .flat rfl
      · refine .some ?_
        induction hmembers with
        | nil => exact .nil
        | cons hm _ ih =>
            refine .cons ?_ ih
            dsimp only
            rw [hm.1]
            exact .flat rfl
  | callable => exact .none

/-- What a loop binds in an iteration. -/
theorem loopBindings (ha : a.Alike R a') (names : List String) (index length : Nat) :
    Answers Eq (Bindings.Alike R) (Render.loopBindings names a index length)
      (Render.loopBindings names a' index length) := by
  have hstate : (Render.loopState index length).Alike R (Render.loopState index length) :=
    ofMembers <| List.forall₂_same.2 fun m hm => by
      simp only [List.mem_cons, List.not_mem_nil, or_false] at hm
      rcases hm with rfl | rfl | rfl | rfl | rfl | rfl | rfl <;> exact ⟨rfl, .flat rfl⟩
  have hloop : ∀ {b b' : Bindings}, Bindings.Alike R b b' → Bindings.Alike R
      (Named.insert b "loop" (Render.loopState index length))
      (Named.insert b' "loop" (Render.loopState index length)) := fun h => h.insert hstate _
  have hparts : ∀ {items items' : List Value}, List.Forall₂ (Value.Alike R) items items' →
      Bindings.Alike R (names.mapIdx fun i name => (name, (items[i]?).getD .undefined))
        (names.mapIdx fun i name => (name, (items'[i]?).getD .undefined)) := by
    intro items items' h
    unfold Bindings.Alike
    rw [List.mapIdx_eq_zipIdx_map, List.mapIdx_eq_zipIdx_map, List.forall₂_map_left_iff,
      List.forall₂_map_right_iff]
    exact List.forall₂_same.2 fun _ _ => ⟨rfl, orUndefined (getElem? h _)⟩
  match names with
  | [name] => exact .ok (hloop (.cons ⟨rfl, ha⟩ .nil))
  | [] | name :: other :: rest =>
      cases ha with
      | flat h => cases a <;> first | exact .error rfl | cases h
      | array hlength h =>
          exact .ok (hloop (.ofList (hparts (List.forall₂_iff_zip.2 ⟨hlength, h _⟩))))
      | map | callable => exact .error rfl

end Value.Alike

/-- Answers one after the other, for the members of two lists. -/
theorem Answers.mapM {α β γ δ : Type} {E : TemplateError → TemplateError → Prop}
    {Q : α → β → Prop} {S : γ → δ → Prop} {f : α → Except TemplateError γ}
    {f' : β → Except TemplateError δ} (hf : ∀ a a', Q a a' → Answers E S (f a) (f' a'))
    {as : List α} {as' : List β} (h : List.Forall₂ Q as as') :
    Answers E (List.Forall₂ S) (as.mapM f) (as'.mapM f') := by
  induction h with
  | nil => exact .ok .nil
  | cons h _ ih =>
      rw [List.mapM_cons, List.mapM_cons]
      exact (hf _ _ h).bind fun _ _ hb => ih.bind fun _ _ hbs => .ok (.cons hb hbs)

/-- What a loop binds in all its iterations. -/
theorem Value.allLoopBindings {names : List String} {items items' : List Value}
    (h : List.Forall₂ (Value.Alike R) items items') :
    Answers Eq (List.Forall₂ (Bindings.Alike R)) (Render.allLoopBindings names items)
      (Render.allLoopBindings names items') := by
  have hzip : ∀ (k : Nat) {items items' : List Value},
      List.Forall₂ (Value.Alike R) items items' →
        List.Forall₂ (fun p p' : Value × Nat => p'.2 = p.2 ∧ p.1.Alike R p'.1) (items.zipIdx k)
          (items'.zipIdx k) := by
    intro k items items' h
    induction h generalizing k with
    | nil => exact .nil
    | cons h _ ih => exact .cons ⟨rfl, h⟩ (ih (k + 1))
  unfold Render.allLoopBindings
  dsimp only
  rw [h.length_eq]
  refine Answers.mapM ?_ (hzip 0 h)
  rintro ⟨v, i⟩ ⟨v', i'⟩ ⟨hi, hv⟩
  obtain rfl : i' = i := hi
  exact hv.loopBindings names i' _

end Stencil
