/-
**A prepared tree as it was.**

Preparing a tree is undone by reading it again: a bind is remembered for what comes after it, and a
placeholder becomes the call that it was bound to, in which the placeholders of calls inside of it became
calls before.  Binds and overridden blocks are left out, and a list that was put in the place of a
statement is the statement again.

Main definitions:

* `Stencil.Node.restored` — a tree with calls in the place of their placeholders, given the calls that
  are known;
* `Stencil.Node.knownAfter` — the calls that are known after some binds;
* `Stencil.Node.IsKnown` — calls that are known by their placeholders.

Main results:

* `Stencil.Node.restored_eq` — a node is restored if its parts are;
* `Stencil.Node.restored_runsAs` — what a tree is compared with can be compared part by part.
-/

import Stencil.Proofs.Lifting.Overridden

set_option autoImplicit false

namespace Stencil.Node

/-! ### Restoring -/

/-- Whether a node was added before statements: a bind or an overridden block. -/
def isAdded : Node → Bool
  | bind _ _ _ | overridden _ _ _ => true
  | _ => false

/-- Whether a node is a list that was put in the place of a statement, with binds before it. -/
def isInserted : Node → Bool
  | group .sequence _ (bind _ _ _ :: _) => true
  | _ => false

/-- Whether a name is a placeholder for the output of an overridden block. -/
def isSuperPlaceholder (name : String) : Bool := ['#', 's'].isPrefixOf name.toList

/-- A call of the overridden block. -/
def superCall (p : Position) : Node := call p (symbol p "super") (sequence p [])

/-- What a name stands for: a placeholder stands for a call that is known, or for a call of the
overridden block. -/
def restoredSymbol (known : List (String × Node)) (p : Position) (name : String) : Node :=
  match known.lookup name with
  | some c => c
  | none => if isSuperPlaceholder name then superCall p else symbol p name

/-- A list whose members were restored; a list that was put in the place of a statement is the
statement. -/
def regrouped (n : Node) (ms : List Node) : Node :=
  if n.isInserted then ms.head?.getD n else n.withChildren ms

mutual
/-- A tree with calls in the place of their placeholders, without what was added to it. -/
def restored (known : List (String × Node)) : Node → Node
  | n@(group _ _ ns) => n.regrouped (restoredAll known ns)
  | n@(text _ _) | n@(literal _ _) => n
  | symbol p name => restoredSymbol known p name
  | capture p a => capture p (restored known a)
  | pair p a b => pair p (restored known a) (restored known b)
  | binary p o a b => binary p o (restored known a) (restored known b)
  | unary p o a => unary p o (restored known a)
  | compare p a b => compare p (restored known a) (restoredAll known b)
  | operand p o a => operand p o (restored known a)
  | choice p a b c => choice p (restored known a) (restored known b) (restoredOption known c)
  | lookup p a b => lookup p (restored known a) (restored known b)
  | slice p a b c =>
    slice p (restoredOption known a) (restoredOption known b) (restoredOption known c)
  | call p a b => call p (restored known a) (restored known b)
  | filter p s a => filter p s (restored known a)
  | tagCall p t a b => tagCall p t (restored known a) (restoredAll known b)
  | branch p s a b c => branch p s (restored known a) (restored known b) (restoredOption known c)
  | loop p m a b c d =>
    loop p m (restored known a) (restored known b) (restored known c) (restoredOption known d)
  | assign p a b c => assign p (restoredAll known a) (restoredOption known b) (restoredOption known c)
  | definition p r s a b => definition p r s (restored known a) (restored known b)
  | block p s a => block p s (restored known a)
  | overridden p s a => overridden p s (restored known a)
  | extend p a => extend p (restored known a)
  | embed p a i => embed p (restored known a) i
  | importAll p a t c => importAll p (restored known a) t c
  | importNames p a ns c => importNames p (restored known a) ns c
  | bind p a b => bind p (restored known a) (restored known b)

/-- The trees of a list: a bind is left out and remembered for those after it, and an overridden block
is left out. -/
def restoredAll (known : List (String × Node)) : List Node → List Node
  | [] => []
  | bind _ action (symbol _ name) :: rest => restoredAll ((name, restored known action) :: known) rest
  | overridden _ _ _ :: rest => restoredAll known rest
  | n :: rest => restored known n :: restoredAll known rest

/-- A tree that may be missing. -/
def restoredOption (known : List (String × Node)) : Option Node → Option Node
  | none => none
  | some n => some (restored known n)
end

/-- The calls that are known after some binds, the last one first. -/
def knownAfter (known : List (String × Node)) : List Node → List (String × Node)
  | [] => known
  | bind _ action (symbol _ name) :: rest =>
    knownAfter ((name, restored known action) :: known) rest
  | _ :: rest => knownAfter known rest

/-! ### Names of placeholders -/

theorem toList_callPlaceholder (n : Nat) :
    (callPlaceholder n).toList = '#' :: 't' :: (Nat.repr n).toList := by
  rw [callPlaceholder, String.toList_append]
  rfl

theorem toList_superPlaceholder (n : Nat) :
    (superPlaceholder n).toList = '#' :: 's' :: (Nat.repr n).toList := by
  rw [superPlaceholder, String.toList_append]
  rfl

theorem repr_injective : Function.Injective Nat.repr := by
  intro m n h
  have hdigits := congrArg (fun s => Nat.ofDigitChars 10 s.toList 0) h
  simpa [Nat.ofDigitChars_toDigits] using hdigits

theorem callPlaceholder_injective : Function.Injective callPlaceholder := by
  intro m n h
  have hdigits := congrArg String.toList h
  rw [toList_callPlaceholder, toList_callPlaceholder] at hdigits
  exact repr_injective (String.toList_injective (List.cons_injective (List.cons_injective hdigits)))

theorem superPlaceholder_injective : Function.Injective superPlaceholder := by
  intro m n h
  have hdigits := congrArg String.toList h
  rw [toList_superPlaceholder, toList_superPlaceholder] at hdigits
  exact repr_injective (String.toList_injective (List.cons_injective (List.cons_injective hdigits)))

theorem callPlaceholder_ne_superPlaceholder (m n : Nat) :
    callPlaceholder m ≠ superPlaceholder n := by
  intro h
  have hdigits := congrArg String.toList h
  rw [toList_callPlaceholder, toList_superPlaceholder] at hdigits
  simp at hdigits

/-- A placeholder cannot be written. -/
theorem not_isWritable {name : String} {cs : List Char} (h : name.toList = '#' :: cs) :
    ¬IsWritable name := by
  intro hname
  rw [IsWritable, h] at hname
  have hstart : Lexeme.startsName '#' = false := by decide
  rw [Lexeme.isName, hstart] at hname
  cases hname

theorem isSuperPlaceholder_superPlaceholder (n : Nat) :
    isSuperPlaceholder (superPlaceholder n) = true := by
  rw [isSuperPlaceholder, toList_superPlaceholder]
  rfl

theorem isSuperPlaceholder_of_isWritable {name : String} (h : IsWritable name) :
    isSuperPlaceholder name = false := by
  refine Bool.eq_false_of_not_eq_true fun hsuper => ?_
  rw [isSuperPlaceholder, List.isPrefixOf_iff_prefix] at hsuper
  obtain ⟨cs, hcs⟩ := hsuper
  exact not_isWritable hcs.symm h

/-! ### Known calls -/

/-- Calls that are known by their placeholders. -/
def IsKnown (known : List (String × Node)) : Prop := ∀ e ∈ known, ∃ j, e.1 = callPlaceholder j

theorem IsKnown.cons {known : List (String × Node)} (h : IsKnown known) (j : Nat) (c : Node) :
    IsKnown ((callPlaceholder j, c) :: known) :=
  List.forall_mem_cons.2 ⟨⟨j, rfl⟩, h⟩

theorem IsKnown.lookup {known : List (String × Node)} (h : IsKnown known) {name : String}
    (hname : ∀ j, name ≠ callPlaceholder j) : known.lookup name = none := by
  rw [List.lookup_eq_none_iff]
  intro e he
  obtain ⟨j, hj⟩ := h e he
  simpa [hj] using hname j

/-- A name that can be written stands for itself. -/
theorem IsKnown.restoredSymbol {known : List (String × Node)} (h : IsKnown known) {name : String}
    (hname : IsWritable name) (p : Position) : restoredSymbol known p name = symbol p name := by
  have hlookup := h.lookup fun j hj => not_isWritable (toList_callPlaceholder j) (hj ▸ hname)
  simp [Node.restoredSymbol, hlookup, isSuperPlaceholder_of_isWritable hname]

/-- A placeholder for the output of an overridden block stands for a call of it. -/
theorem IsKnown.restoredSymbol_super {known : List (String × Node)} (h : IsKnown known) (k : Nat)
    (p : Position) : Node.restoredSymbol known p (superPlaceholder k) = superCall p := by
  have hlookup := h.lookup fun j hj => callPlaceholder_ne_superPlaceholder j k hj.symm
  simp [Node.restoredSymbol, hlookup, isSuperPlaceholder_superPlaceholder]

/-! ### Parts -/

variable {known : List (String × Node)} {n n' : Node}

theorem restoredAll_cons {rest : List Node} (h : n.isAdded = false) :
    restoredAll known (n :: rest) = restored known n :: restoredAll known rest := by
  cases n with
  | bind | overridden => cases h
  | _ => rfl

/-- A list without binds and overridden blocks is restored one by one. -/
theorem restoredAll_eq_map {ns : List Node} (h : ∀ c ∈ ns, c.isAdded = false) :
    restoredAll known ns = ns.map (restored known) := by
  induction ns with
  | nil => rfl
  | cons c rest ih =>
      obtain ⟨hc, hrest⟩ := List.forall_mem_cons.1 h
      rw [restoredAll_cons hc, ih hrest, List.map_cons]

theorem restoredOption_eq_map (o : Option Node) :
    restoredOption known o = o.map (restored known) := by
  cases o <;> rfl

theorem isInserted_of_children (h : ∀ c ∈ n.children, c.isAdded = false) : n.isInserted = false := by
  unfold isInserted
  split
  · have hbind := h _ (by simp [children, fields, Field.nodes]; exact .inl rfl)
    cases hbind
  · rfl

/-- A node is restored if its parts are. -/
theorem restored_eq (h : ∀ c ∈ n.children, c.isAdded = false) (hn : n.asSymbol? = none) :
    restored known n = n.withChildren (n.children.map (restored known)) := by
  cases n with
  | symbol => cases hn
  | group kind p ns =>
      have hns : ∀ c ∈ ns, c.isAdded = false := fun c hc =>
        h c (by simpa [children, fields, Field.nodes] using hc)
      rw [restored, regrouped, isInserted_of_children h, restoredAll_eq_map hns]
      simp [children, fields, Field.nodes]
  | compare p a b =>
      have hb : ∀ c ∈ b, c.isAdded = false := fun c hc =>
        h c (by simp [children, fields, Field.nodes, hc])
      simp [restored, restoredAll_eq_map hb, children, fields, Field.nodes, withChildren]
  | tagCall p t a b =>
      have hb : ∀ c ∈ b, c.isAdded = false := fun c hc =>
        h c (by simp [children, fields, Field.nodes, hc])
      simp [restored, restoredAll_eq_map hb, children, fields, Field.nodes, withChildren]
  | assign p a b c =>
      have ha : ∀ c ∈ a, c.isAdded = false := fun c hc =>
        h c (by simp [children, fields, Field.nodes, hc])
      simp [restored, restoredAll_eq_map ha, restoredOption_eq_map, children, fields, Field.nodes,
        withChildren]
  | _ => simp [restored, restoredOption_eq_map, children, fields, Field.nodes, withChildren]

/-- What a node is compared with once it is restored can be compared part by part. -/
theorem restored_runsAs {Q : Node → Node → Prop}
    (h : RunsAs true (fun _ _ => True) (fun c c' => c'.isAdded = false ∧ Q c (restored known c')) n n')
    (hn : n'.asSymbol? = none) : RunsAs true (fun _ _ => True) Q n (restored known n') := by
  have hchildren : ∀ c' ∈ n'.children, c'.isAdded = false := fun c' hc' => by
    obtain ⟨_, _, hadded, _⟩ := forall₂_mem h.children c' hc'
    exact hadded
  have hes : List.Forall₂ (fun c f => f = restored known c) n'.children
      (n'.children.map (restored known)) :=
    List.forall₂_map_right_iff.2 (List.forall₂_same.2 fun _ _ => rfl)
  have hparts := (parts_withChildren hes).1
  rw [restored_eq hchildren hn]
  exact h.trans (fun c c' f hc hf => hf ▸ hc.2) (RunsAs.of_alike hparts.alike)

theorem RunsAs.asSymbol? {R : Node → Node → Prop} (h : RunsAs true (fun _ _ => True) R n n') :
    n'.asSymbol? = n.asSymbol? := by
  cases h with
  | alike h => cases h <;> rfl
  | branch | loop => rfl

/-- Two nodes of one kind are the same again if their parts are. -/
theorem restored_congr {known' : List (String × Node)}
    (h : RunsAs true (fun _ _ => True) (fun c c' => c.isAdded = false ∧ c'.isAdded = false ∧
      Remarked true (restored known c) (restored known' c')) n n') (hn : n.asSymbol? = none) :
    Remarked true (restored known n) (restored known' n') := by
  have hright : RunsAs true (fun _ _ => True)
      (fun c f => c.isAdded = false ∧ Remarked true (restored known c) f) n (restored known' n') :=
    restored_runsAs (h.mono fun c c' _ hc => ⟨hc.2.1, hc.1, hc.2.2⟩) (h.asSymbol?.trans hn)
  have hleft := restored_runsAs (Q := fun f f' => Remarked true f' f)
    (hright.flip.mono fun f c _ hc => hc) hn
  exact .of_node hleft.flip

/-! ### Lists that were put in -/

/-- A bind of a placeholder. -/
def IsBind (n : Node) : Prop := ∃ p a q j, n = bind p a (symbol q (callPlaceholder j))

/-- A node among the parts of which nodes were added in order only: a block has a list of statements,
and binds stand in a list before the one statement that it was put in for. -/
structure Orderly (n : Node) : Prop where
  body : ∀ p name body, n = block p name body →
    ∃ q ms, body = sequence q ms ∧ ∀ m ∈ ms, m.isAdded = false
  target : ∀ p a b, n = bind p a b → n.IsBind
  inserted : n.isInserted = true → ∃ p bs m, n = sequence p (bs ++ [m]) ∧ (∀ b ∈ bs, b.IsBind) ∧
    m.isAdded = false
  plain : n.isInserted = false → ∀ c ∈ n.children, c.isAdded = false

theorem restoredAll_binds {bs ns : List Node} (h : ∀ b ∈ bs, b.IsBind) :
    restoredAll known (bs ++ ns) = restoredAll (knownAfter known bs) ns := by
  induction bs generalizing known with
  | nil => rfl
  | cons b bs ih =>
      obtain ⟨⟨p, a, q, j, rfl⟩, hbs⟩ := List.forall_mem_cons.1 h
      exact ih hbs

theorem IsKnown.after {bs : List Node} (hk : IsKnown known) (h : ∀ b ∈ bs, b.IsBind) :
    IsKnown (knownAfter known bs) := by
  induction bs generalizing known with
  | nil => exact hk
  | cons b bs ih =>
      obtain ⟨⟨p, a, q, j, rfl⟩, hbs⟩ := List.forall_mem_cons.1 h
      exact ih (hk.cons j _) hbs

/-- A list that was put in for a statement is the statement, with the calls that were bound. -/
theorem restored_inserted {p : Position} {bs : List Node} {m : Node} (hbs : ∀ b ∈ bs, b.IsBind)
    (hne : bs ≠ []) (hm : m.isAdded = false) :
    restored known (sequence p (bs ++ [m])) = restored (knownAfter known bs) m := by
  have hinserted : (sequence p (bs ++ [m])).isInserted = true := by
    obtain ⟨b, bs, rfl⟩ := List.exists_cons_of_ne_nil hne
    obtain ⟨q, a, r, j, rfl⟩ := hbs b List.mem_cons_self
    rfl
  change regrouped (sequence p (bs ++ [m])) (restoredAll known (bs ++ [m])) = _
  rw [restoredAll_binds hbs, restoredAll_cons hm, regrouped, hinserted]
  rfl

/-! ### What is the same again -/

/-- A name that stands somewhere in a tree. -/
def Mentions (n : Node) (name : String) : Prop := ∃ p, symbol p name ∈ n.walk fun _ => false

theorem Mentions.child {c : Node} {name : String} (hc : c ∈ n.children) (h : c.Mentions name) :
    n.Mentions name := by
  obtain ⟨p, hp⟩ := h
  exact ⟨p, mem_walk_of_mem_children rfl hc hp⟩

/-- Known calls that are the same for some names. -/
def Agree (S : String → Prop) (known known' : List (String × Node)) : Prop :=
  ∀ name, S name → Option.Rel (Remarked true) (known.lookup name) (known'.lookup name)

theorem Agree.cons {S : String → Prop} {known' : List (String × Node)} (h : Agree S known known')
    {c c' : Node} (hc : Remarked true c c') (name : String) :
    Agree S ((name, c) :: known) ((name, c') :: known') := by
  intro x hx
  rw [List.lookup_cons, List.lookup_cons]
  split
  · exact .some hc
  · exact h x hx

/-- A name stands for the same if the same calls are known for it. -/
theorem Agree.restoredSymbol {S : String → Prop} {known' : List (String × Node)}
    (h : Agree S known known') {name : String} (hname : S name) (p p' : Position) :
    Remarked true (Node.restoredSymbol known p name) (Node.restoredSymbol known' p' name) := by
  have hlookup := h name hname
  unfold Node.restoredSymbol
  generalize known.lookup name = o, known'.lookup name = o' at hlookup
  have hsymbol : ∀ x, Remarked true (symbol p x) (symbol p' x) := fun x =>
    .of_alike (.symbol trivial) (by rintro _ _ _ _ _ _ ⟨⟩)
  have hlist : Remarked true (sequence p []) (sequence p' []) :=
    .of_alike (.group trivial .nil) (by rintro _ _ _ _ _ _ ⟨⟩)
  cases hlookup with
  | some hc => exact hc
  | none =>
      dsimp only
      split
      · exact .of_alike (.call trivial (hsymbol _) hlist) (by rintro _ _ _ _ _ _ ⟨⟩)
      · exact hsymbol _

theorem GrowsAs.isAdded {R : Node → Node → Prop} (h : GrowsAs R n n') : n'.isAdded = n.isAdded := by
  cases h with
  | same h =>
      cases h with
      | alike h => cases h <;> rfl
      | branch | loop => rfl
  | @call n p k h =>
      cases n with
      | call => rfl
      | _ => cases h
  | block => rfl

/-- A call of the overridden block has no arguments. -/
theorem isSuperCall_formed (h : n.isSuperCall = true) (hn : n.isFormed = true) :
    ∃ p q r, n = call p (symbol q "super") (sequence r []) := by
  cases n with
  | call p a b =>
      cases a with
      | symbol q name =>
          have hb : b.plays .arguments = true := (isFormed_iff.1 hn).2 .arguments b (by simp [parts])
          simp only [isSuperCall, Bool.and_eq_true, beq_iff_eq, List.isEmpty_iff] at h
          cases b with
          | group kind r ns =>
              cases kind with
              | sequence =>
                  obtain ⟨rfl, hns⟩ := h
                  cases hns
                  exact ⟨p, q, r, rfl⟩
              | _ => cases hb
          | _ => cases hb
      | _ => cases h
  | _ => cases h

/-- A list is a list of what became of its members. -/
theorem GrowsAs.sequence {R : Node → Node → Prop} {p : Position} {ns : List Node}
    (h : GrowsAs R (.sequence p ns) n') :
    ∃ p' ns', n' = .sequence p' ns' ∧ List.Forall₂ R ns ns' := by
  cases h with
  | same h =>
      cases h with
      | alike h =>
          cases h with
          | group _ h => exact ⟨_, _, rfl, h⟩
  | call h => cases h

/-- A bind binds what became of its call to the same placeholder. -/
theorem Grown.bind {p q : Position} {a : Node} {name : String}
    (h : Grown (.bind p a (symbol q name)) n') :
    ∃ p' a' q', n' = .bind p' a' (symbol q' name) ∧ Grown a a' := by
  cases h.cases with
  | same h =>
      cases h with
      | alike h =>
          cases h with
          | @bind _ _ _ _ a' b' _ ha hb =>
              cases hb.cases with
              | same hb =>
                  cases hb with
                  | alike hb =>
                      cases hb
                      exact ⟨_, _, _, rfl, ha⟩
              | call hcall => cases hcall
  | call hcall => cases hcall

/-- What lies below binds is the same again if the calls are. -/
theorem Remarked.of_bind {p p' : Position} {a b a' b' : Node}
    (h : Remarked true (.bind p a b) (.bind p' a' b')) : Remarked true a a' := by
  cases h.cases with
  | alike h =>
      cases h with
      | bind _ ha _ => exact ha

/-- What is restored to the same whatever is known. -/
def Restores (S : String → Prop) (n n' : Node) : Prop :=
  n.Everywhere Orderly → n.IsRegular → (∀ name, n.Mentions name → S name) →
    ∀ known known', IsKnown known → IsKnown known' → Agree S known known' →
      Remarked true (restored known n) (restored known' n')

/-- The same calls are known after binds of the same. -/
theorem Agree.after {S : String → Prop} {bs bs' : List Node} {known' : List (String × Node)}
    (h : List.Forall₂ (fun b b' => Grown b b' ∧ Restores S b b') bs bs')
    (hbs : ∀ b ∈ bs, b.IsBind ∧ b.Everywhere Orderly ∧ b.IsRegular ∧ ∀ name, b.Mentions name → S name)
    (hk : IsKnown known) (hk' : IsKnown known') (hagree : Agree S known known') :
    Agree S (knownAfter known bs) (knownAfter known' bs') ∧ IsKnown (knownAfter known' bs') ∧
      ∀ b' ∈ bs', b'.IsBind := by
  induction h generalizing known known' with
  | nil => exact ⟨hagree, hk', by simp⟩
  | @cons b b' bs bs' hb _ ih =>
      obtain ⟨⟨hbind, horderly, hregular, hnames⟩, hrest⟩ := List.forall_mem_cons.1 hbs
      obtain ⟨p, a, q, j, rfl⟩ := hbind
      obtain ⟨p', a', q', rfl, -⟩ := hb.1.bind
      have hcall : Remarked true (restored known a) (restored known' a') :=
        (hb.2 horderly hregular hnames known known' hk hk' hagree).of_bind
      obtain ⟨hafter, hknown, hbinds⟩ := ih hrest (hk.cons j _) (hk'.cons j _) (hagree.cons hcall _)
      exact ⟨hafter, hknown, List.forall_mem_cons.2 ⟨⟨p', a', q', j, rfl⟩, hbinds⟩⟩

theorem ne_nil_of_isInserted {p : Position} {bs : List Node} {m : Node} (hm : m.isAdded = false)
    (h : (sequence p (bs ++ [m])).isInserted = true) : bs ≠ [] := by
  rintro rfl
  cases m with
  | bind => cases hm
  | _ => cases h

theorem Grown.isAdded (h : Grown n n') : n'.isAdded = n.isAdded := h.cases.isAdded

theorem Remarked.sequence {p p' : Position} {ns ns' : List Node}
    (h : List.Forall₂ (Remarked true) ns ns') :
    Remarked true (.sequence p ns) (.sequence p' ns') :=
  .of_alike (.group trivial h) (by rintro _ _ _ _ _ _ ⟨⟩)

/-- A list of statements that were not added is restored one by one. -/
theorem restored_sequence {p : Position} {ns : List Node} (h : ∀ m ∈ ns, m.isAdded = false) :
    restored known (sequence p ns) = sequence p (ns.map (restored known)) := by
  rw [restored_eq (by simpa [sequence, children, fields, Field.nodes] using h) rfl]
  simp [sequence, withChildren, children, fields, Field.nodes]

/-- A body that begins with the overridden block is restored without it. -/
theorem restored_overridden {p q : Position} {name : String} {target : Node} {ns : List Node}
    (h : ∀ m ∈ ns, m.isAdded = false) :
    restored known (sequence p (overridden q name target :: ns)) =
      sequence p (ns.map (restored known)) := by
  change sequence p (restoredAll known ns) = _
  rw [restoredAll_eq_map h]

theorem restored_superCall (hk : IsKnown known) (p q r : Position) :
    restored known (call p (symbol q "super") (sequence r [])) =
      call p (symbol q "super") (sequence r []) := by
  change call p (restoredSymbol known q "super") (sequence r []) = _
  rw [hk.restoredSymbol (by decide)]

/-- What more was done for overridden blocks and marks is undone as well. -/
theorem Grown.restores {S : String → Prop} (h : Grown n n') : Restores S n n' := by
  refine h.induction (P := Restores S) fun n n' h hn hr hS known known' hk hk' hagree => ?_
  have hchild : ∀ c ∈ n.children, c.Everywhere Orderly ∧ c.IsRegular ∧
      ∀ name, c.Mentions name → S name := fun c hc =>
    ⟨hn.child hc, hr.child hc, fun name hname => hS name (hname.child hc)⟩
  -- A list with binds is restored to its last member, in which the binds are known.  Of all other nodes the
  -- ones that became something else are the calls and the blocks that were overridden.
  cases hinserted : n.isInserted with
  | true =>
      obtain ⟨p, bs, m, rfl, hbs, hm⟩ := hn.self.inserted hinserted
      obtain ⟨p', ns', rfl, hns⟩ := h.sequence
      obtain ⟨bs', ms', rfl, hbs', hms⟩ := forall₂_append_left hns
      obtain _ | ⟨hm', _ | _⟩ := hms
      rename_i m'
      have hmember : ∀ c ∈ bs ++ [m], c ∈ (sequence p (bs ++ [m])).children := fun c hc => by
        simpa [sequence, children, fields, Field.nodes] using hc
      obtain ⟨hafter, hknown, hbinds⟩ := Agree.after hbs' (fun b hb =>
        ⟨hbs b hb, hchild b (hmember b (List.mem_append_left _ hb))⟩) hk hk' hagree
      have hne := ne_nil_of_isInserted hm hinserted
      have hne' : bs' ≠ [] := fun hnil => by
        subst hnil
        cases hbs'
        exact hne rfl
      rw [restored_inserted hbs hne hm, restored_inserted hbinds hne' (hm'.1.isAdded.trans hm)]
      obtain ⟨horderly, hregular, hnames⟩ := hchild m (hmember m (by simp))
      exact hm'.2 horderly hregular hnames _ _ (hk.after hbs) hknown hafter
  | false =>
      have hplain := hn.self.plain hinserted
      cases h with
      | @call _ p k hcall =>
          obtain ⟨q, r, t, rfl⟩ := isSuperCall_formed hcall hr.self.2
          change Remarked true _ (restoredSymbol known' p (superPlaceholder k))
          rw [restored_superCall hk, hk'.restoredSymbol_super]
          refine .of_alike (.call trivial ?_ (.sequence .nil)) (by rintro _ _ _ _ _ _ ⟨⟩)
          exact .of_alike (.symbol trivial) (by rintro _ _ _ _ _ _ ⟨⟩)
      | @block p p' _ _ _ name body k ms h =>
          obtain ⟨r, ms₀, rfl, hms₀⟩ := hn.self.body p name body rfl
          have hms : ∀ m' ∈ ms, m'.isAdded = false := fun m' hm' => by
            obtain ⟨m, hm, hgrown, -⟩ := forall₂_mem h m' hm'
            exact hgrown.isAdded.trans (hms₀ m hm)
          obtain ⟨horderly, hregular, hnames⟩ := hchild (sequence r ms₀)
            (by simp [children, fields, Field.nodes])
          change Remarked true (block p name (restored known (sequence r ms₀)))
            (block p' name (restored known' _))
          rw [restored_sequence hms₀, restored_overridden hms]
          refine .of_alike (.block trivial (.sequence ?_)) (by rintro _ _ _ _ _ _ ⟨⟩)
          rw [List.forall₂_map_left_iff, List.forall₂_map_right_iff]
          refine forall₂_mono (fun m m' hm hmm' => ?_) h
          have hc : m ∈ (sequence r ms₀).children := by
            simpa [sequence, children, fields, Field.nodes] using hm
          exact hmm'.2 (horderly.child hc) (hregular.child hc)
            (fun name hname => hnames name (hname.child hc)) known known' hk hk' hagree
      | same h =>
          cases hsymbol : n.asSymbol? with
          | none =>
              refine restored_congr (h.mono fun c c' hc hcc' => ?_) hsymbol
              obtain ⟨horderly, hregular, hnames⟩ := hchild c hc
              exact ⟨hplain c hc, hcc'.1.isAdded.trans (hplain c hc),
                hcc'.2 horderly hregular hnames known known' hk hk' hagree⟩
          | some name =>
              cases n with
              | symbol p name =>
                  cases h with
                  | alike h =>
                      cases h
                      exact hagree.restoredSymbol (hS name ⟨p, mem_walk_self _ _⟩) _ _
              | _ => cases hsymbol

end Stencil.Node
