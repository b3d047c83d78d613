/-
**How often something stands in a tree.**

That nothing is lost and nothing is there twice is a matter of counting.  All that is counted adds up over
the nodes of a tree, so it is enough to know what counts for a single node.

Main definitions:

* `Stencil.Node.total` — the sum of what counts for the nodes of a tree;
* `Stencil.Node.uses`, `Stencil.Node.boundNames` — how often a name stands in a tree, and the names that
  are bound in it;
* `Stencil.Node.Steady` — what counts the same for a node when the parts of it are replaced.

Main results:

* `Stencil.Node.uses_eq_total`, `Stencil.Node.count_boundNames`, `Stencil.Node.mem_walk_iff_total` — what
  is counted by a total;
* `Stencil.Node.Grown.uses` — placeholders of calls stand as often in a tree after more was done for
  overridden blocks and marks;
* `Stencil.Node.Grown.mem_walk` — what stands in such a tree stood in it before, or is new.
-/

import Stencil.Proofs.Lifting.Restoring

set_option autoImplicit false

namespace Stencil.Node

/-! ### Totals -/

/-- The sum of what counts for the nodes of a tree. -/
def total (w : Node → Nat) (n : Node) : Nat := ((n.walk fun _ => false).map w).sum

variable {w : Node → Nat} {n n' : Node}

/-- A total is what counts for the node and the totals of its parts. -/
theorem total_eq (w : Node → Nat) (n : Node) : n.total w = w n + (n.children.map (total w)).sum := by
  have hflat : ∀ ns : List Node, ((ns.flatMap (walk fun _ => false)).map w).sum =
      (ns.map (total w)).sum := by
    intro ns
    induction ns with
    | nil => rfl
    | cons c rest ih => simp [total, ← ih]
  rw [total, walk_eq]
  simp [hflat]

theorem total_symbol (w : Node → Nat) (p : Position) (name : String) :
    (symbol p name).total w = w (symbol p name) := by
  simp [total_eq, children, fields]

theorem total_sequence (w : Node → Nat) (p : Position) (ns : List Node) :
    (sequence p ns).total w = w (sequence p ns) + (ns.map (total w)).sum := by
  rw [total_eq]
  simp [sequence, children, fields, Field.nodes]

theorem total_bind (w : Node → Nat) (p : Position) (a b : Node) :
    (bind p a b).total w = w (bind p a b) + a.total w + b.total w := by
  rw [total_eq]
  simp [children, fields, Field.nodes, Nat.add_assoc]

theorem total_call (w : Node → Nat) (p : Position) (a b : Node) :
    (call p a b).total w = w (call p a b) + a.total w + b.total w := by
  rw [total_eq]
  simp [children, fields, Field.nodes, Nat.add_assoc]

theorem total_block (w : Node → Nat) (p : Position) (name : String) (body : Node) :
    (block p name body).total w = w (block p name body) + body.total w := by
  rw [total_eq]
  simp [children, fields, Field.nodes]

theorem total_overridden (w : Node → Nat) (p q : Position) (name target : String) :
    (overridden p name (symbol q target)).total w =
      w (overridden p name (symbol q target)) + w (symbol q target) := by
  rw [total_eq]
  simp [children, fields, Field.nodes, total_symbol]

/-- How often a name stands in a tree. -/
def uses (name : String) (n : Node) : Nat := (n.findAll fun m => m.asSymbol? == some name).length

/-- The name that a bind or an overridden block binds. -/
def boundName? : Node → Option String
  | bind _ _ (symbol _ name) | overridden _ _ (symbol _ name) => some name
  | _ => none

/-- The names that are bound in a tree, in the order of the text. -/
def boundNames (n : Node) : List String := (n.walk fun _ => false).filterMap boundName?

theorem uses_eq_total (name : String) (n : Node) :
    n.uses name = n.total fun m => if m.asSymbol? = some name then 1 else 0 := by
  rw [uses, findAll, total]
  generalize n.walk _ = ms
  induction ms with
  | nil => rfl
  | cons m rest ih =>
      simp only [List.filter_cons, List.map_cons, List.sum_cons, ← ih, beq_iff_eq]
      split <;> simp [Nat.add_comm]

theorem count_boundNames (name : String) (n : Node) :
    n.boundNames.count name = n.total fun m => if m.boundName? = some name then 1 else 0 := by
  rw [boundNames, total]
  generalize n.walk _ = ms
  induction ms with
  | nil => rfl
  | cons m rest ih =>
      rw [List.filterMap_cons, List.map_cons, List.sum_cons, ← ih]
      cases m.boundName? with
      | none => simp
      | some x => by_cases hx : x = name <;> simp [hx, Nat.add_comm]

open Classical in
/-- What a tree counts for a node that may be in it. -/
theorem mem_walk_iff_total (m n : Node) :
    (m ∈ n.walk fun _ => false) ↔ (n.total fun k => if k = m then 1 else 0) ≠ 0 := by
  rw [total]
  generalize n.walk _ = ms
  induction ms with
  | nil => simp
  | cons k rest ih =>
      rw [List.mem_cons, List.map_cons, List.sum_cons, ih]
      by_cases hk : m = k
      · simp [hk]
      · simp [hk, Ne.symm hk]

/-- What counts the same for a node when the parts of it are replaced, where nothing was added. -/
def Steady (w : Node → Nat) : Prop :=
  ∀ n n', Parts (fun c c' => c.isAdded = false ∧ c'.isAdded = false) n n' → n.isAdded = false →
    w n' = w n

theorem Parts.asSymbol? {R : Node → Node → Prop} (h : Parts R n n') : n'.asSymbol? = n.asSymbol? := by
  cases h <;> rfl

theorem Parts.isAdded {R : Node → Node → Prop} (h : Parts R n n') : n'.isAdded = n.isAdded := by
  cases h <;> rfl

theorem boundName?_of_isAdded (h : n.isAdded = false) : n.boundName? = none := by
  cases n with
  | bind | overridden => cases h
  | _ => rfl

theorem steady_uses (name : String) : Steady fun m => if m.asSymbol? = some name then 1 else 0 :=
  fun n n' h _ => by simp only [h.asSymbol?]

theorem steady_boundNames (name : String) : Steady fun m => if m.boundName? = some name then 1 else 0 :=
  fun n n' h hn => by
    simp only [boundName?_of_isAdded hn, boundName?_of_isAdded (h.isAdded.trans hn)]

/-- Whether a node is a bind or a list with one. -/
def isPlaced (n : Node) : Bool := n.isAdded || n.isInserted

open Classical in
theorem steady_placed {m : Node} (hm : m.isPlaced = true) : Steady fun k => if k = m then 1 else 0 := by
  have hne : ∀ k : Node, k.isAdded = false → (∀ c ∈ k.children, c.isAdded = false) → k ≠ m := by
    rintro k hk hchildren rfl
    simp [isPlaced, hk, isInserted_of_children hchildren] at hm
  intro n n' h hn
  have hleft := hne n hn fun c hc => by
    obtain ⟨_, _, hadded⟩ := h.alike.flip.children |> fun hf => forall₂_mem hf c hc
    exact hadded.1
  have hright := hne n' (h.isAdded.trans hn) fun c hc => by
    obtain ⟨_, _, hadded⟩ := h.mem c hc
    exact hadded.2
  simp only [if_neg hleft, if_neg hright]

/-! ### What stays when more is done -/

/-- A total stays what it is when more is done for overridden blocks and marks, if nothing of that
counts. -/
theorem Grown.total (hsame : ∀ n n', RunsAs true (fun _ _ => True) Grown n n' → w n' = w n)
    (hcall : ∀ p q r, (call p (symbol q "super") (sequence r [])).total w = 0)
    (hsymbol : ∀ p k, w (symbol p (superPlaceholder k)) = 0)
    (hoverridden : ∀ p q name k, w (overridden p name (symbol q (superPlaceholder k))) = 0)
    (hsequence : ∀ p ns, w (sequence p ns) = 0) (hblock : ∀ p name body, w (block p name body) = 0)
    (h : Grown n n') (hn : n.Everywhere Orderly)
    (hr : n.IsRegular) : n'.total w = n.total w := by
  -- By induction over what was done: a placeholder replaced a call, a block got a first statement, and of any
  -- other node the parts changed.  Nothing that came or went counts.
  refine h.induction
    (P := fun n n' => n.Everywhere Orderly → n.IsRegular → n'.total w = n.total w)
    (fun n n' h hn hr => ?_) hn hr
  have hsum : ∀ {cs cs' : List Node}, List.Forall₂ (fun c c' => Grown c c' ∧
      (c.Everywhere Orderly → c.IsRegular → c'.total w = c.total w)) cs cs' →
      (∀ c ∈ cs, c.Everywhere Orderly ∧ c.IsRegular) →
        (cs'.map (Node.total w)).sum = (cs.map (Node.total w)).sum := by
    intro cs cs' hcs hall
    induction hcs with
    | nil => rfl
    | cons hc _ ih =>
        obtain ⟨⟨horderly, hregular⟩, hrest⟩ := List.forall_mem_cons.1 hall
        rw [List.map_cons, List.map_cons, List.sum_cons, List.sum_cons, hc.2 horderly hregular,
          ih hrest]
  cases h with
  | @call _ p k hsuper =>
      obtain ⟨q, r, t, rfl⟩ := isSuperCall_formed hsuper hr.self.2
      rw [total_symbol, hsymbol, hcall]
  | @block p _ _ _ _ name body k ms h =>
      obtain ⟨r, ms₀, rfl, hms₀⟩ := hn.self.body p name body rfl
      have hbody : sequence r ms₀ ∈ (block p name (sequence r ms₀)).children := by
        simp [children, fields, Field.nodes]
      have hms := hsum h fun m hm => by
        have hc : m ∈ (sequence r ms₀).children := by
          change m ∈ ms₀ at hm
          simpa [sequence, children, fields, Field.nodes] using hm
        exact ⟨(hn.child hbody).child hc, (hr.child hbody).child hc⟩
      change _ = ((ms₀.map (Node.total w)).sum) at hms
      rw [total_block, total_block, total_sequence, total_sequence, List.map_cons, List.sum_cons,
        total_overridden, hms, hblock, hblock, hsequence, hsequence, hoverridden, hsymbol]
      omega
  | same h =>
      rw [total_eq, total_eq w n, hsame n n' (h.mono fun c c' _ hc => hc.1),
        hsum h.children fun c hc => ⟨hn.child hc, hr.child hc⟩]

/-- A name of a call stands as often in a tree after more was done. -/
theorem Grown.uses (h : Grown n n') (hn : n.Everywhere Orderly) (hr : n.IsRegular) (j : Nat) :
    n'.uses (callPlaceholder j) = n.uses (callPlaceholder j) := by
  have hne : ∀ k, superPlaceholder k ≠ callPlaceholder j := fun k =>
    (callPlaceholder_ne_superPlaceholder j k).symm
  have hsuper : "super" ≠ callPlaceholder j := fun h =>
    not_isWritable (toList_callPlaceholder j) (h ▸ (by decide : IsWritable "super"))
  rw [uses_eq_total, uses_eq_total]
  refine h.total (fun n n' h => ?_) ?_ ?_ ?_ ?_ ?_ hn hr
  · simp only [h.asSymbol?]
  · intro p q r
    rw [total_call, total_symbol, total_sequence]
    simp [Node.asSymbol?, sequence, hsuper]
  all_goals simp [Node.asSymbol?, sequence, hne]

/-- A node that is added for an overridden block: the overridden block, the placeholder for its output,
or the body that begins with it. -/
inductive IsNew : Node → Prop
  | overridden (p q name k) : IsNew (overridden p name (symbol q (superPlaceholder k)))
  | placeholder (p k) : IsNew (symbol p (superPlaceholder k))
  | body (p q r name k) {ms} (h : ∀ m ∈ ms, m.isAdded = false) :
    IsNew (sequence p (overridden q name (symbol r (superPlaceholder k)) :: ms))

theorem Grown.of_node (h : GrowsAs Grown n n') : Grown n n' :=
  ⟨GrowsAs Grown, fun _ _ h => h.mono fun _ _ hc => hc.cases, h⟩

/-- What stands in a tree to which more was done stood in it, or is new. -/
theorem Grown.mem_walk (h : Grown n n') (hn : n.Everywhere Orderly) :
    ∀ k' ∈ n'.walk fun _ => false, (∃ k ∈ n.walk fun _ => false, Grown k k') ∨ k'.IsNew := by
  refine h.induction (P := fun n n' => n.Everywhere Orderly → ∀ k' ∈ n'.walk fun _ => false,
    (∃ k ∈ n.walk fun _ => false, Grown k k') ∨ k'.IsNew) (fun n n' h hn k' hk' => ?_) hn
  have hself : Grown n n' := .of_node (h.mono fun _ _ hc => hc.1)
  rcases mem_walk_iff.1 hk' with rfl | ⟨-, c', hc', hk'⟩
  · exact .inl ⟨n, mem_walk_self _ _, hself⟩
  have hbelow : ∀ {c : Node}, c ∈ n.children → (∃ k ∈ c.walk fun _ => false, Grown k k') ∨ k'.IsNew →
      (∃ k ∈ n.walk fun _ => false, Grown k k') ∨ k'.IsNew := fun hc h =>
    h.imp_left fun ⟨k, hk, hgrown⟩ => ⟨k, mem_walk_of_mem_children rfl hc hk, hgrown⟩
  -- a placeholder has no parts, and a block has the new statement and those it had
  cases h with
  | call => simp [children, fields] at hc'
  | same h =>
      obtain ⟨c, hc, -, hwalk⟩ := forall₂_mem h.children c' hc'
      exact hbelow hc (hwalk (hn.child hc) k' hk')
  | @block p p' q r r' name body k ms h =>
      obtain ⟨t, ms₀, rfl, hms₀⟩ := hn.self.body p name body rfl
      have hbody : sequence t ms₀ ∈ (block p name (sequence t ms₀)).children := by
        simp [children, fields, Field.nodes]
      have hms : ∀ m' ∈ ms, m'.isAdded = false := fun m' hm' => by
        obtain ⟨m, hm, hgrown, -⟩ := forall₂_mem h m' hm'
        exact hgrown.cases.isAdded.trans (hms₀ m hm)
      have hc' : c' = sequence q (overridden r name (symbol r' (superPlaceholder k)) :: ms) := by
        simpa [children, fields, Field.nodes] using hc'
      subst hc'
      rcases mem_walk_iff.1 hk' with rfl | ⟨-, d, hd, hk'⟩
      · exact .inr (.body _ _ _ _ _ hms)
      have hd : d = overridden r name (symbol r' (superPlaceholder k)) ∨ d ∈ ms := by
        simpa [sequence, children, fields, Field.nodes] using hd
      rcases hd with rfl | hd
      · rcases mem_walk_iff.1 hk' with rfl | ⟨-, e, he, hk'⟩
        · exact .inr (.overridden _ _ _ _)
        · obtain rfl : e = symbol r' (superPlaceholder k) := by
            simpa [children, fields, Field.nodes] using he
          rcases mem_walk_iff.1 hk' with rfl | ⟨-, _, hnone, _⟩
          · exact .inr (.placeholder _ _)
          · simp [children, fields] at hnone
      · obtain ⟨m, hm, -, hwalk⟩ := forall₂_mem h d hd
        have hm' : m ∈ (sequence t ms₀).children := by
          change m ∈ ms₀ at hm
          simpa [sequence, children, fields, Field.nodes] using hm
        refine hbelow hbody ((hwalk ((hn.child hbody).child hm') k' hk').imp_left ?_)
        rintro ⟨k, hk, hgrown⟩
        exact ⟨k, mem_walk_of_mem_children rfl hm' hk, hgrown⟩

/-- A total stays what it is when marks change. -/
theorem Remarked.total (hw : ∀ n n', RunsAs true (fun _ _ => True) (Remarked true) n n' → w n' = w n)
    (h : Remarked true n n') : n'.total w = n.total w := by
  induction n using childInduction generalizing n' with
  | step n ih =>
      have hsum : ∀ {cs cs' : List Node}, List.Forall₂ (Remarked true) cs cs' →
          (∀ c ∈ cs, c ∈ n.children) →
            (cs'.map (Node.total w)).sum = (cs.map (Node.total w)).sum := by
        intro cs cs' hcs hall
        induction hcs with
        | nil => rfl
        | @cons c c' _ _ hc _ ihcs =>
            obtain ⟨hmem, hrest⟩ := List.forall_mem_cons.1 hall
            rw [List.map_cons, List.map_cons, List.sum_cons, List.sum_cons, ih c hmem hc, ihcs hrest]
      rw [total_eq, total_eq w n, hw n n' h.cases, hsum h.cases.children fun _ hc => hc]

theorem boundName?_eq (n : Node) : n.boundName? = match n with
    | bind _ _ b | overridden _ _ b => b.asSymbol?
    | _ => none := by
  cases n with
  | bind p a b | overridden p s b => cases b <;> rfl
  | _ => rfl

/-- What a bind or an overridden block binds stays when marks change. -/
theorem Remarked.boundName? (h : Remarked true n n') : n'.boundName? = n.boundName? := by
  rw [boundName?_eq, boundName?_eq]
  cases h.cases with
  | alike h =>
      cases h with
      | bind _ _ hb | overridden _ hb => exact hb.cases.asSymbol?
      | _ => rfl
  | branch | loop => rfl

/-- Names are bound as often when marks change. -/
theorem Remarked.count_boundNames (h : Remarked true n n') (name : String) :
    n'.boundNames.count name = n.boundNames.count name := by
  rw [Node.count_boundNames, Node.count_boundNames]
  refine h.total fun n n' h => ?_
  simp only [(Remarked.of_node h).boundName?]

end Stencil.Node
