/-
**What stands inside of tags.**

An action that reads part of a tag takes tokens that can only stand inside of tags, and does not change
what becomes of the next text.  Often it first looks at a token and then takes it, so what is known of the
buffer is carried along.

Main definitions:

* `Stencil.Parser.Inside` — what was taken between two moments stands inside of a tag;
* `Stencil.Parser.Sees` — the kinds of the tokens that were looked at;
* `Stencil.Parse.InsideFrom`, `Stencil.Parse.Inside` — an action that stays inside of a tag.

Main results:

* `Stencil.Parse.InsideFrom.bind`, `Stencil.Parse.Inside.iterate` — actions one after the other;
* `Stencil.Parse.InsideFrom.peek`, `Stencil.Parse.InsideFrom.take`, `Stencil.Parse.Inside.next` — tokens.
-/

import Stencil.Proofs.Reading.Portions

set_option autoImplicit false

namespace Stencil

/-- A kind of tokens that stand inside of tags. -/
def TokenKind.isInner : TokenKind → Bool
  | .data | .comment | .blockStart | .blockEnd | .variableStart | .variableEnd => false
  | _ => true

/-! ### Parsers -/

namespace Parser

/-- What was taken between two moments stands inside of a tag. -/
structure Inside (p q : Parser) : Prop where
  takes : ∃ ts : List Token, p.Takes (ts.map .token) q ∧ ∀ t ∈ ts, t.kind.isInner = true
  trimNext : q.trimNext = p.trimNext

/-- Tokens of some kinds were looked at and are next. -/
def Sees (p : Parser) (kinds : List TokenKind) : Prop := kinds <+: p.buffer.map Token.kind

variable {p q r : Parser}

theorem Inside.refl (p : Parser) : p.Inside p := ⟨⟨[], .refl p, by simp⟩, rfl⟩

theorem Inside.trans (h : p.Inside q) (h' : q.Inside r) : p.Inside r := by
  obtain ⟨⟨ts, htakes, hts⟩, htrim⟩ := h
  obtain ⟨⟨us, htakes', hus⟩, htrim'⟩ := h'
  refine ⟨⟨ts ++ us, ?_, List.forall_mem_append.2 ⟨hts, hus⟩⟩, htrim'.trans htrim⟩
  rw [List.map_append]
  exact htakes.trans htakes'

theorem Inside.config (h : p.Inside q) (ho : p.lexer.config.IsProper) :
    q.lexer.config = p.lexer.config := by
  obtain ⟨⟨ts, htakes, -⟩, -⟩ := h
  exact htakes.config ho

/-- A token of a kind that was looked at. -/
theorem Sees.head {kind : TokenKind} {kinds : List TokenKind} (h : p.Sees (kind :: kinds)) :
    ∃ t rest, p.buffer = t :: rest ∧ t.kind = kind ∧ kinds <+: rest.map Token.kind := by
  unfold Sees at h
  cases hbuffer : p.buffer with
  | nil =>
      rw [hbuffer] at h
      cases List.prefix_nil.1 h
  | cons t rest =>
      rw [hbuffer, List.map_cons, List.cons_prefix_cons] at h
      exact ⟨t, rest, rfl, h.1.symm, h.2⟩

end Parser

namespace Parse

variable {α β : Type} {P P' : Parser → Prop} {Q : α → Parser → Prop} {R : β → Parser → Prop}
  {x : Parse α} {p q : Parser}

/-! ### Actions -/

/-- What holds of a parser whatever it looks at beside the tokens that it looked at already. -/
def Stable (P : Parser → Prop) : Prop := ∀ p q : Parser, p.buffer <+: q.buffer → P p → P q

/-- An action that stays inside of a tag if it succeeds, with what is known before it and after it. -/
def InsideFrom (P : Parser → Prop) (x : Parse α) (Q : α → Parser → Prop) : Prop :=
  ∀ p a q, p.lexer.config.IsProper → P p → x p = (.ok a, q) → p.Inside q ∧ Q a q

/-- An action that stays inside of a tag if it succeeds, with what is known of its result. -/
def Inside (Q : α → Prop) (x : Parse α) : Prop := InsideFrom (fun _ => True) x fun a _ => Q a

/-- Two actions succeed one after the other. -/
theorem bind_eq_ok {f : α → Parse β} {b : β} (h : (x >>= f) p = (.ok b, q)) :
    ∃ a r, x p = (.ok a, r) ∧ f a r = (.ok b, q) := by
  rw [bind_eq_match] at h
  rcases hx : x p with ⟨a | e, r⟩
  · rw [hx] at h
    cases h
  · rw [hx] at h
    exact ⟨_, r, rfl, h⟩

/-- A token is taken from the lexer. -/
theorem pull_ok {o : Option Token} (h : pull p = (.ok o, q)) :
    ∃ l, p.lexer.nextVisible = (.ok o, l) ∧ q = { p with lexer := l } := by
  change (p.lexer.nextVisible.1, { p with lexer := p.lexer.nextVisible.2 }) = _ at h
  generalize p.lexer.nextVisible = step at h ⊢
  obtain ⟨answer, l⟩ := step
  cases h
  exact ⟨l, rfl, rfl⟩

/-- Tokens join the buffer. -/
theorem fill_ok {n : Nat} {u : Unit} (ho : p.lexer.config.IsProper) (h : fill n p = (.ok u, q)) :
    p.Takes [] q ∧ q.trimNext = p.trimNext ∧ p.buffer <+: q.buffer ∧
      (p.buffer.length + n ≤ q.buffer.length ∨ q.lexer.rest = []) := by
  induction n generalizing p with
  | zero =>
      cases h
      exact ⟨.refl _, rfl, List.prefix_rfl, .inl le_rfl⟩
  | succ n ih =>
      obtain ⟨o, r, hpull, h⟩ := bind_eq_ok h
      obtain ⟨l, hnext, rfl⟩ := pull_ok hpull
      cases o with
      | none =>
          cases h
          exact ⟨⟨[], .finished hnext (.nil _), by simp⟩, rfl, List.prefix_rfl,
            .inr (Lexer.nextVisible_none hnext)⟩
      | some t =>
          obtain ⟨htakes, htrim, hbuffer, hlength⟩ := ih (p := { p with
            lexer := l, buffer := p.buffer ++ [t] }) (Lexer.nextVisible_config ho hnext ▸ ho) h
          have hjoined : p.Takes [] { p with lexer := l, buffer := p.buffer ++ [t] } :=
            ⟨[.token t], .token hnext (.nil _), by simp⟩
          refine ⟨hjoined.trans htakes, htrim, (List.prefix_append _ _).trans hbuffer,
            hlength.imp_left fun hlength => ?_⟩
          rw [List.length_append, List.length_singleton] at hlength
          omega

/-- A token was looked at. -/
theorem peek_ok {n : Nat} {o : Option Token} (ho : p.lexer.config.IsProper)
    (h : peek n p = (.ok o, q)) : p.Takes [] q ∧ q.trimNext = p.trimNext ∧ p.buffer <+: q.buffer ∧
      q.buffer[n]? = o ∧ (o = none → q.lexer.rest = []) := by
  obtain ⟨_, _, hget, h⟩ := bind_eq_ok h
  cases hget
  obtain ⟨_, r, hfill, h⟩ := bind_eq_ok h
  obtain ⟨_, _, hget, h⟩ := bind_eq_ok h
  cases hget
  cases h
  obtain ⟨htakes, htrim, hbuffer, hlength⟩ := fill_ok ho hfill
  refine ⟨htakes, htrim, hbuffer, rfl, fun hnone => hlength.resolve_left fun hlength => ?_⟩
  rw [List.getElem?_eq_none_iff] at hnone
  have hmore : p.buffer.length ≤ n + 1 ∨ n + 1 < p.buffer.length := le_or_gt _ _
  have hprefix := hbuffer.length_le
  omega

/-- The next token was taken, if there is one. -/
theorem next_ok {o : Option Token} (h : next p = (.ok o, q)) :
    p.upcoming = .ok o ∧ p.Takes (o.toList.map .token) q ∧ q.trimNext = p.trimNext ∧
      q.buffer = p.buffer.tail := by
  obtain ⟨_, _, hget, h⟩ := bind_eq_ok h
  cases hget
  cases hbuffer : p.buffer with
  | cons t rest =>
      simp only [hbuffer] at h
      cases h
      exact ⟨by simp [Parser.upcoming, hbuffer], ⟨[], .nil _, by simp [hbuffer]⟩, rfl, rfl⟩
  | nil =>
      simp only [hbuffer] at h
      obtain ⟨l, hnext, rfl⟩ := pull_ok h
      refine ⟨by simp [Parser.upcoming, hbuffer, hnext], ?_, rfl, hbuffer⟩
      cases o with
      | none => exact ⟨[], .finished hnext (.nil _), by simp [hbuffer]⟩
      | some t => exact ⟨[.token t], .token hnext (.nil _), by simp [hbuffer]⟩

namespace InsideFrom

theorem bind {f : α → Parse β} (hx : InsideFrom P x Q) (hf : ∀ a, InsideFrom (Q a) (f a) R) :
    InsideFrom P (x >>= f) R := by
  intro p b q ho hp h
  obtain ⟨a, r, hxp, hfr⟩ := bind_eq_ok h
  obtain ⟨hpr, ha⟩ := hx p a r ho hp hxp
  obtain ⟨hrq, hb⟩ := hf a r b q (hpr.config ho ▸ ho) ha hfr
  exact ⟨hpr.trans hrq, hb⟩

theorem mono {Q' : α → Parser → Prop} (h : InsideFrom P x Q) (hP : ∀ p, P' p → P p)
    (hQ : ∀ a p, Q a p → Q' a p) : InsideFrom P' x Q' := by
  intro p a q ho hp hx
  obtain ⟨hpq, ha⟩ := h p a q ho (hP p hp) hx
  exact ⟨hpq, hQ a q ha⟩

theorem pure {a : α} (h : ∀ p, P p → Q a p) : InsideFrom P (Pure.pure a) Q := by
  intro p b q _ hp hx
  cases hx
  exact ⟨.refl p, h p hp⟩

/-- What is known before an action that needs no knowledge. -/
theorem of_inside {Q : α → Prop} (h : Inside Q x) : InsideFrom P x fun a _ => Q a :=
  h.mono (fun _ _ => trivial) fun _ _ ha => ha

/-- A token is looked at. -/
theorem peek (hP : Stable P) (n : Nat) :
    InsideFrom P (peek n) fun o p => P p ∧ p.buffer[n]? = o := by
  intro p o q ho hp h
  obtain ⟨htakes, htrim, hbuffer, hn, -⟩ := peek_ok ho h
  exact ⟨⟨⟨[], htakes, by simp⟩, htrim⟩, hP p q hbuffer hp, hn⟩

theorem peekKind (hP : Stable P) (n : Nat) :
    InsideFrom P (peekKind n) fun o p => P p ∧ p.buffer[n]?.map Token.kind = o :=
  (peek hP n).bind fun _ => pure fun _ h => ⟨h.1, by rw [h.2]⟩

theorem peekIs (hP : Stable P) (n : Nat) (kind : TokenKind) (value : String) :
    InsideFrom P (peekIs n kind value) fun b p =>
      P p ∧ (b = true → p.buffer[n]?.map Token.kind = some kind) := by
  refine (peek hP n).bind fun o => pure fun p h => ⟨h.1, fun hb => ?_⟩
  rw [h.2]
  cases o with
  | none => cases hb
  | some t =>
      simp only [Option.any_some, Token.is, Bool.and_eq_true, beq_iff_eq] at hb
      rw [Option.map_some, hb.1]

/-- A token that was looked at is taken. -/
theorem take {kind : TokenKind} {kinds : List TokenKind} (hkind : kind.isInner = true) :
    InsideFrom (Parser.Sees · (kind :: kinds)) next fun o p => o.isSome = true ∧ p.Sees kinds := by
  intro p o q ho hp h
  obtain ⟨t, rest, hbuffer, ht, hrest⟩ := hp.head
  obtain ⟨hupcoming, htakes, htrim, hq⟩ := next_ok h
  simp only [Parser.upcoming, hbuffer] at hupcoming
  cases hupcoming
  rw [hbuffer] at hq
  refine ⟨⟨⟨[t], htakes, List.forall_mem_singleton.2 (ht ▸ hkind)⟩, htrim⟩, rfl, ?_⟩
  rw [Parser.Sees, hq]
  exact hrest

/-- A token that was looked at is taken, and something else is read. -/
theorem takeThen {kind : TokenKind} {kinds : List TokenKind} (hkind : kind.isInner = true)
    {y : Parse β} (hy : InsideFrom (Parser.Sees · kinds) y R) :
    InsideFrom (Parser.Sees · (kind :: kinds)) (discard next >>= fun _ => y) R :=
  ((take hkind).bind fun _ => pure fun _ h => h.2).bind fun _ => hy

end InsideFrom

theorem stable_true : Stable fun _ => True := fun _ _ _ _ => trivial

theorem stable_sees (kinds : List TokenKind) : Stable (Parser.Sees · kinds) :=
  fun _ _ hbuffer h => h.trans (hbuffer.map _)

theorem stable_imp {c : Prop} (hP : Stable P) : Stable fun p => c → P p :=
  fun p q hbuffer h hc => hP p q hbuffer (h hc)

/-- The first token that was looked at. -/
theorem sees_singleton {kind : TokenKind} (h : p.buffer[0]?.map Token.kind = some kind) :
    p.Sees [kind] := by
  unfold Parser.Sees
  cases hbuffer : p.buffer with
  | nil => simp [hbuffer] at h
  | cons t rest =>
      rw [hbuffer] at h
      cases h
      simp

/-- One more token that was looked at. -/
theorem sees_pair {kind kind' : TokenKind} (h : p.Sees [kind])
    (h' : p.buffer[1]?.map Token.kind = some kind') : p.Sees [kind, kind'] := by
  obtain ⟨t, rest, hbuffer, rfl, -⟩ := h.head
  unfold Parser.Sees
  rw [hbuffer] at h' ⊢
  cases rest with
  | nil => cases h'
  | cons u rest =>
      cases h'
      simp

/-! ### Actions of which the results are known -/

namespace Inside

variable {Q Q' : α → Prop} {R : β → Prop}

theorem bind {f : α → Parse β} (hx : Inside Q x) (hf : ∀ a, Q a → Inside R (f a)) :
    Inside R (x >>= f) :=
  InsideFrom.bind hx fun a p b q ho ha h => hf a ha p b q ho trivial h

theorem mono (h : Inside Q x) (hQ : ∀ a, Q a → Q' a) : Inside Q' x :=
  InsideFrom.mono h (fun _ h => h) fun a _ ha => hQ a ha

theorem pure {a : α} (h : Q a) : Inside Q (Pure.pure a) := InsideFrom.pure fun _ _ => h

theorem map {f : α → β} (h : Inside Q x) (hf : ∀ a, Q a → R (f a)) : Inside R (f <$> x) :=
  h.bind fun a ha => pure (hf a ha)

theorem ignore (h : Inside Q x) : Inside (fun _ => True) (discard x) := h.map fun _ _ => trivial

/-- An action that fails. -/
theorem fails {e : TemplateError} : Inside Q (throw e : Parse α) := fun _ _ _ _ _ h => by cases h

theorem failAt (c : Cause) (p : Position) : Inside Q (failAt c p) := fails

theorem get : Inside (fun _ => True) (get : Parse Parser) := by
  intro p a q _ _ h
  cases h
  exact ⟨.refl p, trivial⟩

theorem endOfFile (what : String) : Inside Q (endOfFile what) := get.bind fun _ _ => failAt _ _

/-- An action that goes on unless something failed. -/
theorem guard {c : Prop} [Decidable c] {fail : Parse PUnit} {rest : PUnit → Parse β}
    (hfail : Inside (fun _ => True) fail) (hrest : ∀ u, Inside R (rest u)) :
    Inside R (if c then fail >>= rest else rest ⟨⟩) := by
  split
  · exact hfail.bind fun u _ => hrest u
  · exact hrest ⟨⟩

theorem peek (n : Nat) : Inside (fun _ => True) (peek n) :=
  (InsideFrom.peek stable_true n).mono (fun _ h => h) fun _ _ _ => trivial

theorem peekKind (n : Nat) : Inside (fun _ => True) (peekKind n) :=
  (peek n).bind fun _ _ => pure trivial

/-- A token is taken of which the kind is only looked at afterwards. -/
theorem next {f : Option Token → Parse β} (hnone : Inside R (f none))
    (hsome : ∀ t, Inside (fun b => t.kind.isInner = true ∧ R b) (f (some t))) :
    Inside R (next >>= f) := by
  intro p b q ho _ h
  obtain ⟨o, r, hnext, hfr⟩ := bind_eq_ok h
  obtain ⟨-, htakes, htrim, -⟩ := next_ok hnext
  have ho' := htakes.config ho ▸ ho
  cases o with
  | none =>
      obtain ⟨hrq, hb⟩ := hnone r b q ho' trivial hfr
      exact ⟨.trans ⟨⟨[], htakes, by simp⟩, htrim⟩ hrq, hb⟩
  | some t =>
      obtain ⟨hrq, hinner, hb⟩ := hsome t r b q ho' trivial hfr
      exact ⟨.trans ⟨⟨[t], htakes, List.forall_mem_singleton.2 hinner⟩, htrim⟩ hrq, hb⟩

theorem expect {kind : TokenKind} (hkind : kind.isInner = true) (what : String) :
    Inside (fun t => t.kind = kind) (expect kind what) := by
  unfold Parse.expect
  refine next (endOfFile what) fun t => ?_
  dsimp only
  split
  · rename_i ht
    exact pure ⟨ht ▸ hkind, ht⟩
  · exact failAt _ _

theorem skip {kind : TokenKind} (hkind : kind.isInner = true) :
    Inside (fun _ => True) (skip kind) := by
  unfold Parse.skip
  refine InsideFrom.bind (InsideFrom.peekKind stable_true 0) fun o => ?_
  split
  · rename_i ho
    exact (InsideFrom.takeThen hkind (.of_inside (pure trivial))).mono
      (fun p hp => sees_singleton (hp.2.trans ho)) fun _ _ h => h
  · exact .of_inside (pure trivial)

theorem skipValue {kind : TokenKind} (hkind : kind.isInner = true) (value : String) :
    Inside (fun _ => True) (skipValue kind value) := by
  unfold Parse.skipValue
  refine InsideFrom.bind (InsideFrom.peekIs stable_true 0 kind value) fun b => ?_
  split
  · rename_i hb
    exact (InsideFrom.takeThen hkind (.of_inside (pure trivial))).mono
      (fun p hp => sees_singleton (hp.2 hb)) fun _ _ h => h
  · exact .of_inside (pure trivial)

theorem skipSymbol (name : String) : Inside (fun _ => True) (skipSymbol name) := skipValue rfl name

theorem failHere (sentence : String) : Inside Q (failHere sentence) := by
  unfold Parse.failHere
  refine (peek 0).bind fun t _ => ?_
  cases t with
  | none => exact endOfFile sentence
  | some token => exact failAt _ _

/-- An action is repeated: what each repetition keeps, and what the last of them gives. -/
theorem iterate {step : α → Parse (α ⊕ β)} {a : α} (ha : Q a)
    (hstep : ∀ a, Q a → Inside (Sum.elim Q R) (step a)) : Inside R (iterate step a) := by
  have hwithin : ∀ (fuel : Nat) (a : α), Q a → Inside R (iterateWithin step fuel a) := by
    intro fuel
    induction fuel with
    | zero => exact fun _ _ => get.bind fun _ _ => failAt _ _
    | succ fuel ih =>
        intro a ha
        unfold Parse.iterateWithin
        refine (hstep a ha).bind fun r hr => ?_
        cases r with
        | inl a => exact ih a hr
        | inr b => exact pure hr
  exact get.bind fun p _ => hwithin p.size a ha

end Inside

end Parse

end Stencil
