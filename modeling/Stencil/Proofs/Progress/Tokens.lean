/-
**Reading goes on.**

An action that reads part of a template calls others, and itself, only after it has taken a token, and an
action that is repeated takes one each time.  So what it does at a parser is known from what the actions
that it calls do at parsers further on.  To compare an action with itself under two grammars is thus
enough to see that neither the loops nor the calls go on without end: the grammars need to be alike only
behind the tokens that are taken first.

Main definitions:

* `Stencil.Parser.Ahead` — a parser at a later moment, so many tokens further on;
* `Stencil.Parse.AlikeAt` — two actions that do the same at a parser, take so many tokens if they
  succeed, and do not run out of calls or rounds;
* `Stencil.Parse.Alike` — two actions that are alike wherever so many tokens were taken since a parser;
* `Stencil.Parse.GoesOn` — an action that is alike itself.

Main results:

* `Stencil.Parser.Ahead.size_le` — every token that is taken leaves less of a template;
* `Stencil.Parse.Alike.bind`, `Stencil.Parse.Alike.taking` — actions one after the other;
* `Stencil.Parse.Alike.iterateWithin`, `Stencil.Parse.Alike.iterate` — **rounds that take a token each
  come to an end**, whatever the bound on their number was.
-/

import Stencil.Proofs.Reading.Spans

set_option autoImplicit false

namespace Stencil

/-! ### What is left of a template -/

/-- How many of some portions are tokens. -/
def Portion.tokenCount (ps : List Portion) : Nat :=
  ps.countP fun
    | .token _ => true
    | .verbatim _ _ _ => false

namespace Portion

variable {ps qs : List Portion}

@[simp] theorem tokenCount_nil : tokenCount [] = 0 := rfl

@[simp] theorem tokenCount_token {t : Token} : tokenCount (.token t :: ps) = tokenCount ps + 1 := by
  simp [tokenCount]

@[simp] theorem tokenCount_verbatim {text : List Char} {trimBefore trimAfter : Bool} :
    tokenCount (.verbatim text trimBefore trimAfter :: ps) = tokenCount ps := by
  simp [tokenCount]

@[simp] theorem tokenCount_append : tokenCount (ps ++ qs) = tokenCount ps + tokenCount qs :=
  List.countP_append

@[simp] theorem tokenCount_map {ts : List Token} : tokenCount (ts.map .token) = ts.length := by
  induction ts with
  | nil => rfl
  | cons t ts ih => simp [ih]

end Portion

namespace Lexer

variable {l l' : Lexer} {ps : List Portion}

theorem nextVisible_length_lt (ho : l.config.IsProper) {t : Token}
    (h : l.nextVisible = (.ok (some t), l')) : l'.rest.length < l.rest.length := by
  have hnext : ∀ {l l' : Lexer} {t : Token}, l.config.IsProper → l.next = (.ok (some t), l') →
      l'.rest.length < l.rest.length := fun ho h => (next_steps ho h).choose_spec.length_lt
  rcases nextVisible_cases h with h | ⟨blank, l₁, hblank, -, h⟩
  · exact hnext ho h
  · exact (hnext (next_config ho hblank ▸ ho) h).trans (hnext ho hblank)

theorem dropNewline_length_le (l : Lexer) : l.dropNewline.rest.length ≤ l.rest.length := by
  unfold dropNewline
  split
  · have hsplit := (Lexeme.newline_eq l.rest).1
    rw [moved_rest]
    conv_rhs => rw [hsplit]
    simp
  · exact le_rfl

/-- The text of a raw tag is looked for further on. -/
theorem IsRaw.length_le {name : String} {text : List Char} {trimBefore trimAfter : Bool}
    (h : l.IsRaw name text trimBefore trimAfter l') : l'.rest.length ≤ l.rest.length := by
  obtain ⟨rest, hraw, rfl⟩ := h
  obtain ⟨tag, -, heq⟩ := rawText?_eq hraw
  refine (dropNewline_length_le _).trans ?_
  have hlength := congrArg List.length heq
  simp only [List.nil_append, List.length_append] at hlength
  rw [moved_rest]
  omega

/-- Every token that is read is cut from what is not read yet. -/
theorem Reads.length_le (h : l.Reads ps l') (ho : l.config.IsProper) :
    l'.rest.length + Portion.tokenCount ps ≤ l.rest.length := by
  induction h with
  | nil => simp
  | token h _ ih =>
      have hlt := nextVisible_length_lt ho h
      have hmore := ih (nextVisible_config ho h ▸ ho)
      rw [Portion.tokenCount_token]
      omega
  | finished h hreads =>
      obtain ⟨rfl, rfl⟩ := hreads.of_end (nextVisible_config ho h ▸ ho) (nextVisible_none h)
      simp [nextVisible_none h]
  | verbatim _ h _ ih =>
      have hle := h.length_le
      have hmore := ih (h.config ▸ ho)
      rw [Portion.tokenCount_verbatim]
      omega

/-- An error of a lexer is about a piece that it could not read. -/
theorem next_cause {e : TemplateError} (h : l.next = (.error e, l')) : e.cause ≠ .nestingTooDeep := by
  have hstart : ∀ {m : Lexer}, m.tagStart? = some (.error e, l') → e.cause ≠ .nestingTooDeep := by
    intro m h
    unfold tagStart? at h
    dsimp only at h
    repeat' split at h
    all_goals cases h
    exact Cause.noConfusion
  cases htag : l.inTag with
  | false =>
      have hrest : l.rest ≠ [] := by
        intro hrest
        simp [next, hrest] at h
      obtain ⟨c, s, hcons⟩ := List.exists_cons_of_ne_nil hrest
      simp only [next, hcons, htag, Bool.false_eq_true, if_false] at h
      exact hstart (textToken_error h).1
  | true =>
      unfold next at h
      split at h
      · cases h
      simp only [htag, if_true] at h
      obtain ⟨hanswer, -⟩ := Prod.mk.inj h
      unfold tagToken stringToken patternToken punctuationToken wordToken at hanswer
      dsimp only at hanswer
      repeat' split at hanswer
      all_goals cases hanswer
      all_goals exact Cause.noConfusion

theorem nextVisible_cause {e : TemplateError} (h : l.nextVisible = (.error e, l')) :
    e.cause ≠ .nestingTooDeep := by
  unfold nextVisible at h
  split at h
  · split at h
    · exact next_cause h
    · cases h
  · exact next_cause h

end Lexer

/-! ### Parsers -/

namespace Parser

/-- A parser at a later moment, at least so many tokens further on. -/
def Ahead (p : Parser) (count : Nat) (q : Parser) : Prop :=
  ∃ ps, p.Takes ps q ∧ count ≤ Portion.tokenCount ps

variable {p q r : Parser} {m n : Nat}

theorem Ahead.refl (p : Parser) : p.Ahead 0 p := ⟨[], .refl p, Nat.zero_le _⟩

theorem Ahead.trans (h : p.Ahead m q) (h' : q.Ahead n r) : p.Ahead (m + n) r := by
  obtain ⟨ps, htakes, hps⟩ := h
  obtain ⟨qs, htakes', hqs⟩ := h'
  refine ⟨ps ++ qs, htakes.trans htakes', ?_⟩
  rw [Portion.tokenCount_append]
  omega

theorem Ahead.mono (h : p.Ahead m q) (hle : n ≤ m) : p.Ahead n q := by
  obtain ⟨ps, htakes, hps⟩ := h
  exact ⟨ps, htakes, hle.trans hps⟩

theorem Ahead.config (h : p.Ahead m q) (ho : p.lexer.config.IsProper) :
    q.lexer.config = p.lexer.config := h.choose_spec.1.config ho

/-- **Every token that is taken leaves less of a template**, where a token that was only looked at
counts less than the text that it was cut from. -/
theorem Ahead.size_le (h : p.Ahead m q) (ho : p.lexer.config.IsProper) : q.size + m ≤ p.size := by
  obtain ⟨ps, ⟨pulled, hreads, heq⟩, hps⟩ := h
  have hlength := hreads.length_le ho
  have hcount := congrArg Portion.tokenCount heq
  simp only [Portion.tokenCount_append, Portion.tokenCount_map] at hcount
  unfold size
  omega

end Parser

/-! ### Actions -/

namespace Parse

variable {α β : Type} {p q s : Parser} {c : Nat} {takes : α → Nat} {x y : Parse α}

/-- What an action gives at a parser: a result, with at least so many tokens taken, or an error that is
not that of running out of calls or rounds. -/
def Answers (p : Parser) (takes : α → Nat) : Except TemplateError α × Parser → Prop
  | (.ok a, q) => p.Ahead (takes a) q
  | (.error e, _) => e.cause ≠ .nestingTooDeep

/-- What is given at a parser further on is given behind more tokens. -/
theorem Answers.behind {n : Nat} {r : Except TemplateError α × Parser}
    (h : Answers q (fun a => takes a - n) r) (hpq : p.Ahead n q) : Answers p takes r := by
  rcases r with ⟨e | a, q'⟩
  · exact h
  · have hq : q.Ahead (takes a - n) q' := h
    exact (hpq.trans hq).mono (by omega)

/-- Two actions that do the same at a parser, take at least so many tokens if they succeed, and do not
run out of calls or rounds. -/
def AlikeAt (p : Parser) (takes : α → Nat) (x y : Parse α) : Prop :=
  x p = y p ∧ Answers p takes (x p)

/-- Two actions that are alike wherever at least so many tokens were taken since a parser. -/
def Alike (s : Parser) (c : Nat) (takes : α → Nat) (x y : Parse α) : Prop :=
  ∀ p, s.Ahead c p → p.lexer.config.IsProper → AlikeAt p takes x y

/-- An action that takes at least so many tokens if it succeeds, and does not run out of calls or rounds. -/
abbrev GoesOn (s : Parser) (c : Nat) (takes : α → Nat) (x : Parse α) : Prop := Alike s c takes x x

/-- One of two actions one after the other fails. -/
theorem bind_eq_error {f : α → Parse β} {e : TemplateError} (h : (x >>= f) p = (.error e, q)) :
    x p = (.error e, q) ∨ ∃ a r, x p = (.ok a, r) ∧ f a r = (.error e, q) := by
  rw [bind_eq_match] at h
  rcases hx : x p with ⟨e' | a, r⟩
  · rw [hx] at h
    cases h
    exact .inl rfl
  · rw [hx] at h
    exact .inr ⟨a, r, rfl, h⟩

theorem pull_error {e : TemplateError} (h : pull p = (.error e, q)) : e.cause ≠ .nestingTooDeep := by
  change (p.lexer.nextVisible.1, { p with lexer := p.lexer.nextVisible.2 }) = _ at h
  exact Lexer.nextVisible_cause (Prod.ext (Prod.mk.inj h).1 rfl)

theorem fill_error {n : Nat} {e : TemplateError} (h : fill n p = (.error e, q)) :
    e.cause ≠ .nestingTooDeep := by
  induction n generalizing p with
  | zero => cases h
  | succ n ih =>
      rcases bind_eq_error h with h | ⟨o, r, -, h⟩
      · exact pull_error h
      · cases o with
        | none => cases h
        | some t =>
            rcases bind_eq_error h with h | ⟨_, r', -, h⟩
            · cases h
            · exact ih h

theorem peek_error {n : Nat} {e : TemplateError} (h : peek n p = (.error e, q)) :
    e.cause ≠ .nestingTooDeep := by
  rcases bind_eq_error h with h | ⟨_, _, -, h⟩
  · cases h
  rcases bind_eq_error h with h | ⟨_, _, -, h⟩
  · exact fill_error h
  · rcases bind_eq_error h with h | ⟨_, _, -, h⟩ <;> cases h

theorem next_error {e : TemplateError} (h : next p = (.error e, q)) : e.cause ≠ .nestingTooDeep := by
  rcases bind_eq_error h with h | ⟨_, _, hget, h⟩
  · cases h
  cases hget
  cases hbuffer : p.buffer with
  | cons t rest =>
      simp only [hbuffer] at h
      cases h
  | nil =>
      simp only [hbuffer] at h
      exact pull_error h

/-- The next token was looked at already. -/
theorem discard_next_eq {t : Token} {rest : List Token} (h : p.buffer = t :: rest) :
    discard next p = (.ok (), { p with buffer := rest }) := by
  obtain ⟨lexer, buffer, trimNext, opened⟩ := p
  cases h
  rfl

namespace AlikeAt

theorem mono {takes' : α → Nat} (h : AlikeAt p takes x y) (hle : ∀ a, takes' a ≤ takes a) :
    AlikeAt p takes' x y := by
  obtain ⟨heq, hanswers⟩ := h
  refine ⟨heq, ?_⟩
  rcases hx : x p with ⟨e | a, q⟩
  · rw [hx] at hanswers
    exact hanswers
  · rw [hx] at hanswers
    exact hanswers.mono (hle a)

/-- Two actions one after the other. -/
theorem bind {takes' : β → Nat} {f f' : α → Parse β} (hx : AlikeAt p takes x y)
    (hf : ∀ a q, x p = (.ok a, q) → AlikeAt q (fun b => takes' b - takes a) (f a) (f' a)) :
    AlikeAt p takes' (x >>= f) (y >>= f') := by
  obtain ⟨heq, hanswers⟩ := hx
  unfold AlikeAt
  rw [bind_eq_match, bind_eq_match, ← heq]
  rcases hxp : x p with ⟨e | a, q⟩
  · rw [hxp] at hanswers
    exact ⟨rfl, hanswers⟩
  · rw [hxp] at hanswers
    obtain ⟨heq', hanswers'⟩ := hf a q hxp
    exact ⟨heq', hanswers'.behind hanswers⟩

theorem pure {a : α} (h : takes a = 0) : AlikeAt p takes (Pure.pure a) (Pure.pure a) := by
  refine ⟨rfl, ?_⟩
  change p.Ahead (takes a) p
  rw [h]
  exact .refl p

/-- A token that was looked at is taken. -/
theorem takeThen {t : Token} {rest : List Token} (hbuffer : p.buffer = t :: rest) {takes : β → Nat}
    {y y' : Parse β} (h : AlikeAt { p with buffer := rest } (fun b => takes b - 1) y y') :
    AlikeAt p takes (discard next >>= fun _ => y) (discard next >>= fun _ => y') := by
  have hnext : discard next p = (.ok (), { p with buffer := rest }) := discard_next_eq hbuffer
  have htaken : AlikeAt p (fun _ => 1) (discard next) (discard next) := by
    refine ⟨rfl, ?_⟩
    rw [hnext]
    exact ⟨[.token t], ⟨[], .nil _, by simp [hbuffer]⟩, by simp⟩
  refine htaken.bind fun _ q hq => ?_
  rw [hnext] at hq
  cases hq
  exact h

end AlikeAt

namespace Alike

variable {takes' : β → Nat} {f f' : α → Parse β}

theorem mono {takes' : α → Nat} (h : Alike s c takes x y) (hle : ∀ a, takes' a ≤ takes a) :
    Alike s c takes' x y := fun p hp ho => (h p hp ho).mono hle

/-- What is alike behind some tokens is alike behind more of them. -/
theorem later {c' : Nat} (h : Alike s c takes x y) (hle : c ≤ c') : Alike s c' takes x y :=
  fun p hp => h p (hp.mono hle)

/-- Two actions one after the other, of which the first may take tokens that the second counts on. -/
theorem bindTaking (hx : Alike s c takes x y)
    (hf : ∀ a, Alike s (c + takes a) (fun b => takes' b - takes a) (f a) (f' a)) :
    Alike s c takes' (x >>= f) (y >>= f') := by
  intro p hp ho
  obtain ⟨heq, hanswers⟩ := hx p hp ho
  refine AlikeAt.bind ⟨heq, hanswers⟩ fun a q hxp => ?_
  rw [hxp] at hanswers
  have hpq : p.Ahead (takes a) q := hanswers
  exact hf a q (hp.trans hpq) (hpq.config ho ▸ ho)

/-- Two actions one after the other. -/
theorem bind (hx : Alike s c takes x y) (hf : ∀ a, Alike s c takes' (f a) (f' a)) :
    Alike s c takes' (x >>= f) (y >>= f') :=
  (hx.mono fun _ => Nat.zero_le _).bindTaking hf

/-- An action that takes a token comes first. -/
theorem taking (hx : Alike s c (fun _ => 1) x y)
    (hf : ∀ a, Alike s (c + 1) (fun _ => 0) (f a) (f' a)) :
    Alike s c (fun _ => 1) (x >>= f) (y >>= f') :=
  hx.bindTaking hf

/-- A token is taken or not, and what follows is known in both cases. -/
theorem choose {x y : Parse Bool} {a a' b b' : Parse β} (hx : Alike s c Bool.toNat x y)
    (ha : Alike s (c + 1) (fun b => takes' b - 1) a a') (hb : Alike s c takes' b b') :
    Alike s c takes' (x >>= fun r => if r = true then a else b)
      (y >>= fun r => if r = true then a' else b') :=
  hx.bindTaking fun r => by
    cases r with
    | false => exact hb
    | true => exact ha

theorem pure {a : α} (h : takes a = 0) : GoesOn s c takes (Pure.pure a) :=
  fun _ _ _ => .pure h

/-- Something that is known comes first. -/
theorem given {a : α} (h : Alike s c takes' (f a) (f' a)) :
    Alike s c takes' (Pure.pure a >>= f) (Pure.pure a >>= f') := h

/-- A result that is not looked at. -/
theorem ignore (h : Alike s c takes x y) : Alike s c (fun _ => 0) (discard x) (discard y) :=
  h.bind fun _ => pure rfl

/-- Something that may be missing. -/
theorem present (h : Alike s c takes x y) : Alike s c (fun _ => 0) (some <$> x) (some <$> y) :=
  h.bind fun _ => pure rfl

/-- A result that is not looked at, behind tokens that are counted. -/
theorem dropping {n : Nat} (h : Alike s c (fun _ => n) x y) :
    Alike s c (fun _ => n) (discard x) (discard y) :=
  h.bindTaking fun _ => pure (Nat.sub_self n)

theorem ite {P : Prop} [Decidable P] {x' y' : Parse α} (h : P → Alike s c takes x y)
    (h' : ¬P → Alike s c takes x' y') :
    Alike s c takes (if P then x else x') (if P then y else y') := by
  split
  · exact h ‹_›
  · exact h' ‹_›

/-- An action that goes on unless something failed. -/
theorem guard {P : Prop} [Decidable P] {fail : Parse PUnit} {rest rest' : PUnit → Parse β}
    (hfail : GoesOn s c (fun _ => 0) fail) (hrest : ∀ u, Alike s c takes' (rest u) (rest' u)) :
    Alike s c takes' (if P then fail >>= rest else rest ⟨⟩)
      (if P then fail >>= rest' else rest' ⟨⟩) :=
  ite (fun _ => hfail.bind hrest) fun _ => hrest ⟨⟩

theorem fails {e : TemplateError} (h : e.cause ≠ .nestingTooDeep) : GoesOn s c takes (throw e) :=
  fun _ _ _ => ⟨rfl, h⟩

theorem failAt {cause : Cause} (h : cause ≠ .nestingTooDeep) (p : Position) :
    GoesOn s c takes (failAt cause p) := fails h

theorem get : GoesOn s c (fun _ => 0) (get : Parse Parser) := fun p _ _ => ⟨rfl, .refl p⟩

theorem endOfFile (what : String) : GoesOn s c takes (endOfFile what) :=
  get.bind fun _ => failAt Cause.noConfusion _

/-- Nothing is taken where the lexer and the tokens that were looked at stay the same. -/
theorem modify {f : Parser → Parser} (hlexer : ∀ p, (f p).lexer = p.lexer)
    (hbuffer : ∀ p, (f p).buffer = p.buffer) :
    GoesOn s c (fun _ => 0) (modify f : Parse Unit) := by
  refine fun p _ _ => ⟨rfl, [], ⟨[], ?_, ?_⟩, le_rfl⟩
  · exact hlexer p ▸ .nil _
  · simp [hbuffer]

/-! ### Tokens -/

/-- A token is looked at. -/
theorem peek (n : Nat) : GoesOn s c (fun _ => 0) (peek n) := by
  intro p _ ho
  refine ⟨rfl, ?_⟩
  rcases h : Parse.peek n p with ⟨e | o, q⟩
  · exact peek_error h
  · exact ⟨[], (peek_ok ho h).1, le_rfl⟩

theorem peekKind (n : Nat) : GoesOn s c (fun _ => 0) (peekKind n) :=
  (peek n).bind fun _ => pure rfl

theorem peekIs (n : Nat) (kind : TokenKind) (value : String) :
    GoesOn s c (fun _ => 0) (peekIs n kind value) :=
  (peek n).bind fun _ => pure rfl

/-- The next token is taken, if there is one. -/
theorem next : GoesOn s c (fun t => t.toList.length) next := by
  intro p _ _
  refine ⟨rfl, ?_⟩
  rcases h : Parse.next p with ⟨e | o, q⟩
  · exact next_error h
  · exact ⟨_, (next_ok h).2.1, by rw [Portion.tokenCount_map]⟩

/-- A token is taken of which the kind is only looked at afterwards. -/
theorem nextThen {f f' : Option Token → Parse β} (hnone : Alike s c takes' (f none) (f' none))
    (hsome : ∀ t, Alike s (c + 1) (fun b => takes' b - 1) (f (some t)) (f' (some t))) :
    Alike s c takes' (Parse.next >>= f) (Parse.next >>= f') :=
  next.bindTaking fun t => by
    cases t with
    | none => exact hnone
    | some t => exact hsome t

theorem expect (kind : TokenKind) (what : String) : GoesOn s c (fun _ => 1) (expect kind what) :=
  nextThen (endOfFile what) fun _ => ite (fun _ => pure rfl) fun _ => failAt Cause.noConfusion _

theorem symbol (what : String) : GoesOn s c (fun _ => 1) (symbol what) :=
  (expect .symbol what).taking fun _ => pure rfl

theorem failHere (sentence : String) : GoesOn s c takes (failHere sentence) :=
  (peek 0).bind fun t => by
    cases t with
    | none => exact endOfFile sentence
    | some t => exact failAt Cause.noConfusion _

end Alike

/-! ### Tokens that were looked at -/

/-- Two actions that are alike where a token was looked at already. -/
def Ready (s : Parser) (c : Nat) (takes : α → Nat) (x y : Parse α) : Prop :=
  ∀ p, s.Ahead c p → p.lexer.config.IsProper → p.buffer ≠ [] → AlikeAt p takes x y

theorem Alike.ready (h : Alike s c takes x y) : Ready s c takes x y := fun p hp ho _ => h p hp ho

namespace Ready

variable {takes' : β → Nat} {z z' : Parse β}

/-- The next token is known to be there, so it is taken. -/
theorem take (h : Alike s (c + 1) (fun b => takes' b - 1) z z') :
    Ready s c takes' (discard next >>= fun _ => z) (discard next >>= fun _ => z') := by
  intro p hp ho hbuffer
  obtain ⟨t, rest, hbuffer⟩ := List.exists_cons_of_ne_nil hbuffer
  have htaken : p.Ahead 1 { p with buffer := rest } :=
    ⟨[.token t], ⟨[], .nil _, by simp [hbuffer]⟩, by simp⟩
  exact .takeThen hbuffer (h _ (hp.trans htaken) ho)

/-- The token that was looked at is taken first. -/
theorem taking {f f' : α → Parse β} (hx : Ready s c (fun _ => 1) x y)
    (hf : ∀ a, Alike s (c + 1) (fun b => takes' b - 1) (f a) (f' a)) :
    Ready s c takes' (x >>= f) (y >>= f') := by
  intro p hp ho hne
  obtain ⟨heq, hanswers⟩ := hx p hp ho hne
  refine AlikeAt.bind ⟨heq, hanswers⟩ fun a q hxp => ?_
  rw [hxp] at hanswers
  have hpq : p.Ahead 1 q := hanswers
  exact hf a q (hp.trans hpq) (hpq.config ho ▸ ho)

theorem ite {P : Prop} [Decidable P] {x' y' : Parse α} (h : P → Ready s c takes x y)
    (h' : ¬P → Ready s c takes x' y') :
    Ready s c takes (if P then x else x') (if P then y else y') := by
  split
  · exact h ‹_›
  · exact h' ‹_›

theorem modifyThen {f : Parser → Parser} (hlexer : ∀ p, (f p).lexer = p.lexer)
    (hbuffer : ∀ p, (f p).buffer = p.buffer) (h : Ready s c takes' z z') :
    Ready s c takes' (modify f >>= fun _ => z) (modify f >>= fun _ => z') := by
  intro p hp ho hne
  have hmodify := Alike.modify hlexer hbuffer p hp ho
  refine hmodify.bind fun _ q hq => ?_
  cases hq
  have hpq : p.Ahead 0 (f p) := hmodify.2
  exact h _ (hp.trans hpq) ((hlexer p).symm ▸ ho) ((hbuffer p).symm ▸ hne)

theorem peekThen {n : Nat} {f f' : Option Token → Parse β}
    (h : ∀ t, Ready s c takes' (f t) (f' t)) :
    Ready s c takes' (peek n >>= f) (peek n >>= f') := by
  intro p hp ho hne
  refine (Alike.peek n p hp ho).bind fun o q hq => ?_
  obtain ⟨htakes, -, ⟨more, hmore⟩, -, -⟩ := peek_ok ho hq
  refine h o q (hp.trans ⟨[], htakes, le_rfl⟩) (htakes.config ho ▸ ho) fun hnil => hne ?_
  rw [hnil] at hmore
  exact (List.append_eq_nil_iff.1 hmore).1

end Ready

namespace Alike

variable {takes' : β → Nat}

/-- A token that is looked at is there, or it is not. -/
theorem peekThen {n : Nat} {f f' : Option Token → Parse β}
    (hnone : Alike s c takes' (f none) (f' none))
    (hsome : ∀ t, Ready s c takes' (f (some t)) (f' (some t))) :
    Alike s c takes' (Parse.peek n >>= f) (Parse.peek n >>= f') := by
  intro p hp ho
  refine (Alike.peek n p hp ho).bind fun o q hpeek => ?_
  obtain ⟨htakes, -, -, hbuffer, -⟩ := peek_ok ho hpeek
  have hq : s.Ahead c q := hp.trans ⟨[], htakes, le_rfl⟩
  have hoq := htakes.config ho ▸ ho
  cases o with
  | none => exact hnone q hq hoq
  | some t =>
      refine hsome t q hq hoq fun hnil => ?_
      rw [hnil] at hbuffer
      cases hbuffer

/-- Of a token only the kind is looked at. -/
theorem peekKindThen {n : Nat} {f f' : Option TokenKind → Parse β}
    (hnone : Alike s c takes' (f none) (f' none))
    (hsome : ∀ kind, Ready s c takes' (f (some kind)) (f' (some kind))) :
    Alike s c takes' (Parse.peekKind n >>= f) (Parse.peekKind n >>= f') := by
  unfold Parse.peekKind
  rw [bind_assoc, bind_assoc]
  simp only [pure_bind]
  exact peekThen hnone fun t => hsome t.kind

/-- A token of a known kind is taken if it is next. -/
theorem skip (kind : TokenKind) : GoesOn s c Bool.toNat (skip kind) :=
  peekKindThen (pure rfl) fun _ => .ite (fun _ => .take (pure rfl)) fun _ => Alike.ready (pure rfl)

theorem skipValue (kind : TokenKind) (value : String) :
    GoesOn s c Bool.toNat (skipValue kind value) := by
  unfold Parse.skipValue Parse.peekIs
  rw [bind_assoc]
  exact peekThen (pure rfl) fun _ => .ite (fun _ => .take (pure rfl)) fun _ => Alike.ready (pure rfl)

theorem skipSymbol (name : String) : GoesOn s c Bool.toNat (skipSymbol name) :=
  skipValue .symbol name

/-! ### Rounds -/

/-- **Rounds that take a token each come to an end**, whatever the bound on their number was. -/
theorem iterateWithin {round round' : α → Parse (α ⊕ β)}
    (hround : ∀ a, Alike s c (Sum.elim (fun _ => 1) takes') (round a) (round' a)) {fuel fuel' : Nat}
    (hp : s.Ahead c p) (ho : p.lexer.config.IsProper) (hfuel : p.size ≤ fuel) (hfuel' : p.size ≤ fuel')
    (a : α) : AlikeAt p takes' (iterateWithin round fuel a) (iterateWithin round' fuel' a) := by
  induction fuel generalizing fuel' p a with
  | zero => simp [Parser.size] at hfuel
  | succ fuel ih =>
      cases fuel' with
      | zero => simp [Parser.size] at hfuel'
      | succ fuel' =>
          refine AlikeAt.bind (hround a p hp ho) fun r q hr => ?_
          obtain ⟨-, hanswers⟩ := hround a p hp ho
          rw [hr] at hanswers
          have hpq : p.Ahead (Sum.elim (fun _ => 1) takes' r) q := hanswers
          -- A round that is not the last takes a token: less is left for the rounds to come.
          cases r with
          | inl a =>
              have hq := (hp.trans hpq).mono (Nat.le_add_right c _)
              have hoq := hpq.config ho ▸ ho
              have hsize := hpq.size_le ho
              rw [Sum.elim_inl] at hsize
              exact (ih hq hoq (by omega) (by omega) a).mono fun b => Nat.sub_le _ _
          | inr b => exact .pure (Nat.sub_self _)

/-- An action is repeated that takes a token each time. -/
theorem iterate {round round' : α → Parse (α ⊕ β)}
    (hround : ∀ a, Alike s c (Sum.elim (fun _ => 1) takes') (round a) (round' a)) (a : α) :
    Alike s c takes' (iterate round a) (iterate round' a) :=
  fun _ hp ho => iterateWithin hround hp ho le_rfl le_rfl a

end Alike

end Parse

end Stencil
