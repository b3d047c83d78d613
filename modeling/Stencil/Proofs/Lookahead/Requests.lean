/-
**Looking ahead changes nothing.**

A parser takes tokens and looks at tokens that it takes later.  Two actions ask the lexer for more: looking
fills the buffer, and taking goes past the buffer when nothing waits in it.  Nevertheless what a request is
answered depends only on the tokens of the template and on how many of them were taken, and not on what was
looked at before, on where looking failed, or on how often the end was met.

Main definitions:

* `Stencil.Parser.outlook` — what stands at a place of the tokens that are not taken yet;
* `Stencil.Parser.Past`, `Stencil.Parser.Looked` — a parser that has taken so many tokens since another
  moment, and one that has only looked at tokens;
* `Stencil.Parser.Request`, `Stencil.Parser.Request.act`, `Stencil.Parser.run` — what a host asks of a
  parser, and the answers, one after the other;
* `Stencil.Parser.Request.settle`, `Stencil.Parser.settleAll` — the answers by the sequence of tokens alone,
  with the tokens that are taken.

Main results:

* `Stencil.Parse.peek_eq`, `Stencil.Parse.next_eq`, `Stencil.Parse.skipThat_eq`, `Stencil.Parse.expect_eq` —
  what looking and taking give, and what they leave;
* `Stencil.Parser.Request.act_settles`, `Stencil.Parser.run_settles` — one request, and a run of them;
* `Stencil.Parser.run_transparent` — **lookahead neither loses tokens nor reorders them**.
-/

import Stencil.Proofs.Lookahead.Places
import Stencil.Proofs.Reading.Actions

set_option autoImplicit false

namespace Stencil

/-! ### What a parser has before it -/

namespace Parser

variable {p q r : Parser} {l : Lexer} {t : Token} {answer : Except TemplateError (Option Token)} {j k n : Nat}

/-- **What stands at a place of the tokens that are not taken yet**: those looked at come first. -/
def outlook (p : Parser) (n : Nat) : Except TemplateError (Option Token) :=
  match p.buffer[n]? with
  | some t => .ok (some t)
  | none => p.lexer.visibleAt (n - p.buffer.length)

/-- A parser that has taken `k` tokens since another moment. -/
structure Past (p : Parser) (k : Nat) (q : Parser) : Prop where
  outlook : ∀ n, q.outlook n = p.outlook (k + n)
  finish : q.lexer.finish = p.lexer.finish

/-- A parser that has only looked at tokens since another moment. -/
structure Looked (p q : Parser) : Prop extends p.Past 0 q where
  buffer : p.buffer <+: q.buffer

theorem Past.refl (p : Parser) : p.Past 0 p := ⟨fun n => by rw [Nat.zero_add], rfl⟩

theorem Past.trans (h : p.Past j q) (h' : q.Past k r) : p.Past (j + k) r where
  outlook n := by rw [h'.outlook, h.outlook, Nat.add_assoc]
  finish := h'.finish.trans h.finish

theorem Looked.refl (p : Parser) : p.Looked p := ⟨.refl p, List.prefix_rfl⟩

theorem Looked.trans (h : p.Looked q) (h' : q.Looked r) : p.Looked r :=
  ⟨h.toPast.trans h'.toPast, h.buffer.trans h'.buffer⟩

theorem outlook_buffer (h : p.buffer[n]? = some t) : p.outlook n = .ok (some t) := by
  rw [outlook, h]

theorem outlook_lexer (h : p.buffer.length ≤ n) : p.outlook n = p.lexer.visibleAt (n - p.buffer.length) := by
  rw [outlook, List.getElem?_eq_none h]

/-- The token of an answer, if it is one. -/
def tokenOf : Except TemplateError (Option Token) → List Token
  | .ok found => found.toList
  | .error _ => []

theorem tokenOf_stop (h : Lexer.IsStop answer) : tokenOf answer = [] := by
  match answer with
  | .ok (some t) => exact absurd rfl (h t)
  | .ok none | .error e => rfl

theorem mem_tokenOf : t ∈ tokenOf answer ↔ answer = .ok (some t) := by
  cases answer <;> simp [tokenOf]

/-- A token that the lexer gives joins the buffer. -/
theorem looked_token (h : p.lexer.nextVisible = (.ok (some t), l)) :
    p.Looked { p with lexer := l, buffer := p.buffer ++ [t] } := by
  refine ⟨⟨fun n => ?_, by simpa only [h] using p.lexer.nextVisible_finish⟩, List.prefix_append ..⟩
  rw [Nat.zero_add]
  rcases lt_trichotomy n p.buffer.length with hn | rfl | hn
  · have hplace := List.getElem?_eq_getElem hn
    rw [outlook_buffer hplace]
    exact outlook_buffer (by rw [List.getElem?_append_left hn, hplace])
  · rw [outlook_lexer le_rfl, Nat.sub_self, Lexer.visibleAt_zero, h]
    exact outlook_buffer (by simp)
  · obtain ⟨m, rfl⟩ := Nat.exists_eq_add_of_lt hn
    have hplace : p.buffer.length + m + 1 - p.buffer.length = m + 1 := by omega
    rw [outlook_lexer hn.le, hplace, Lexer.visibleAt_succ h, outlook_lexer (by simp)]
    simp only [List.length_append, List.length_singleton]
    congr 1
    omega

/-- The lexer gives no token. -/
theorem looked_stop (h : p.lexer.nextVisible = (answer, l)) (hstop : Lexer.IsStop answer) :
    p.Looked { p with lexer := l } := by
  refine ⟨⟨fun n => ?_, by simpa only [h] using p.lexer.nextVisible_finish⟩, List.prefix_rfl⟩
  rw [Nat.zero_add]
  rcases lt_or_ge n p.buffer.length with hn | hn
  · have hplace := List.getElem?_eq_getElem hn
    rw [outlook_buffer hplace]
    exact outlook_buffer hplace
  · obtain ⟨hbefore, hafter⟩ := Lexer.visibleAt_over (n := n - p.buffer.length) h hstop
    have hplace : Parser.outlook { p with lexer := l } n = l.visibleAt (n - p.buffer.length) :=
      outlook_lexer hn
    rw [outlook_lexer hn, hplace, hbefore, hafter]

/-- The first of the tokens looked at is taken. -/
theorem past_tail {rest : List Token} (h : p.buffer = t :: rest) : p.Past 1 { p with buffer := rest } where
  outlook n := by
    simp only [outlook, h, Nat.add_comm 1 n, List.getElem?_cons_succ, List.length_cons, Nat.add_sub_add_right]
  finish := rfl

end Parser

/-! ### Looking and taking -/

namespace Parse

open Stencil.Parser

variable {p q : Parser} {l : Lexer} {t : Token} {n : Nat}

/-- To fill the buffer is to look: up to the number that was asked for, what it holds then is what is to
come, and an error stands at the last place that was asked for. -/
theorem fill_eq (n : Nat) (p : Parser) : p.Looked (fill n p).2 ∧
    match (fill n p).1 with
    | .ok () => ∀ i < p.buffer.length + n, p.outlook i = .ok (fill n p).2.buffer[i]?
    | .error e => ∀ i, p.buffer.length + n ≤ i + 1 → p.outlook i = .error e := by
  -- By induction on the number of tokens to be pulled.  An error, or the end, leaves the lexer where it meets
  -- the same again, so that it stands at all places from there on.
  induction n generalizing p with
  | zero =>
      refine ⟨.refl p, fun i hi => ?_⟩
      have hplace := List.getElem?_eq_getElem (show i < p.buffer.length from hi)
      rw [outlook_buffer hplace]
      exact congrArg Except.ok hplace.symm
  | succ n ih =>
      rcases hnext : p.lexer.nextVisible with ⟨e | (_ | t), l⟩
      · rw [fill_stuck hnext]
        refine ⟨looked_stop hnext (Lexer.isStop_error e), fun i hi => ?_⟩
        rw [outlook_lexer (by omega)]
        exact (Lexer.visibleAt_over hnext (Lexer.isStop_error e)).1
      · rw [fill_none hnext]
        refine ⟨looked_stop hnext Lexer.isStop_none, fun i _ => ?_⟩
        rcases lt_or_ge i p.buffer.length with hi | hi
        · have hplace := List.getElem?_eq_getElem hi
          rw [outlook_buffer hplace, hplace]
        · rw [outlook_lexer hi, List.getElem?_eq_none hi]
          exact (Lexer.visibleAt_over hnext Lexer.isStop_none).1
      · rw [fill_token hnext]
        have hlooked := looked_token hnext
        obtain ⟨hmore, hfilled⟩ := ih { p with lexer := l, buffer := p.buffer ++ [t] }
        refine ⟨hlooked.trans hmore, ?_⟩
        have hsame : ∀ i, p.outlook i = Parser.outlook { p with lexer := l, buffer := p.buffer ++ [t] } i :=
          fun i => by rw [hlooked.outlook, Nat.zero_add]
        simp only [List.length_append, List.length_singleton] at hfilled
        split at hfilled
        · exact fun i hi => (hsame i).trans (hfilled i (by omega))
        · exact fun i hi => (hsame i).trans (hfilled i (by omega))

/-- **Looking gives what stands at the place**, and leaves everything there. -/
theorem peek_eq (n : Nat) (p : Parser) : (peek n p).1 = p.outlook n ∧ p.Looked (peek n p).2 := by
  obtain ⟨hlooked, hfilled⟩ := fill_eq (n + 1 - p.buffer.length) p
  rcases hfill : fill (n + 1 - p.buffer.length) p with ⟨e | ⟨⟨⟩⟩, q⟩
  · rw [hfill] at hlooked hfilled
    rw [peek_stuck hfill]
    refine ⟨(hfilled n ?_).symm, hlooked⟩
    by_contra hmany
    have hnothing : n + 1 - p.buffer.length = 0 := by omega
    rw [hnothing] at hfill
    cases hfill
  · rw [hfill] at hlooked hfilled
    rw [peek_filled hfill]
    exact ⟨(hfilled n (by omega)).symm, hlooked⟩

/-- **Taking gives the next token**, and leaves what follows it. -/
theorem next_eq (p : Parser) :
    (next p).1 = p.outlook 0 ∧ p.Past (tokenOf (p.outlook 0)).length (next p).2 := by
  cases hbuffer : p.buffer with
  | cons t rest =>
      have hfirst : p.outlook 0 = .ok (some t) := outlook_buffer (by rw [hbuffer]; rfl)
      rw [next_buffer hbuffer, hfirst]
      exact ⟨rfl, past_tail hbuffer⟩
  | nil =>
      rcases hnext : p.lexer.nextVisible with ⟨answer, l⟩
      have hfirst : p.outlook 0 = answer := by
        rw [outlook_lexer (by simp [hbuffer]), hbuffer, List.length_nil, Lexer.visibleAt_zero, hnext]
      rw [next_lexer hbuffer, hnext, hfirst]
      refine ⟨rfl, ?_⟩
      obtain hstop | ⟨t, rfl⟩ := Lexer.isStop_or_token answer
      · rw [tokenOf_stop hstop]
        exact (looked_stop hnext hstop).toPast
      · -- to take a token from the lexer is to look at it and to take it then
        have hone : p.buffer ++ [t] = t :: [] := by rw [hbuffer, List.nil_append]
        have htaken := (looked_token hnext).toPast.trans (past_tail hone)
        rwa [← hbuffer] at htaken

/-- Where no token is taken the place is the end of the template. -/
theorem next_finish (h : next p = (.ok none, q)) : q.lexer.position = p.lexer.finish := by
  have hfinish := (next_eq p).2.finish
  rw [h] at hfinish
  cases hbuffer : p.buffer with
  | cons t rest =>
      rw [next_buffer hbuffer] at h
      cases h
  | nil =>
      rw [next_lexer hbuffer] at h
      obtain ⟨hnone, rfl⟩ := Prod.mk.inj h
      have hend : p.lexer.nextVisible.2.rest = [] := Lexer.nextVisible_none (Prod.ext hnone rfl)
      rw [← hfinish, Lexer.finish, hend]
      rfl

/-- The next token is taken if it passes a test. -/
def skipThat (test : Token → Bool) : Parse Bool := do
  if (← peek 0).any test then
    discard next
    return true
  return false

theorem skip_eq (kind : TokenKind) : skip kind = skipThat fun t => t.kind == kind := by
  have hpeek : peekKind 0 = do return (← peek 0).map Token.kind := rfl
  unfold skip skipThat
  rw [hpeek, bind_assoc]
  congr 1
  funext found
  rw [pure_bind]
  cases found with
  | none => rfl
  | some t => simp only [Option.map_some, Option.some.injEq, Option.any_some, beq_iff_eq]

theorem skipValue_eq (kind : TokenKind) (value : String) :
    skipValue kind value = skipThat fun t => t.is kind value := by
  have hpeek : peekIs 0 kind value = do return (← peek 0).any fun t => t.is kind value := rfl
  unfold skipValue skipThat
  rw [hpeek, bind_assoc]
  congr 1

theorem skipThat_taken {test : Token → Bool} {found : Option Token} {r : Parser}
    (h : peek 0 p = (.ok (some t), q)) (htest : test t = true) (hnext : next q = (.ok found, r)) :
    skipThat test p = (.ok true, r) := by
  refine (bind_apply h).trans ?_
  rw [Option.any_some, if_pos htest]
  exact bind_apply (discard_apply hnext)

theorem skipThat_left {test : Token → Bool} {found : Option Token} (h : peek 0 p = (.ok found, q))
    (htest : found.any test = false) : skipThat test p = (.ok false, q) := by
  refine (bind_apply h).trans ?_
  rw [htest, if_neg Bool.false_ne_true]
  rfl

theorem skipThat_stuck {test : Token → Bool} {e : TemplateError} (h : peek 0 p = (.error e, q)) :
    skipThat test p = (.error e, q) := bind_stuck h

/-- To skip is to look at the next token, and to take it if it passes the test. -/
theorem skipThat_eq (test : Token → Bool) (p : Parser) :
    (skipThat test p).1 = (p.outlook 0).map (fun found => found.any test) ∧
      p.Past ((tokenOf (p.outlook 0)).filter test).length (skipThat test p).2 := by
  obtain ⟨hanswer, hlooked⟩ := peek_eq 0 p
  rcases hpeek : peek 0 p with ⟨e | found, q⟩
  all_goals rw [hpeek] at hanswer hlooked
  · rw [skipThat_stuck hpeek, ← hanswer]
    exact ⟨rfl, hlooked.toPast⟩
  cases htest : found.any test with
  | false =>
      have hnone : (tokenOf (.ok found)).filter test = [] := by
        cases found with
        | none => rfl
        | some t => simpa [tokenOf] using htest
      rw [skipThat_left hpeek htest, ← hanswer, hnone]
      exact ⟨congrArg Except.ok htest.symm, hlooked.toPast⟩
  | true =>
      obtain ⟨t, rfl, ht⟩ := (Option.any_eq_true ..).1 htest
      have hone : (tokenOf (.ok (some t))).filter test = [t] := by simp [tokenOf, ht]
      obtain ⟨htaken, hpast⟩ := next_eq q
      have hfirst : q.outlook 0 = .ok (some t) := by rw [hlooked.outlook, ← hanswer]
      rw [hfirst] at htaken hpast
      rw [skipThat_taken hpeek ht (Prod.ext htaken rfl), ← hanswer, hone]
      exact ⟨congrArg Except.ok htest.symm, by simpa [tokenOf] using hlooked.toPast.trans hpast⟩

/-- What is said of the next token where one of a kind is wanted, in a template that ends at a place. -/
def wanted (kind : TokenKind) (what : String) (finish : Position) : Option Token → Except TemplateError Token
  | some t =>
    if t.kind = kind then .ok t else .error (.atPosition (.wanted ("expected " ++ what) t) t.position)
  | none => .error (.atPosition (.endOfFile what) finish)

/-- A token is taken whether it is of the kind that is wanted or not. -/
theorem expect_eq (kind : TokenKind) (what : String) (p : Parser) :
    (expect kind what p).1 = (p.outlook 0).bind (wanted kind what p.lexer.finish) ∧
      p.Past (tokenOf (p.outlook 0)).length (expect kind what p).2 := by
  obtain ⟨htaken, hpast⟩ := next_eq p
  rw [← htaken] at hpast ⊢
  rw [expect, bind_eq_match]
  rcases hnext : next p with ⟨e | (_ | t), q⟩
  all_goals rw [hnext] at hpast
  · exact ⟨rfl, hpast⟩
  · have hend := next_finish hnext
    refine ⟨?_, hpast⟩
    change Except.error (TemplateError.atPosition (.endOfFile what) q.lexer.position) = _
    rw [hend]
    rfl
  · by_cases ht : t.kind = kind
    · simp only [ht, if_true, Except.bind, wanted]
      exact ⟨rfl, hpast⟩
    · simp only [ht, if_false, Except.bind, wanted]
      exact ⟨rfl, hpast⟩

end Parse

/-! ### Requests -/

namespace Parser

/-- What a request is answered. -/
inductive Reply where
  | token (found : Option Token)
  | skipped (taken : Bool)
  deriving DecidableEq

/-- What a host asks of a parser about tokens. -/
inductive Request where
  /-- The token that `n` others precede. -/
  | peek (n : Nat)
  /-- The next token, to be taken. -/
  | next
  | skip (kind : TokenKind)
  | skipValue (kind : TokenKind) (value : String)
  | skipSymbol (name : String)
  | expect (kind : TokenKind) (what : String)

/-- What a parser does about a request. -/
def Request.act : Request → Parse Reply
  | .peek n => .token <$> Parse.peek n
  | .next => .token <$> Parse.next
  | .skip kind => .skipped <$> Parse.skip kind
  | .skipValue kind value => .skipped <$> Parse.skipValue kind value
  | .skipSymbol name => .skipped <$> Parse.skipSymbol name
  | .expect kind what => (fun t => .token (some t)) <$> Parse.expect kind what

/-- Requests one after the other, and the parser after them.  An error is an answer like others. -/
def run : List Request → Parser → List (Except TemplateError Reply) × Parser
  | [], p => ([], p)
  | request :: requests, p =>
    let (answer, p) := request.act p
    let (answers, p) := run requests p
    (answer :: answers, p)

/-- What skipping is answered where the next token is known, and the token that it takes. -/
def settleSkip (first : Except TemplateError (Option Token)) (test : Token → Bool) :
    Except TemplateError Reply × List Token :=
  (first.map fun found => .skipped (found.any test), (tokenOf first).filter test)

/-- What a request is answered where the tokens to come are known, and the tokens that it takes. -/
def Request.settle (outlook : Nat → Except TemplateError (Option Token)) (finish : Position) :
    Request → Except TemplateError Reply × List Token
  | .peek n => ((outlook n).map .token, [])
  | .next => ((outlook 0).map .token, tokenOf (outlook 0))
  | .skip kind => settleSkip (outlook 0) fun t => t.kind == kind
  | .skipValue kind value => settleSkip (outlook 0) fun t => t.is kind value
  | .skipSymbol name => settleSkip (outlook 0) fun t => t.is .symbol name
  | .expect kind what =>
    (((outlook 0).bind (Parse.wanted kind what finish)).map fun t => .token (some t), tokenOf (outlook 0))

/-- Requests one after the other where the tokens to come are known: each is answered behind the tokens that
were taken before. -/
def settleAll (outlook : Nat → Except TemplateError (Option Token)) (finish : Position) :
    List Request → List (Except TemplateError Reply) × List Token
  | [] => ([], [])
  | request :: requests =>
    let (answer, taken) := request.settle outlook finish
    let (answers, more) := settleAll (fun n => outlook (taken.length + n)) finish requests
    (answer :: answers, taken ++ more)

theorem skipped_settles (test : Token → Bool) (p : Parser) :
    ((Reply.skipped <$> Parse.skipThat test) p).1 = (settleSkip (p.outlook 0) test).1 ∧
      p.Past (settleSkip (p.outlook 0) test).2.length ((Reply.skipped <$> Parse.skipThat test) p).2 := by
  obtain ⟨hanswer, hpast⟩ := Parse.skipThat_eq test p
  rw [Parse.map_apply, hanswer]
  exact ⟨by cases p.outlook 0 <;> rfl, hpast⟩

/-- **One request** is answered as the tokens to come say, and takes the tokens that they say. -/
theorem Request.act_settles (request : Request) (p : Parser) :
    (request.act p).1 = (request.settle p.outlook p.lexer.finish).1 ∧
      p.Past (request.settle p.outlook p.lexer.finish).2.length (request.act p).2 := by
  cases request with
  | peek n =>
      obtain ⟨hanswer, hlooked⟩ := Parse.peek_eq n p
      rw [act, Parse.map_apply, hanswer]
      exact ⟨rfl, hlooked.toPast⟩
  | next =>
      obtain ⟨hanswer, hpast⟩ := Parse.next_eq p
      rw [act, Parse.map_apply, hanswer]
      exact ⟨rfl, hpast⟩
  | skip kind =>
      rw [act, Parse.skip_eq]
      exact skipped_settles _ p
  | skipValue kind value =>
      rw [act, Parse.skipValue_eq]
      exact skipped_settles _ p
  | skipSymbol name =>
      rw [act, Parse.skipSymbol, Parse.skipValue_eq]
      exact skipped_settles _ p
  | expect kind what =>
      obtain ⟨hanswer, hpast⟩ := Parse.expect_eq kind what p
      rw [act, Parse.map_apply, hanswer]
      exact ⟨rfl, hpast⟩

theorem run_cons (request : Request) (requests : List Request) (p : Parser) :
    run (request :: requests) p =
      ((request.act p).1 :: (run requests (request.act p).2).1, (run requests (request.act p).2).2) := rfl

/-- **Requests one after the other** are answered as the tokens to come say. -/
theorem run_settles (requests : List Request) (p : Parser) :
    (run requests p).1 = (settleAll p.outlook p.lexer.finish requests).1 ∧
      p.Past (settleAll p.outlook p.lexer.finish requests).2.length (run requests p).2 := by
  induction requests generalizing p with
  | nil => exact ⟨rfl, .refl p⟩
  | cons request requests ih =>
      obtain ⟨hanswer, hpast⟩ := request.act_settles p
      obtain ⟨hanswers, hrest⟩ := ih (request.act p).2
      have houtlook : (request.act p).2.outlook =
          fun n => p.outlook ((request.settle p.outlook p.lexer.finish).2.length + n) :=
        funext hpast.outlook
      rw [houtlook, hpast.finish] at hanswers hrest
      rw [run_cons, settleAll]
      refine ⟨congrArg₂ List.cons hanswer hanswers, ?_⟩
      simpa only [List.length_append] using hpast.trans hrest

/-- A request takes the next token, if it takes one. -/
theorem Request.taken_settle {t : Token} {request : Request} {outlook : Nat → Except TemplateError (Option Token)}
    {finish : Position} (h : t ∈ (request.settle outlook finish).2) :
    (request.settle outlook finish).2 = [t] ∧ outlook 0 = .ok (some t) := by
  have hskip : ∀ {test : Token → Bool}, t ∈ (settleSkip (outlook 0) test).2 →
      (settleSkip (outlook 0) test).2 = [t] ∧ outlook 0 = .ok (some t) := by
    intro test h
    obtain ⟨hmem, htest⟩ := List.mem_filter.1 h
    have hfirst := mem_tokenOf.1 hmem
    exact ⟨by simp [settleSkip, hfirst, tokenOf, htest], hfirst⟩
  cases request with
  | peek n => cases h
  | next | expect kind what =>
      have hfirst := mem_tokenOf.1 h
      exact ⟨by simp [settle, hfirst, tokenOf], hfirst⟩
  | skip kind | skipValue kind value | skipSymbol name => exact hskip h

/-- What is taken is what stands at the first places. -/
theorem settleAll_taken {outlook : Nat → Except TemplateError (Option Token)} {finish : Position}
    {requests : List Request} {i : Nat} {t : Token} (h : (settleAll outlook finish requests).2[i]? = some t) :
    outlook i = .ok (some t) := by
  induction requests generalizing outlook i with
  | nil => cases h
  | cons request requests ih =>
      rw [settleAll] at h
      simp only [List.getElem?_append] at h
      split at h
      · rename_i hi
        obtain ⟨htaken, hfirst⟩ := Request.taken_settle (List.mem_of_getElem? h)
        rw [htaken, List.length_singleton, Nat.lt_one_iff] at hi
        rw [hi, hfirst]
      · rename_i hi
        have hmore := ih h
        rwa [Nat.add_sub_cancel' (by omega)] at hmore

/-- What was taken and what waits in the buffer are the first tokens. -/
theorem givesFirst_taken {l : Lexer} {p : Parser} {taken : List Token}
    (htaken : ∀ i t, taken[i]? = some t → l.visibleAt i = .ok (some t))
    (houtlook : ∀ n, p.outlook n = l.visibleAt (taken.length + n)) : l.GivesFirst (taken ++ p.buffer) := by
  refine ⟨_, Lexer.prefix_visibleWithin fun i t hi => ?_⟩
  rw [List.getElem?_append] at hi
  split at hi
  · exact htaken i t hi
  · have hwaits := outlook_buffer hi
    rwa [houtlook, Nat.add_sub_cancel' (by omega)] at hwaits

/-- **Lookahead neither loses tokens nor reorders them.**

A host makes any requests of a parser at the start of a template, one after the other, under any
configuration, and goes on after requests that fail.  The answers are those that the tokens of the template
give, blanks left out, if each request is answered behind the tokens that the requests before it took; no
buffer appears in them.  The tokens taken, followed by those that wait in the buffer, are the first tokens of
the template, and what is to come are the tokens behind those taken.  Looking at a token, also where it
fails, leaves what waits in the buffer there, and every place holds what it held. -/
theorem run_transparent (config : Config) (source : String) (requests : List Request) :
    let l := Lexer.ofString config source
    let (answers, p) := run requests (Parser.ofString config source)
    let (settled, taken) := settleAll l.visibleAt l.finish requests
    answers = settled ∧ l.GivesFirst (taken ++ p.buffer) ∧
      (∀ n, p.outlook n = l.visibleAt (taken.length + n)) ∧
      ∀ n, p.buffer <+: (Parse.peek n p).2.buffer ∧
        ∀ i, (Parse.peek i (Parse.peek n p).2).1 = l.visibleAt (taken.length + i) := by
  obtain ⟨hanswers, hpast⟩ := run_settles requests (Parser.ofString config source)
  refine ⟨hanswers, givesFirst_taken (fun i t => settleAll_taken) hpast.outlook, hpast.outlook, fun n => ?_⟩
  obtain ⟨-, hlooked⟩ := Parse.peek_eq n (run requests (Parser.ofString config source)).2
  refine ⟨hlooked.buffer, fun i => ?_⟩
  rw [(Parse.peek_eq i _).1, hlooked.outlook, Nat.zero_add]
  exact hpast.outlook i

/-- Looking far ahead meets a string that does not end.  The tokens before it are taken nevertheless, and then
the string is met again. -/
example :
    (run [.peek 1, .peek 9, .next, .skip .comma, .skip .symbol, .expect .string "a string"]
      (ofString .standard "\x7b\x7b a 'b")).1.map Except.toOption =
      [some (.token (some ⟨.symbol, "a", ⟨1, 4⟩⟩)), none,
        some (.token (some ⟨.variableStart, "\x7b\x7b", ⟨1, 1⟩⟩)), some (.skipped false),
        some (.skipped true), none] := by
  decide +kernel

end Parser

end Stencil
