/-
**What a template shows of its texts.**

White space at the ends of a text is dropped where the tag or comment next to it asks for it with a
marker.  What becomes of a text is thus a matter of the portions next to it: of the last tag or comment
before it, and of the token after it.

Main definitions:

* `Stencil.Markers` — which tokens drop the white space before them, and which that after them;
* `Stencil.Delimiters.markers` — those that a parser goes by;
* `Stencil.Markers.shown` — what portions show;
* `Stencil.Parser.Shows` — the portions between two moments of a parser show some texts;
* `Stencil.Parse.Shows` — an action that gives what the portions show that it takes.

Main results:

* `Stencil.Markers.shown_append` — portions one after the other;
* `Stencil.Parser.Shows.trans`, `Stencil.Parse.Shows.bind` — actions one after the other.
-/

import Stencil.Proofs.Reading.Inside

set_option autoImplicit false

namespace Stencil

/-! ### Markers -/

/-- Which tokens drop the white space before them, and which that after them. -/
structure Markers where
  before : Token → Bool
  after : Token → Bool

/-- The tokens that a parser takes to drop white space before and after them. -/
def Delimiters.markers (d : Delimiters) : Markers where
  before t :=
    match t.kind with
    | .blockStart | .variableStart => t.endsDashed
    | .comment => Text.startsWith (d.commentStart ++ "-").toList t.value.toList
    | _ => false
  after t :=
    match t.kind with
    | .blockEnd | .variableEnd => t.startsDashed
    | .comment => Text.startsWith ('-' :: d.commentEnd.toList).reverse t.value.toList.reverse
    | _ => false

/-- A text without the white space at its start, if it is to be dropped. -/
def Text.cutStart (drop : Bool) (s : List Char) : List Char := if drop then trimStart s else s

/-- A text without the white space at its end, if it is to be dropped. -/
def Text.cutEnd (drop : Bool) (s : List Char) : List Char := if drop then trimEnd s else s

/-- The first token of some portions, or another one if there are none. -/
def Portion.first (next : Option Token) : List Portion → Option Token
  | [] => next
  | .token t :: _ => some t
  | .verbatim _ _ _ :: _ => none

/-- A portion that shows nothing: a token that is no text. -/
def Portion.isPlain : Portion → Bool
  | .token t => t.kind != .data
  | .verbatim _ _ _ => false

/-- The texts of raw tags stand where such a tag starts: directly behind it. -/
def Portion.Placed (ps : List Portion) : Prop :=
  ∀ before text trimBefore trimAfter after, ps = before ++ .verbatim text trimBefore trimAfter :: after →
    ∃ before' start tag stop, before = before' ++ [.token start, .token tag, .token stop] ∧
      start.kind = .blockStart ∧ tag.kind = .symbol ∧ (tag.value = "raw" ∨ tag.value = "verbatim") ∧
      stop.kind = .blockEnd

theorem Portion.Placed.append {ps qs : List Portion} (hps : Placed ps) (hqs : Placed qs) :
    Placed (ps ++ qs) := by
  intro before text trimBefore trimAfter after heq
  rcases List.append_eq_append_iff.1 heq with ⟨middle, rfl, hqs'⟩ | ⟨middle, hps', hafter⟩
  · obtain ⟨before', start, tag, stop, rfl, h⟩ := hqs _ _ _ _ _ hqs'
    exact ⟨ps ++ before', start, tag, stop, (List.append_assoc ..).symm, h⟩
  · cases middle with
    | nil =>
        obtain ⟨before', start, tag, stop, hempty, -⟩ := hqs [] _ _ _ _ hafter.symm
        simp at hempty
    | cons v middle =>
        rw [List.cons_append, List.cons.injEq] at hafter
        obtain ⟨rfl, -⟩ := hafter
        exact hps _ _ _ _ _ hps'

theorem Portion.Placed.of_tokens {ps : List Portion} (h : ∀ v ∈ ps, ∃ t, v = .token t) : Placed ps := by
  intro before text trimBefore trimAfter after heq
  subst heq
  obtain ⟨t, ht⟩ := h (.verbatim text trimBefore trimAfter) (by simp)
  cases ht

theorem Portion.Placed.of_isPlain {ps : List Portion} (h : ∀ v ∈ ps, v.isPlain = true) : Placed ps :=
  of_tokens fun v hv => by
    have hplain := h v hv
    cases v with
    | token t => exact ⟨t, rfl⟩
    | verbatim => cases hplain

theorem Portion.Placed.token (t : Token) : Placed [.token t] := .of_tokens (by simp)

/-- A raw tag and its text. -/
theorem Portion.Placed.verbatim {start tag stop : Token} {text : List Char} {trimBefore trimAfter : Bool}
    (hstart : start.kind = .blockStart) (htag : tag.kind = .symbol)
    (hvalue : tag.value = "raw" ∨ tag.value = "verbatim") (hstop : stop.kind = .blockEnd) :
    Placed [.token start, .token tag, .token stop, .verbatim text trimBefore trimAfter] := by
  intro before text' trimBefore' trimAfter' after heq
  match before, heq with
  | [_, _, _], heq =>
      simp only [List.cons_append, List.nil_append, List.cons.injEq] at heq
      obtain ⟨rfl, rfl, rfl, -⟩ := heq
      exact ⟨[], start, tag, stop, rfl, hstart, htag, hvalue, hstop⟩
  | [], heq | [_], heq | [_, _], heq | _ :: _ :: _ :: _ :: _, heq => simp at heq

namespace Markers

variable (m : Markers)

/-- Whether the white space after a portion is dropped, if that before it is or is not. -/
def dropsAfter (drop : Bool) : Portion → Bool
  | .token t =>
    match t.kind with
    | .blockEnd | .variableEnd | .comment => m.after t
    | .data | .blockStart | .variableStart => false
    | _ => drop
  | .verbatim _ _ trimAfter => trimAfter

/-- Whether the white space after some portions is dropped. -/
def drops (drop : Bool) (ps : List Portion) : Bool := ps.foldl m.dropsAfter drop

/-- What a portion shows with a token after it: a text without the white space that is dropped, if
anything is left, and the text of a raw tag. -/
def shownOne (drop : Bool) (next : Option Token) : Portion → List String
  | .token t =>
    if t.kind = .data then
      let text := Text.cutEnd (next.any m.before) (Text.cutStart drop t.value.toList)
      if text.isEmpty then [] else [String.ofList text]
    else []
  | .verbatim text trimBefore _ =>
    [String.ofList (Text.cutStart drop (Text.cutEnd trimBefore text))]

/-- What portions show with a token after them. -/
def shown (drop : Bool) (next : Option Token) : List Portion → List String
  | [] => []
  | p :: ps => m.shownOne drop (Portion.first next ps) p ++ shown (m.dropsAfter drop p) next ps

variable {m} {drop : Bool} {next : Option Token} {ps qs : List Portion}

theorem first_append : Portion.first next (ps ++ qs) = Portion.first (Portion.first next qs) ps := by
  cases ps with
  | nil => rfl
  | cons p ps => cases p <;> rfl

/-- Portions show what the first of them show, and then what the others do. -/
theorem shown_append : m.shown drop next (ps ++ qs) =
    m.shown drop (Portion.first next qs) ps ++ m.shown (m.drops drop ps) next qs := by
  induction ps generalizing drop with
  | nil => rfl
  | cons p ps ih => simp [shown, drops, first_append, ih]

theorem drops_append : m.drops drop (ps ++ qs) = m.drops (m.drops drop ps) qs :=
  List.foldl_append

theorem shown_of_isPlain (h : ∀ p ∈ ps, p.isPlain = true) : m.shown drop next ps = [] := by
  induction ps generalizing drop with
  | nil => rfl
  | cons p ps ih =>
      obtain ⟨hp, hps⟩ := List.forall_mem_cons.1 h
      rw [shown, ih hps, List.append_nil]
      cases p with
      | token t =>
          have ht : t.kind ≠ .data := by simpa [Portion.isPlain] using hp
          rw [shownOne, if_neg ht]
      | verbatim => cases hp

/-- What portions show is a matter of the markers of their tokens. -/
theorem shown_congr {m' : Markers} (hps : ∀ t, .token t ∈ ps → m.before t = m'.before t ∧
    m.after t = m'.after t) (hnext : ∀ t ∈ next, m.before t = m'.before t) :
    m.shown drop next ps = m'.shown drop next ps := by
  induction ps generalizing drop with
  | nil => rfl
  | cons v ps ih =>
      have hfirst : (Portion.first next ps).any m.before = (Portion.first next ps).any m'.before := by
        cases ps with
        | nil =>
            cases next with
            | none => rfl
            | some t => exact hnext t rfl
        | cons w ps =>
            cases w with
            | token t => exact (hps t (by simp)).1
            | verbatim => rfl
      have hone : m.shownOne drop (Portion.first next ps) v = m'.shownOne drop (Portion.first next ps) v := by
        cases v with
        | token t => simp only [shownOne, hfirst]
        | verbatim => rfl
      have hdrop : m.dropsAfter drop v = m'.dropsAfter drop v := by
        cases v with
        | token t => simp only [dropsAfter, (hps t (by simp)).2]
        | verbatim => rfl
      rw [shown, shown, hone, hdrop, ih fun t ht => hps t (List.mem_cons_of_mem _ ht)]

/-- What stands inside of a tag changes nothing. -/
theorem drops_of_inner {ts : List Token} (h : ∀ t ∈ ts, t.kind.isInner = true) :
    m.drops drop (ts.map .token) = drop := by
  induction ts with
  | nil => rfl
  | cons t ts ih =>
      obtain ⟨ht, hts⟩ := List.forall_mem_cons.1 h
      have hone : m.dropsAfter drop (.token t) = drop := by
        simp only [dropsAfter]
        cases hkind : t.kind <;> rw [hkind] at ht <;> first | rfl | cases ht
      rw [List.map_cons, drops, List.foldl_cons, hone]
      exact ih hts

theorem isPlain_of_inner {ts : List Token} (h : ∀ t ∈ ts, t.kind.isInner = true) :
    ∀ p ∈ ts.map Portion.token, p.isPlain = true := by
  intro p hp
  obtain ⟨t, ht, rfl⟩ := List.mem_map.1 hp
  have hkind : t.kind ≠ .data := by
    intro hdata
    have hinner := h t ht
    rw [hdata] at hinner
    cases hinner
  simpa [Portion.isPlain] using hkind

end Markers

/-! ### Parsers -/

namespace Parser

/-- The markers that a parser goes by. -/
def markers (p : Parser) : Markers := p.lexer.config.delimiters.markers

/-- The portions between two moments of a parser show some texts, and the parser knows what becomes of
the next one. -/
structure Shows (p : Parser) (ps : List Portion) (xs : List String) (q : Parser) : Prop where
  takes : p.Takes ps q
  starts : ∀ v ∈ ps.head?, ∃ t, v = .token t
  trimNext : q.trimNext = p.markers.drops p.trimNext ps
  texts : ∀ o, q.upcoming = .ok o → xs = p.markers.shown p.trimNext o ps

variable {p q r : Parser} {ps qs : List Portion} {xs ys : List String}

theorem Shows.config (h : p.Shows ps xs q) (ho : p.lexer.config.IsProper) :
    q.lexer.config = p.lexer.config := h.takes.config ho

/-- The token that comes after some portions. -/
theorem Takes.upcoming_first (ho : p.lexer.config.IsProper) (h : p.Takes ps q)
    (hps : ∀ v ∈ ps.head?, ∃ t, v = .token t) {o : Option Token} (hq : q.upcoming = .ok o) :
    p.upcoming = .ok (Portion.first o ps) := by
  cases ps with
  | nil => exact h.upcoming_nil ho hq
  | cons v ps =>
      obtain ⟨t, rfl⟩ := hps v rfl
      exact h.upcoming_cons ho

theorem Shows.trans (ho : p.lexer.config.IsProper) (h : p.Shows ps xs q) (h' : q.Shows qs ys r) :
    p.Shows (ps ++ qs) (xs ++ ys) r := by
  have hmarkers : q.markers = p.markers := by rw [markers, h.config ho, markers]
  refine ⟨h.takes.trans h'.takes, fun v hv => ?_, ?_, fun o hr => ?_⟩
  · cases ps with
    | nil => exact h'.starts v hv
    | cons w ps => exact h.starts v hv
  · rw [h'.trimNext, h.trimNext, hmarkers, Markers.drops_append]
  · have hq := h'.takes.upcoming_first (h.config ho ▸ ho) h'.starts hr
    rw [Markers.shown_append, h.texts _ hq, h'.texts o hr, hmarkers, h.trimNext]

/-- Portions that show nothing. -/
theorem Shows.of_plain (htakes : p.Takes ps q) (hplain : ∀ v ∈ ps, v.isPlain = true)
    (htrim : q.trimNext = p.markers.drops p.trimNext ps) : p.Shows ps [] q := by
  refine ⟨htakes, fun v hv => ?_, htrim, fun o _ => (Markers.shown_of_isPlain hplain).symm⟩
  have hv := hplain v (List.mem_of_mem_head? hv)
  cases v with
  | token t => exact ⟨t, rfl⟩
  | verbatim => cases hv

theorem Inside.shows (h : p.Inside q) :
    ∃ ps, p.Shows ps [] q ∧ ∀ v ∈ ps, v.isPlain = true := by
  obtain ⟨⟨ts, htakes, hts⟩, htrim⟩ := h
  have hplain := Markers.isPlain_of_inner hts
  exact ⟨_, .of_plain htakes hplain (htrim.trans (Markers.drops_of_inner hts).symm), hplain⟩

end Parser

/-! ### Actions -/

namespace Parse

variable {α β : Type} {Q : α → List String → Prop} {R : β → List String → Prop} {x : Parse α}
  {before : List Portion}

/-- An action that gives something that has to do with what the portions show that it takes, the texts
of raw tags in their places after some other portions. -/
def ShowsAfter (before : List Portion) (Q : α → List String → Prop) (x : Parse α) : Prop :=
  ∀ p a q, p.lexer.config.IsProper → x p = (.ok a, q) →
    ∃ ps xs, p.Shows ps xs q ∧ Portion.Placed (before ++ ps) ∧ Q a xs

/-- An action that gives something that has to do with what the portions show that it takes. -/
def Shows (Q : α → List String → Prop) (x : Parse α) : Prop := ShowsAfter [] Q x

namespace Shows

theorem bind {f : α → Parse β} (hx : Shows Q x)
    (hf : ∀ a xs, Q a xs → Shows (fun b ys => R b (xs ++ ys)) (f a)) : Shows R (x >>= f) := by
  intro p b q ho h
  obtain ⟨a, r, hxp, hfr⟩ := bind_eq_ok h
  obtain ⟨ps, xs, hpr, hps, ha⟩ := hx p a r ho hxp
  obtain ⟨qs, ys, hrq, hqs, hb⟩ := hf a xs ha r b q (hpr.config ho ▸ ho) hfr
  exact ⟨ps ++ qs, xs ++ ys, hpr.trans ho hrq, hps.append hqs, hb⟩

/-- What stands inside of a tag shows nothing. -/
theorem of_inside {Q : α → Prop} (h : Inside Q x) : Shows (fun a xs => xs = [] ∧ Q a) x := by
  intro p a q ho hx
  obtain ⟨hpq, ha⟩ := h p a q ho trivial hx
  obtain ⟨ps, hshows, hplain⟩ := hpq.shows
  exact ⟨ps, [], hshows, .of_isPlain hplain, rfl, ha⟩

/-- An action that shows nothing comes before another one. -/
theorem after {Q : α → Prop} {f : α → Parse β} (hx : Shows (fun a xs => xs = [] ∧ Q a) x)
    (hf : ∀ a, Q a → Shows R (f a)) : Shows R (x >>= f) :=
  hx.bind fun a xs ⟨hxs, ha⟩ => by
    subst hxs
    exact hf a ha

/-- What stands inside of a tag comes before something else. -/
theorem inside {Q : α → Prop} {f : α → Parse β} (hx : Inside Q x) (hf : ∀ a, Q a → Shows R (f a)) :
    Shows R (x >>= f) := (of_inside hx).after hf

theorem mono {Q' : α → List String → Prop} (h : Shows Q x) (hQ : ∀ a xs, Q a xs → Q' a xs) :
    Shows Q' x := by
  intro p a q ho hx
  obtain ⟨ps, xs, hshows, hps, ha⟩ := h p a q ho hx
  exact ⟨ps, xs, hshows, hps, hQ a xs ha⟩

theorem pure {a : α} (h : Q a []) : Shows Q (Pure.pure a) :=
  (of_inside (Inside.pure (Q := fun b => b = a) rfl)).mono fun b xs ⟨hxs, hb⟩ => by
    subst hxs hb
    exact h

theorem map {f : α → β} (h : Shows Q x) (hf : ∀ a xs, Q a xs → R (f a) xs) : Shows R (f <$> x) :=
  h.bind fun a xs ha => pure (by simpa using hf a xs ha)

theorem fails {e : TemplateError} : Shows Q (throw e : Parse α) := fun _ _ _ _ h => by cases h

theorem failAt (c : Cause) (p : Position) : Shows Q (failAt c p) := fails

theorem endOfFile (what : String) : Shows Q (endOfFile what) :=
  inside Inside.get fun _ _ => failAt _ _

/-- An action that goes on unless something failed. -/
theorem guard {c : Prop} [Decidable c] {fail : Parse PUnit} {rest : PUnit → Parse β}
    (hfail : Inside (fun _ => True) fail) (hrest : ∀ u, Shows R (rest u)) :
    Shows R (if c then fail >>= rest else rest ⟨⟩) := by
  split
  · exact inside hfail fun u _ => hrest u
  · exact hrest ⟨⟩

end Shows

end Parse

end Stencil
