/-
**Markers act on their neighbours.**

A parser keeps in mind whether the next text loses the white space at its start, through the ends of tags,
comments, and bodies within bodies.  What it shows of the texts of a template is yet a matter of the tokens
that stand directly before and after each of them: between tags a text follows the end of a tag, of an
output, or a comment, and no blank follows a text.

Main definitions:

* `Stencil.Markers.trimmed` — what tokens show if each text is trimmed by its neighbours;
* `Stencil.Lexer.visible` — the tokens of a template without blanks.

Main results:

* `Stencil.Lexer.next_mode` — what tokens there are in tags and between them;
* `Stencil.Lexer.Reads.visible` — a template without raw tags is read token by token;
* `Stencil.Lexer.shown_trimmed` — what is shown of a template is what its tokens show;
* `Stencil.Node.texts_trimmed` — **each text is trimmed by the markers next to it, and by no others**.
-/

import Stencil.Proofs.Reading.Spans
import Stencil.Proofs.Reading.Statements
import Stencil.Proofs.Reading.Tokens

set_option autoImplicit false

namespace Stencil

/-- What tokens show behind another one, if each text is trimmed by its neighbours: a text loses the white
space at its start if the token directly before it asks for that, and the white space at its end if the
token directly after it does, and is left out if nothing remains. -/
def Markers.trimmed (m : Markers) : Option Token → List Token → List String
  | _, [] => []
  | previous, t :: ts =>
    let text := Text.cutEnd (ts.head?.any m.before) (Text.cutStart (previous.any m.after) t.value.toList)
    if t.kind = .data ∧ text ≠ [] then String.ofList text :: m.trimmed (some t) ts
    else m.trimmed (some t) ts

theorem Markers.trimmed_cons (m : Markers) (previous : Option Token) (t : Token) (ts : List Token) :
    m.trimmed previous (t :: ts) =
      m.shownOne (previous.any m.after) ts.head? (.token t) ++ m.trimmed (some t) ts := by
  rw [trimmed, shownOne]
  generalize Text.cutEnd (ts.head?.any m.before) (Text.cutStart (previous.any m.after) t.value.toList) = text
  by_cases hkind : t.kind = .data
  · by_cases htext : text = []
    · simp [hkind, htext]
    · simp [hkind, htext]
  · simp [hkind]

namespace Lexer

variable {l l' : Lexer} {t : Token}

/-! ### In tags and between them -/

/-- Behind a token the lexer is inside of a tag if the token starts one or stands in one. -/
def opens (kind : TokenKind) : Bool := kind.isInner || kind == .blockStart || kind == .variableStart

theorem tagStart?_mode (htag : l.inTag = false) (h : l.tagStart? = some (.ok t, l')) :
    l'.inTag = opens t.kind := by
  unfold tagStart? at h
  dsimp only at h
  repeat' split at h
  all_goals cases h
  · rfl
  · rfl
  · exact htag

theorem textToken_mode (htag : l.inTag = false) (h : l.textToken = (.ok (some t), l')) :
    l'.inTag = opens t.kind := by
  have hstart : ∀ {m : Lexer} {answer : Except TemplateError Token}, m.tagStart? = some (answer, l') →
      answer.map some = .ok (some t) → m.inTag = false → l'.inTag = opens t.kind := by
    intro m answer hanswer hmap hm
    cases answer with
    | error e => cases hmap
    | ok u =>
        cases hmap
        exact tagStart?_mode hm hanswer
  unfold textToken at h
  split at h
  · rename_i answer after hanswer
    obtain ⟨hmap, rfl⟩ := Prod.mk.inj h
    exact hstart hanswer hmap htag
  · dsimp only at h
    split at h
    · split at h
      · rename_i answer after hanswer
        obtain ⟨hmap, rfl⟩ := Prod.mk.inj h
        exact hstart hanswer hmap htag
      · cases h
    · cases h
      exact htag

theorem dropNewline_inTag (l : Lexer) : l.dropNewline.inTag = l.inTag := by
  unfold dropNewline
  split <;> rfl

theorem tagToken_mode {c : Char} {s : List Char} (htag : l.inTag = true)
    (h : l.tagToken c s = (.ok t, l')) : l'.inTag = opens t.kind := by
  have hinner : ∀ {m : Lexer} {kind : TokenKind}, m.inTag = true → kind.isInner = true →
      m.inTag = opens kind := by
    intro m kind hm hkind
    rw [hm, opens, hkind]
    rfl
  -- the cases are in the order in which the lexer tries them: a string, a blank, the two ends, a pattern,
  -- punctuation, a word
  unfold tagToken at h
  split at h
  · unfold stringToken at h
    split at h <;> cases h
    exact hinner htag rfl
  split at h
  · cases h
    exact hinner htag rfl
  dsimp only at h
  split at h
  · cases h
    rw [dropNewline_inTag]
    rfl
  split at h
  · cases h
    rfl
  split at h
  · unfold patternToken at h
    split at h <;> cases h
    exact hinner htag rfl
  split at h
  · cases h
    exact hinner htag (Lexeme.punctuationKind_isInner _).1
  unfold wordToken at h
  dsimp only at h
  split at h
  · split at h
    all_goals
      split at h <;> cases h
      all_goals exact hinner htag rfl
  split at h
  · cases h
    exact hinner htag (Lexeme.wordKind?_isInner ‹_›).1
  · cases h

/-- What tokens there are in tags and between them. -/
theorem next_mode (h : l.next = (.ok (some t), l')) :
    l'.inTag = opens t.kind ∧ (l.inTag = false → t.kind.isInner = false) ∧
      (t.kind = .data → l.inTag = false) := by
  cases htag : l.inTag with
  | false =>
      have htext := next_outside htag h
      exact ⟨textToken_mode htag htext, fun _ => (textToken_shapes htext).2, fun _ => rfl⟩
  | true =>
      obtain ⟨c, s, -, hread⟩ := next_inside htag h
      exact ⟨tagToken_mode htag hread, fun h => (by cases h),
        fun hdata => absurd hdata (tagToken_shapes hread).2.1⟩

/-! ### Tokens that are no blanks -/

/-- The tokens of a template without blanks. -/
def visible (l : Lexer) : List Token := l.tokens.1.filter fun t => t.kind ≠ .whitespace

theorem visible_step (ho : l.config.IsProper) (h : l.next = (.ok (some t), l')) :
    l.visible = if t.kind = .whitespace then l'.visible else t :: l'.visible := by
  unfold visible
  rw [tokens_cons ho h]
  split
  · simp [*]
  · simp [*]

theorem visible_end (h : l.next = (.ok none, l')) : l.visible = [] := by
  unfold visible
  rw [tokens_nil h]
  rfl

/-- Blanks are read all at once. -/
theorem next_blank_next {blank : Token} {l₁ : Lexer} (hblank : l.next = (.ok (some blank), l₁))
    (hkind : blank.kind = .whitespace) (h : l₁.next = (.ok (some t), l')) : t.kind ≠ .whitespace := by
  obtain ⟨htag, -, rfl⟩ := next_blank_eq hblank hkind
  obtain ⟨c, s, hrest, hread⟩ := next_inside (show (l.moved _ _).inTag = true from htag) h
  have hc : Lexeme.isBlank c = false := by
    have hnot := List.head?_dropWhile_not Lexeme.isBlank l.rest
    rw [moved_rest] at hrest
    rw [hrest] at hnot
    simpa using hnot
  exact (tagToken_shapes hread).2.2 hc

theorem visible_cons (ho : l.config.IsProper) (h : l.nextVisible = (.ok (some t), l')) :
    l.visible = t :: l'.visible := by
  unfold nextVisible at h
  split at h
  · rename_i blank l₁ hblank
    split at h
    · rename_i hkind
      rw [visible_step ho hblank, if_pos hkind, visible_step (next_config ho hblank ▸ ho) h,
        if_neg (next_blank_next hblank hkind h)]
    · rename_i hkind
      cases h
      rw [visible_step ho hblank, if_neg hkind]
  · rename_i hother
    exact absurd h (hother _ _)

theorem visible_nil (ho : l.config.IsProper) (h : l.nextVisible = (.ok none, l')) : l.visible = [] := by
  rcases nextVisible_cases h with h | ⟨blank, l₁, hblank, hkind, h⟩
  · exact visible_end h
  · rw [visible_step ho hblank, if_pos hkind, visible_end h]

/-- Up to the first raw text a template is read token by token. -/
theorem Reads.tokens_prefix {ps : List Portion} (h : l.Reads ps l') (ho : l.config.IsProper)
    (hend : l'.rest = []) :
    ps = l.visible.map .token ∨ ∃ ts text trimBefore trimAfter more,
      ps = ts.map .token ++ .verbatim text trimBefore trimAfter :: more ∧ ts <+: l.visible := by
  induction h with
  | nil l =>
      have hnext : l.next = (.ok none, l) := by simp [next, hend]
      exact .inl (by simp [visible_end hnext])
  | token h _ ih =>
      rw [visible_cons ho h]
      refine (ih (nextVisible_config ho h ▸ ho) hend).imp ?_ ?_
      · rintro rfl
        rfl
      · rintro ⟨ts, text, trimBefore, trimAfter, more, rfl, hts⟩
        exact ⟨_ :: ts, text, trimBefore, trimAfter, more, rfl, List.cons_prefix_cons.2 ⟨rfl, hts⟩⟩
  | finished h hreads =>
      have hconfig := nextVisible_config ho h
      obtain ⟨rfl, -⟩ := hreads.of_end (hconfig ▸ ho) (nextVisible_none h)
      exact .inl (by simp [visible_nil ho h])
  | verbatim _ _ _ _ =>
      exact .inr ⟨[], _, _, _, _, rfl, List.nil_prefix⟩

/-- A template in which no raw tag starts. -/
def NoRawTag (l : Lexer) : Prop :=
  ∀ start tag, [start, tag] <:+: l.visible → start.kind = .blockStart → tag.kind = .symbol →
    tag.value ≠ "raw" ∧ tag.value ≠ "verbatim"

theorem noRawTag_of_forall (h : ∀ t ∈ l.visible, t.value ≠ "raw" ∧ t.value ≠ "verbatim") :
    l.NoRawTag :=
  fun _ tag hbeside _ _ => h tag (hbeside.subset (by simp))

/-- A template without raw tags is read token by token. -/
theorem Reads.visible {ps : List Portion} (h : l.Reads ps l') (ho : l.config.IsProper)
    (hend : l'.rest = []) (hplaced : Portion.Placed ps) (hraw : l.NoRawTag) :
    ps = l.visible.map .token := by
  refine (h.tokens_prefix ho hend).resolve_right ?_
  rintro ⟨ts, text, trimBefore, trimAfter, more, rfl, hts⟩
  -- Raw text stands behind the tokens of a raw tag, of which the first two are next to each other.
  obtain ⟨before, start, tag, stop, hbefore, hstart, htag, hvalue, -⟩ := hplaced _ _ _ _ _ rfl
  have hbeside : [start, tag] <:+: l.visible := by
    obtain ⟨before, ts', rfl, rfl, hts'⟩ := List.map_eq_append_iff.1 hbefore
    refine List.IsInfix.trans ?_ hts.isInfix
    match ts', hts' with
    | [_, _, _], hts' =>
        simp only [List.map_cons, List.map_nil, List.cons.injEq, Portion.token.injEq] at hts'
        obtain ⟨rfl, rfl, -⟩ := hts'
        exact ⟨before, [_], by simp; rfl⟩
    | [], hts' | [_], hts' | [_, _], hts' | _ :: _ :: _ :: _ :: _, hts' => simp at hts'
  obtain ⟨hne, hne'⟩ := hraw start tag hbeside hstart htag
  exact hvalue.elim hne hne'

/-! ### Neighbours -/

/-- Between tags no blank is read. -/
theorem first_visible (ho : l.config.IsProper) (htag : l.inTag = false) :
    Portion.first none (l.visible.map .token) = l.tokens.1.head? := by
  rcases hnext : l.next with ⟨e | (_ | t), l'⟩
  · rw [visible, tokens_error hnext]
    rfl
  · rw [visible, tokens_nil hnext]
    rfl
  · have hinner := (next_mode hnext).2.1 htag
    have hblank : t.kind ≠ .whitespace := fun hblank => by simp [hblank, TokenKind.isInner] at hinner
    rw [visible_step ho hnext, tokens_cons ho hnext, if_neg hblank]
    rfl

/-- Behind a token that leaves the lexer between tags, the white space is dropped that the token asks for. -/
theorem dropsAfter_token {m : Markers} (hm : ∀ t, t.kind = .data → m.after t = false) (drop : Bool)
    (h : opens t.kind = false) : m.dropsAfter drop (.token t) = (some t).any m.after := by
  have hdata := hm t
  unfold Markers.dropsAfter
  cases hkind : t.kind <;> simp_all [opens, TokenKind.isInner]

/-- What is shown of a template without raw tags is what its tokens show, each by its neighbours.  The
induction carries that between tags what the parser keeps in mind is what the last token asks for. -/
theorem shown_trimmed {m : Markers} (hm : ∀ t, t.kind = .data → m.after t = false) {drop : Bool}
    {previous : Option Token} (ho : l.config.IsProper)
    (hprevious : l.inTag = false → drop = previous.any m.after) :
    m.shown drop none (l.visible.map .token) = m.trimmed previous l.tokens.1 := by
  induction hlength : l.rest.length using Nat.strong_induction_on generalizing l drop previous with
  | _ n ih =>
      subst hlength
      rcases hnext : l.next with ⟨e | (_ | t), l'⟩
      · rw [visible, tokens_error hnext]
        rfl
      · rw [visible, tokens_nil hnext]
        rfl
      obtain ⟨hmode, hinner, hdata⟩ := next_mode hnext
      have ho' := next_config ho hnext ▸ ho
      have hlength := (next_steps ho hnext).choose_spec.length_lt
      rw [visible_step ho hnext, tokens_cons ho hnext, Markers.trimmed_cons]
      -- blanks are tokens inside of tags only, where nothing is shown
      by_cases hblank : t.kind = .whitespace
      · have hopen : opens t.kind = true := by rw [hblank]; rfl
        have hnone : ∀ drop next, m.shownOne drop next (.token t) = [] := fun _ _ => by
          simp [Markers.shownOne, hblank]
        rw [if_pos hblank, hnone, List.nil_append]
        exact ih _ hlength ho' (fun htag => by simp [hmode, hopen] at htag) rfl
      · rw [if_neg hblank, List.map_cons, Markers.shown,
          ih _ hlength ho' (fun htag => dropsAfter_token hm drop (hmode ▸ htag)) rfl]
        congr 1
        by_cases hkind : t.kind = .data
        · have hout : l'.inTag = false := by rw [hmode, hkind]; rfl
          rw [hprevious (hdata hkind), first_visible ho' hout]
        · simp [Markers.shownOne, hkind]

end Lexer

/-! ### Templates -/

namespace Node

/-- **Each text is trimmed by the markers next to it, and by no others.**  Under the standard delimiters the
texts of a template without raw tags are those of its tokens: each without the white space that a `-` on
the token directly before it or directly after it drops, and otherwise as it stands. -/
theorem texts_trimmed {config : Config} {source : String} {root : Node}
    (hd : config.delimiters = .standard) (hraw : (Lexer.ofString config source).NoRawTag)
    (h : Node.ofSource config [] source = .ok root) :
    root.texts = Delimiters.standard.written.trimmed none (Lexer.ofString config source).tokens.1 := by
  have ho : (Lexer.ofString config source).config.IsProper := by
    constructor <;> simp only [Lexer.ofString, hd] <;> decide
  obtain ⟨ps, l, hreads, hend, hplaced, htexts⟩ := ofSource_texts ho h
  have hdelimiters : (Lexer.ofString config source).config.delimiters = .standard := hd
  have hundashed : Delimiters.standard.Undashed := ⟨by decide, by decide, by decide, by decide⟩
  have hclear : ∀ s, Delimiters.standard.CommentsClear s := fun _ _ => ⟨by decide, by decide⟩
  have hwritten := hreads.shown_written ho (hdelimiters ▸ hundashed) false
    fun t _ _ => hdelimiters ▸ hclear _
  have hafter : ∀ t : Token, t.kind = .data → Delimiters.standard.written.after t = false := by
    intro t ht
    simp only [Delimiters.written, ht]
  rw [hdelimiters] at hwritten
  rw [htexts, hd, hwritten, hreads.visible ho hend hplaced hraw]
  exact Lexer.shown_trimmed hafter ho fun _ => rfl

/-- A template with markers on a tag, an output, comments, and the tags of a body within a body. -/
def markedPage : String :=
  "a \x7b%- if x -%\x7d b \x7b# c -#\x7d d \x7b\x7b- y \x7d\x7d e " ++
    "\x7b% if z %\x7d \x7b%- endif %\x7d f \x7b%- endif -%\x7d\x7b#-#\x7d g"

/-- A text with a marker next to it is cut, the text behind a tag without one is not, and a text of nothing
but white space is left out. -/
theorem texts_trimmed_markedPage : Config.standard.delimiters = .standard ∧
    (Lexer.ofString .standard markedPage).NoRawTag ∧
    ∃ root, Node.ofSource .standard [] markedPage = .ok root ∧
      root.texts = Delimiters.standard.written.trimmed none (Lexer.ofString .standard markedPage).tokens.1 ∧
      root.texts = ["a", "b ", "d", " e ", " f", "g"] := by
  have hraw : (Lexer.ofString .standard markedPage).NoRawTag := Lexer.noRawTag_of_forall (by decide +kernel)
  have htexts : (Node.ofSource .standard [] markedPage).toOption.map Node.texts =
      some ["a", "b ", "d", " e ", " f", "g"] := by decide +kernel
  cases hroot : Node.ofSource .standard [] markedPage with
  | error e =>
      rw [hroot] at htexts
      cases htexts
  | ok root =>
      rw [hroot] at htexts
      exact ⟨rfl, hraw, root, rfl, texts_trimmed rfl hraw hroot, Option.some.inj htexts⟩

end Node

end Stencil
