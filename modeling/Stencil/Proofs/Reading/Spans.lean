/-
**The portions of a template cover it.**

Where no newlines and no indents are dropped, the portions that are read of a template lie in it side by
side, with nothing but blanks inside of tags between them.  A text between tags is thus a portion as it
stands, and behind the text of a raw tag stands the tag that ends it.

Main definitions:

* `Stencil.Delimiters.IsEndTag` — the tag that ends a raw text, with its markers;
* `Stencil.Portion.Spans` — the text that a portion was cut from.

Main results:

* `Stencil.Lexer.IsRaw.endTag` — a raw text is followed by its end tag;
* `Stencil.Lexer.Reads.covers` — **the portions of a template cover it**.
-/

import Stencil.Proofs.Reading.Markers

set_option autoImplicit false

namespace Stencil

/-! ### The ends of raw texts -/

/-- A marker, if there is one. -/
def Delimiters.marker (dashed : Bool) : List Char := if dashed then ['-'] else []

/-- The tag of the given name that ends a raw text, with its markers. -/
def Delimiters.IsEndTag (d : Delimiters) (name : String) (trimBefore trimAfter : Bool) (tag : List Char) :
    Prop :=
  ∃ blanks blanks', (∀ c ∈ blanks ++ blanks', Character.isWhiteSpace c = true) ∧
    tag = d.blockStart.toList ++ marker trimBefore ++ blanks ++ name.toList ++ blanks' ++
      marker trimAfter ++ d.blockEnd.toList

namespace Lexer

variable {d : Delimiters} {l l' : Lexer} {name : String} {trimBefore trimAfter : Bool}
  {s text rest : List Char}

theorem trimStart_eq (s : List Char) :
    ∃ blanks, (∀ c ∈ blanks, Character.isWhiteSpace c = true) ∧ s = blanks ++ Text.trimStart s :=
  ⟨s.takeWhile Character.isWhiteSpace, List.all_eq_true.1 List.all_takeWhile,
    (List.takeWhile_append_dropWhile ..).symm⟩

theorem endTag?_eq (h : endTag? d name.toList s = some (trimBefore, trimAfter, rest)) :
    ∃ tag, d.IsEndTag name trimBefore trimAfter tag ∧ d.blockStart.toList ++ s = tag ++ rest := by
  unfold endTag? at h
  dsimp only at h
  split at h
  · cases h
  rename_i after hafter
  split at h
  · cases h
  obtain ⟨rest', hend, h⟩ := Option.map_eq_some_iff.1 h
  simp only [Prod.mk.injEq] at h
  obtain ⟨hbefore, hafterwards, rfl⟩ := h
  -- On either side of the name the tag was read with a marker or without one.
  obtain ⟨s₁, hs, hname⟩ : ∃ s₁, s = Delimiters.marker trimBefore ++ s₁ ∧
      Text.after? name.toList (Text.trimStart s₁) = some after := by
    revert hbefore hafter
    split <;> rintro hafter rfl <;> exact ⟨_, rfl, hafter⟩
  obtain ⟨s₂, hs₂, hend⟩ : ∃ s₂, Text.trimStart after = Delimiters.marker trimAfter ++ s₂ ∧
      Text.after? d.blockEnd.toList s₂ = some rest' := by
    revert hafterwards hend
    split
    · rintro hend rfl
      exact ⟨_, ‹_›, hend⟩
    · rintro hend rfl
      exact ⟨_, rfl, hend⟩
  obtain ⟨blanks, hblanks, hs₁⟩ := trimStart_eq s₁
  obtain ⟨blanks', hblanks', hs₃⟩ := trimStart_eq after
  refine ⟨_, ⟨blanks, blanks', List.forall_mem_append.2 ⟨hblanks, hblanks'⟩, rfl⟩, ?_⟩
  rw [hs, hs₁, Text.after?_eq_some_iff.1 hname, hs₃, hs₂, Text.after?_eq_some_iff.1 hend]
  simp only [List.append_assoc]

theorem rawText?_eq {fuel : Nat} {seen : List Char}
    (h : rawText? d name.toList fuel seen s = some (text, trimBefore, trimAfter, rest)) :
    ∃ tag, d.IsEndTag name trimBefore trimAfter tag ∧ seen ++ s = text ++ tag ++ rest := by
  induction fuel generalizing seen s with
  | zero => cases h
  | succ fuel ih =>
      rw [rawText?] at h
      split at h
      · cases h
      rename_i before after hcut
      have hs := Text.eq_of_cut? hcut
      split at h
      · rename_i found hfound
        cases h
        obtain ⟨tag, htag, heq⟩ := endTag?_eq hfound
        exact ⟨tag, htag, by rw [hs]; simp only [List.append_assoc, heq]⟩
      · obtain ⟨tag, htag, heq⟩ := ih h
        exact ⟨tag, htag, by rw [hs, ← heq]; simp only [List.append_assoc]⟩

/-- A raw text is followed by its end tag. -/
theorem IsRaw.endTag (h : l.IsRaw name text trimBefore trimAfter l') (hkeeps : l.config.trimBlocks = false) :
    ∃ tag, l.config.delimiters.IsEndTag name trimBefore trimAfter tag ∧
      l.rest = text ++ tag ++ l'.rest ∧ l'.position = l.position.advance (text ++ tag) := by
  obtain ⟨rest, hraw, rfl⟩ := h
  obtain ⟨tag, htag, heq⟩ := rawText?_eq hraw
  rw [List.nil_append] at heq
  have htake : l.rest.take (l.rest.length - rest.length) = text ++ tag := by
    rw [heq, List.length_append, Nat.add_sub_cancel, List.take_left]
  refine ⟨tag, htag, ?_, ?_⟩
  · simpa [dropNewline, moved, hkeeps] using heq
  · simp [dropNewline, moved, hkeeps, htake]

/-! ### Tokens and what they were cut from -/

/-- A lexer that drops nothing, at a place that it has reached. -/
structure Keeps (l : Lexer) (before : List Char) : Prop where
  proper : l.config.IsProper
  trimBlocks : l.config.trimBlocks = false
  lstripBlocks : l.config.lstripBlocks = false
  position : l.position = .reached before

end Lexer

/-- Where nothing is dropped, tiles are tokens. -/
theorem Tile.Lie.tokens {o : Lexer.Options} {previous : Option Tile} {before after : List Char}
    {tiles : List Tile} (h : Lie o previous before tiles after) (htrim : o.trimBlocks = false)
    (hstrip : o.lstripBlocks = false) : ∀ tile ∈ tiles, tile.token?.isSome = true := by
  induction tiles generalizing previous before with
  | nil => simp
  | cons tile tiles ih =>
      obtain ⟨hfits, hrest⟩ := h
      refine List.forall_mem_cons.2 ⟨?_, ih hrest⟩
      cases tile with
      | token => rfl
      | gap text =>
          rcases hfits with hgap | hgap
          · exact absurd (htrim.symm.trans hgap.allowed) (by decide)
          · exact absurd (hstrip.symm.trans hgap.allowed) (by decide)

namespace Lexer

variable {l l' : Lexer} {t : Token} {before : List Char}

theorem reached_advance (before text : List Char) :
    (Position.reached before).advance text = .reached (before ++ text) := by
  rw [← Position.advance_start, ← Position.advance_append, Position.advance_start]

/-- A token is cut from what is not read yet, and nothing is dropped. -/
theorem Keeps.next (hl : l.Keeps before) (h : l.next = (.ok (some t), l')) :
    ∃ span, (t.kind ≠ .string → t.value.toList = span) ∧ l.rest = span ++ l'.rest ∧
      l'.Keeps (before ++ span) := by
  obtain ⟨tiles, hsteps⟩ := next_steps hl.proper h
  have hlie := hsteps.lie none before hl.position
  have htokens := hlie.tokens hl.trimBlocks hl.lstripBlocks
  -- One token is read at a time, and what lay before it or behind it would be a gap.
  obtain ⟨span, rfl⟩ : ∃ span, tiles = [.token t span] := by
    have htiles := hsteps.token
    match tiles, htokens, htiles with
    | [.token u span], _, htiles =>
        obtain rfl : u = t := by simpa [Tile.token?] using htiles
        exact ⟨span, rfl⟩
    | .token _ _ :: .token _ _ :: _, _, htiles => simp [Tile.token?] at htiles
    | .token _ _ :: .gap text :: _, htokens, _ =>
        simpa [Tile.token?] using htokens (.gap text) (by simp)
    | .gap _ :: _, htokens, _ => simpa [Tile.token?] using htokens _ List.mem_cons_self
  refine ⟨span, hlie.1.value, by simpa [Tile.text] using hsteps.text, ?_⟩
  obtain ⟨ho, htrim, hstrip, hposition⟩ := hl
  have hconfig := hsteps.config
  refine ⟨hconfig ▸ ho, hconfig ▸ htrim, hconfig ▸ hstrip, ?_⟩
  rw [hsteps.position, hposition, reached_advance]
  simp [Tile.text]

/-- Blanks are read only inside of a tag, and all at once. -/
theorem next_blank_eq (h : l.next = (.ok (some t), l')) (ht : t.kind = .whitespace) : l.inTag = true ∧
    t.value.toList = l.rest.takeWhile Lexeme.isBlank ∧
      l' = l.moved (l.rest.takeWhile Lexeme.isBlank) (l.rest.dropWhile Lexeme.isBlank) := by
  cases htag : l.inTag with
  | false =>
      have hkind := (textToken_shapes (next_outside htag h)).2
      rw [ht] at hkind
      cases hkind
  | true =>
      obtain ⟨c, s, -, hread⟩ := next_inside htag h
      have hc : Lexeme.isBlank c = true := by
        by_contra hblank
        exact (tagToken_shapes hread).2.2 (by simpa using hblank) ht
      have hquote : ¬(c = '\x22' ∨ c = '\x27') := by
        rintro (rfl | rfl) <;> revert hc <;> decide
      unfold tagToken at hread
      rw [if_neg hquote, if_pos hc] at hread
      cases hread
      exact ⟨rfl, String.toList_ofList, rfl⟩

/-- A tag goes on behind blanks. -/
theorem next_blank (h : l.next = (.ok (some t), l')) (ht : t.kind = .whitespace) :
    (∀ c ∈ t.value.toList, Lexeme.isBlank c = true) ∧ l'.inTag = true := by
  obtain ⟨htag, hvalue, rfl⟩ := next_blank_eq h ht
  rw [hvalue]
  exact ⟨List.all_eq_true.1 List.all_takeWhile, htag⟩

end Lexer

/-! ### Portions and what they were cut from -/

/-- The text that a portion was cut from: a token with the blanks before it in its tag, and a raw text with
the tag that ends it.  Of a string only the text is known that it denotes. -/
def Portion.Spans (d : Delimiters) : Portion → List Char → Prop
  | .token t, span => ∃ blanks written, (∀ c ∈ blanks, Lexeme.isBlank c = true) ∧
    (t.kind = .data → blanks = []) ∧ (t.kind ≠ .string → t.value.toList = written) ∧
    span = blanks ++ written
  | .verbatim text trimBefore trimAfter, span =>
    ∃ name tag, d.IsEndTag name trimBefore trimAfter tag ∧ span = text ++ tag

/-- The text of a token stands in what some portions were cut from. -/
theorem Portion.value_infix {d : Delimiters} {ps : List Portion} {spans : List (List Char)} {t : Token}
    (h : List.Forall₂ (Spans d) ps spans) (ht : .token t ∈ ps) (hkind : t.kind ≠ .string) :
    t.value.toList <:+: spans.flatten := by
  induction h with
  | nil => cases ht
  | cons hspan _ ih =>
      rcases List.mem_cons.1 ht with rfl | ht
      · obtain ⟨blanks, written, -, -, hvalue, rfl⟩ := hspan
        rw [hvalue hkind, List.flatten_cons, List.append_assoc]
        exact ⟨blanks, _, (List.append_assoc ..)⟩
      · exact (ih ht).trans (List.suffix_append ..).isInfix

namespace Lexer

variable {l l' : Lexer} {t : Token} {before : List Char}

theorem Keeps.nextVisible (hl : l.Keeps before) (h : l.nextVisible = (.ok (some t), l')) :
    ∃ span, Portion.Spans l.config.delimiters (.token t) span ∧ l.rest = span ++ l'.rest ∧
      l'.Keeps (before ++ span) := by
  rcases nextVisible_cases h with h | ⟨blank, l₁, hblank, hkind, h⟩
  · obtain ⟨span, hvalue, hrest, hl'⟩ := hl.next h
    exact ⟨span, ⟨[], span, by simp, fun _ => rfl, hvalue, rfl⟩, hrest, hl'⟩
  · obtain ⟨hblanks, htag⟩ := next_blank hblank hkind
    obtain ⟨c, s, -, hread⟩ := next_inside htag h
    obtain ⟨blanks, hvalue₁, hrest₁, hl₁⟩ := hl.next hblank
    obtain ⟨span, hvalue, hrest, hl'⟩ := hl₁.next h
    rw [hvalue₁ (by simp [hkind])] at hblanks
    refine ⟨blanks ++ span, ⟨blanks, span, hblanks, fun h => absurd h (tagToken_shapes hread).2.1, hvalue,
      rfl⟩, ?_, ?_⟩
    · rw [hrest₁, hrest, List.append_assoc]
    · rwa [← List.append_assoc]

/-- At the end of a template there may be blanks of a tag that does not end. -/
theorem Keeps.nextVisible_none (hl : l.Keeps before) (h : l.nextVisible = (.ok none, l')) :
    (∀ c ∈ l.rest, Lexeme.isBlank c = true) ∧ l'.rest = [] := by
  rcases nextVisible_cases h with h | ⟨blank, l₁, hblank, hkind, h⟩
  · obtain ⟨hend, rfl⟩ := next_none h
    exact ⟨by simp [hend], hend⟩
  · obtain ⟨blanks, hvalue₁, hrest₁, hl₁⟩ := hl.next hblank
    obtain ⟨hend, rfl⟩ := next_none h
    refine ⟨?_, hend⟩
    rw [hrest₁, hend, List.append_nil, ← hvalue₁ (by simp [hkind])]
    exact (next_blank hblank hkind).1

theorem Keeps.raw (hl : l.Keeps before) {name : String} {text : List Char} {trimBefore trimAfter : Bool}
    (h : l.IsRaw name text trimBefore trimAfter l') :
    ∃ span, Portion.Spans l.config.delimiters (.verbatim text trimBefore trimAfter) span ∧
      l.rest = span ++ l'.rest ∧ l'.Keeps (before ++ span) := by
  obtain ⟨tag, htag, hrest, hposition⟩ := h.endTag hl.trimBlocks
  obtain ⟨ho, htrim, hstrip, hplace⟩ := hl
  refine ⟨text ++ tag, ⟨name, tag, htag, rfl⟩, hrest, h.config ▸ ho, h.config ▸ htrim, h.config ▸ hstrip, ?_⟩
  rw [hposition, hplace, reached_advance]

/-- **The portions of a template cover it**, with blanks at its end if a tag does not end. -/
theorem Reads.covers {ps : List Portion} (h : l.Reads ps l') (hl : l.Keeps before) :
    ∃ spans blanks, List.Forall₂ (Portion.Spans l.config.delimiters) ps spans ∧
      (∀ c ∈ blanks, Lexeme.isBlank c = true) ∧ l.rest = spans.flatten ++ blanks ++ l'.rest := by
  induction h generalizing before with
  | nil => exact ⟨[], [], .nil, by simp, rfl⟩
  | token h _ ih =>
      obtain ⟨span, hspan, hrest, hl₁⟩ := hl.nextVisible h
      obtain ⟨spans, blanks, hspans, hblanks, hrest₁⟩ := ih hl₁
      refine ⟨span :: spans, blanks, .cons hspan (nextVisible_config hl.proper h ▸ hspans), hblanks, ?_⟩
      rw [hrest, hrest₁]
      simp
  | finished h hreads =>
      obtain ⟨hblanks, hend⟩ := hl.nextVisible_none h
      obtain ⟨rfl, rfl⟩ := hreads.of_end (nextVisible_config hl.proper h ▸ hl.proper) hend
      exact ⟨[], _, .nil, hblanks, by simp [hend]⟩
  | verbatim _ h _ ih =>
      obtain ⟨span, hspan, hrest, hl₁⟩ := hl.raw h
      obtain ⟨spans, blanks, hspans, hblanks, hrest₁⟩ := ih hl₁
      refine ⟨span :: spans, blanks, .cons hspan (h.config ▸ hspans), hblanks, ?_⟩
      rw [hrest, hrest₁]
      simp

end Lexer

end Stencil
