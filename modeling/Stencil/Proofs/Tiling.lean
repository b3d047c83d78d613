/-
**Tokens tile a template.**

The tokens of a template lie in it side by side.  What lies between two of them is a text that the
options of the lexer drop: a newline after a block tag, or the blanks between the start of a line and
a tag or comment.  Each token stands where the text before it ends, and its value is the text that it
was cut from, unless it is a string.

Main definitions:

* `Stencil.Position.reached` — the place after a text, by counting its lines and the characters of
  its last one;
* `Stencil.Tile` — a token with the text that it was cut from, or a text that was dropped;
* `Stencil.Tile.Fits` — what is asked of a tile between what lies before and after it;
* `Stencil.Tile.Lie` — tiles that lie side by side;
* `Stencil.Lexer.Steps` — what one token does to a lexer.

Main results:

* `Stencil.Lexer.next_steps` — each token is cut from what is not read yet;
* `Stencil.Lexer.next_error` — an error is given again;
* `Stencil.Lexer.tokens_tile` — **the tokens of a template and what is dropped between them are the
  template**, for every configuration that is found valid.
-/

import Stencil.Token.Lexer
import Mathlib.Data.List.Infix

set_option autoImplicit false

namespace Stencil

/-! ### Places -/

/-- The place after a text: one more than the lines that ended in it, and one more than the
characters since the last of them. -/
def Position.reached (text : List Char) : Position :=
  ⟨1 + text.count '\n', 1 + (text.reverse.takeWhile (· != '\n')).length⟩

/-- Going on character by character counts the lines and the characters of the last one. -/
theorem Position.advance_start (text : List Char) : Position.start.advance text = .reached text := by
  induction text using List.reverseRecOn with
  | nil => rfl
  | append_singleton text c ih =>
      rw [advance_append, ih]
      by_cases hc : c = '\n'
      · subst hc
        simp [advance, step, reached, List.count_append]
        omega
      · simp [advance, step, reached, List.count_append, hc]
        omega

/-- A place is in the first column if nothing stands before it on its line. -/
theorem Position.reached_column {text : List Char} (h : (reached text).column = 1) :
    text = [] ∨ text.getLast? = some '\n' := by
  rcases List.eq_nil_or_concat text with rfl | ⟨init, c, rfl⟩
  · exact .inl rfl
  · right
    by_cases hc : c = '\n'
    · simp [hc]
    · simp [reached, hc] at h

/-! ### Tiles -/

/-- A token with the text that it was cut from, or a text that was dropped. -/
inductive Tile where
  | token (t : Token) (span : List Char)
  | gap (text : List Char)

namespace Tile

/-- The text that a tile covers. -/
def text : Tile → List Char
  | token _ span => span
  | gap text => text

/-- The token of a tile. -/
def token? : Tile → Option Token
  | token t _ => some t
  | gap _ => none

/-- The text that tiles cover. -/
def textAll (tiles : List Tile) : List Char := tiles.flatMap text

@[simp] theorem textAll_nil : textAll [] = [] := rfl

@[simp] theorem textAll_cons (tile : Tile) (tiles : List Tile) :
    textAll (tile :: tiles) = tile.text ++ textAll tiles := rfl

theorem textAll_append (tiles more : List Tile) :
    textAll (tiles ++ more) = textAll tiles ++ textAll more := List.flatMap_append

/-- The words that start a tag or a comment. -/
def starts (o : Lexer.Options) : List (List Char) :=
  [o.delimiters.blockStart.toList, o.delimiters.variableStart.toList,
    o.delimiters.commentStart.toList]

/-- A newline directly after a block tag, which is dropped. -/
structure IsTrimmed (o : Lexer.Options) (previous : Option Tile) (text : List Char) : Prop where
  allowed : o.trimBlocks = true
  newline : text = ['\n'] ∨ text = ['\r', '\n']
  blockEnd : ∃ t span, previous = some (.token t span) ∧ t.kind = .blockEnd

/-- Blanks between the start of a line and a block tag or a comment, which are dropped. -/
structure IsIndent (o : Lexer.Options) (before text after : List Char) : Prop where
  allowed : o.lstripBlocks = true
  nonempty : text ≠ []
  blank : ∀ c ∈ text, c = ' ' ∨ c = '\t'
  startsLine : before = [] ∨ before.getLast? = some '\n'
  tag : o.delimiters.blockStart.toList <+: after ∨ o.delimiters.commentStart.toList <+: after

/-- What is asked of a token between what lies before it and what it was cut from. -/
structure Stands (o : Lexer.Options) (before : List Char) (t : Token) (span : List Char) : Prop where
  nonempty : span ≠ []
  position : t.position = .reached before
  value : t.kind ≠ .string → t.value.toList = span
  plain : t.kind = .data → ∀ word ∈ starts o, ¬word <:+: t.value.toList

/-- What is asked of a tile, with the tile and all of the text before it, and the text after it. -/
def Fits (o : Lexer.Options) (previous : Option Tile) (before after : List Char) : Tile → Prop
  | token t span => Stands o before t span
  | gap text => IsTrimmed o previous text ∨ IsIndent o before text after

/-- Tiles that lie side by side between two texts. -/
def Lie (o : Lexer.Options) : Option Tile → List Char → List Tile → List Char → Prop
  | _, _, [], _ => True
  | previous, before, tile :: tiles, after =>
    tile.Fits o previous before (textAll tiles ++ after) ∧
      Lie o (some tile) (before ++ tile.text) tiles after

/-- Tiles lie side by side with those after them, if these ask for no special tile before them. -/
theorem Lie.append {o : Lexer.Options} {previous : Option Tile} {before after : List Char}
    {tiles more : List Tile} (h : Lie o previous before tiles (textAll more ++ after))
    (hmore : ∀ previous, Lie o previous (before ++ textAll tiles) more after) :
    Lie o previous before (tiles ++ more) after := by
  induction tiles generalizing previous before with
  | nil => simpa using hmore previous
  | cons tile tiles ih =>
      obtain ⟨hfits, hrest⟩ := h
      refine ⟨?_, ih hrest fun previous => by simpa using hmore previous⟩
      change tile.Fits o previous before (textAll (tiles ++ more) ++ after)
      rwa [textAll_append, List.append_assoc]

end Tile

/-! ### Pieces of a text -/

namespace Lexeme

open Text

theorem startsWith_iff {word s : List Char} : startsWith word s = true ↔ word <+: s := by
  simp only [startsWith, Option.isSome_iff_exists, after?_eq_some_iff]
  exact ⟨fun ⟨rest, h⟩ => ⟨rest, h.symm⟩, fun ⟨rest, h⟩ => ⟨rest, h.symm⟩⟩

theorem opening?_eq {delimiter s read rest : List Char}
    (h : opening? delimiter s = some (read, rest)) :
    s = read ++ rest ∧ delimiter <+: read := by
  obtain ⟨after, hafter, hread⟩ := Option.map_eq_some_iff.1 h
  clear h
  obtain rfl := after?_eq_some_iff.1 hafter
  split at hread <;> cases hread <;> simp

theorem closing?_eq {delimiter s read rest : List Char}
    (h : closing? delimiter s = some (read, rest)) :
    s = read ++ rest ∧ delimiter <:+ read := by
  unfold closing? at h
  split at h
  · rename_i after hafter
    cases h
    exact ⟨after?_eq_some_iff.1 hafter, List.suffix_rfl⟩
  · obtain ⟨after, hafter, h⟩ := Option.map_eq_some_iff.1 h
    cases h
    exact ⟨congrArg _ (after?_eq_some_iff.1 hafter), List.suffix_cons _ _⟩
  · cases h

theorem string?_eq {quote : Char} {s text written rest : List Char}
    (h : string? quote s = some (text, written, rest)) : s = written ++ rest := by
  fun_induction string? quote s generalizing text written rest with
  | case1 => cases h
  | case2 => cases h
  | case3 c s ih =>
      obtain ⟨⟨text', written', rest'⟩, hs, h⟩ := Option.map_eq_some_iff.1 h
      cases h
      simp [ih hs]
  | case4 s =>
      cases h
      rfl
  | case5 c s _ _ _ ih =>
      obtain ⟨⟨text', written', rest'⟩, hs, h⟩ := Option.map_eq_some_iff.1 h
      cases h
      simp [ih hs]

theorem pattern?_eq {previous : Char} {s body rest : List Char}
    (h : pattern? previous s = some (body, rest)) : s = body ++ '/' :: rest := by
  fun_induction pattern? previous s generalizing body rest with
  | case1 => cases h
  | case2 previous c s hc =>
      cases h
      simp [hc.1]
  | case3 previous c s _ ih =>
      obtain ⟨⟨body', rest'⟩, hs, h⟩ := Option.map_eq_some_iff.1 h
      cases h
      simp [ih hs]

theorem newline_eq (s : List Char) : s = (newline s).1 ++ (newline s).2 ∧
    ((newline s).1 = [] ∨ (newline s).1 = ['\n'] ∨ (newline s).1 = ['\r', '\n']) := by
  unfold newline
  split <;> simp

theorem textBefore_eq (words : List (List Char)) (s : List Char) :
    s = (textBefore words s).1 ++ (textBefore words s).2 := by
  fun_induction textBefore words s with
  | case1 => rfl
  | case2 => rfl
  | case3 c s _ text rest heq ih =>
      rw [heq] at ih
      simpa using ih

/-- A word that stands nowhere in a text stands in no part of it; one that stands in it would have
ended the text before. -/
theorem textBefore_plain {words : List (List Char)} (hwords : ∀ word ∈ words, word ≠ [])
    (s : List Char) : ∀ word ∈ words, ¬word <:+: (textBefore words s).1 := by
  fun_induction textBefore words s with
  | case1 => exact fun word hword h => hwords word hword (List.infix_nil.1 h)
  | case2 => exact fun word hword h => hwords word hword (List.infix_nil.1 h)
  | case3 c s hnone text rest heq ih =>
      intro word hword h
      have hs : c :: s = (c :: text) ++ rest := by
        have := textBefore_eq words s
        rw [heq] at this
        simpa using this
      rcases List.infix_cons_iff.1 h with h | h
      · refine hnone (List.any_eq_true.2 ⟨word, hword, startsWith_iff.2 ?_⟩)
        rw [hs]
        exact h.trans (List.prefix_append ..)
      · rw [heq] at ih
        exact ih word hword h

/-- What follows a text before some words starts with one of them. -/
theorem startsWith_textBefore (words : List (List Char)) {s : List Char}
    (h : (textBefore words s).1 = []) (hs : s ≠ []) : ∃ word ∈ words, startsWith word s := by
  cases s with
  | nil => exact absurd rfl hs
  | cons c s =>
      rw [textBefore] at h
      split at h
      · rename_i hany
        simpa using hany
      · cases h

/-- A text without the blanks of its last line, and these blanks. -/
theorem withoutIndent_eq (startsLine : Bool) (text : List Char) :
    withoutIndent startsLine text = text ∨
      ∃ indent, text = withoutIndent startsLine text ++ indent ∧ indent ≠ [] ∧
        (∀ c ∈ indent, c = ' ' ∨ c = '\t') ∧
        (withoutIndent startsLine text = [] ∧ startsLine = true ∨
          (withoutIndent startsLine text).getLast? = some '\n') := by
  -- the last line is what follows the last line break, and all of the text if there is none
  have hsplit : text = (text.reverse.dropWhile (· != '\n')).reverse ++
      (text.reverse.takeWhile (· != '\n')).reverse := by
    rw [← List.reverse_append, List.takeWhile_append_dropWhile, List.reverse_reverse]
  unfold withoutIndent
  dsimp only
  generalize hline : (text.reverse.takeWhile (· != '\n')).reverse = line at hsplit ⊢
  generalize hbefore : (text.reverse.dropWhile (· != '\n')).reverse = before at hsplit ⊢
  split
  · rename_i h
    by_cases hempty : line = []
    · left
      rw [hsplit, hempty, List.append_nil]
    · right
      refine ⟨line, hsplit, hempty, by simpa using (Bool.and_eq_true_iff.1 h).2, ?_⟩
      cases hlast : before.getLast? with
      | none =>
          have hnil := List.getLast?_eq_none_iff.1 hlast
          left
          simpa [hnil] using (Bool.and_eq_true_iff.1 h).1
      | some c =>
          right
          have hhead : (text.reverse.dropWhile (· != '\n')).head? = some c := by
            rw [← hlast, ← hbefore, List.getLast?_reverse]
          have hnot := List.head?_dropWhile_not (· != '\n') text.reverse
          rw [hhead] at hnot
          simpa using hnot
  · exact .inl rfl

end Lexeme

/-! ### What a configuration that is found valid gives -/

namespace Lexer

/-- Options whose delimiters are words: with an empty delimiter a tag could be read off nothing. -/
structure Options.IsProper (o : Options) : Prop where
  blockStart : o.delimiters.blockStart.toList ≠ []
  blockEnd : o.delimiters.blockEnd.toList ≠ []
  variableStart : o.delimiters.variableStart.toList ≠ []
  variableEnd : o.delimiters.variableEnd.toList ≠ []
  commentStart : o.delimiters.commentStart.toList ≠ []
  commentEnd : o.delimiters.commentEnd.toList ≠ []

/-- What a lexer takes of a configuration. -/
def optionsOf (config : Config) : Options :=
  ⟨config.trimBlocks, config.lstripBlocks, config.delimiters⟩

theorem optionsOf_isProper {config : Config} (h : config.validate = .ok ()) :
    (optionsOf config).IsProper := by
  have hword : ∀ named ∈ config.namedDelimiters, named.2.toList ≠ [] := by
    intro named hmem hempty
    unfold Config.validate at h
    split at h
    · cases h
    · rename_i hnone
      exact List.find?_eq_none.1 hnone named hmem (by simpa using hempty)
  simp only [Config.namedDelimiters, List.forall_mem_cons] at hword
  obtain ⟨h₁, h₂, h₃, h₄, h₅, h₆, -⟩ := hword
  exact ⟨h₁, h₂, h₃, h₄, h₅, h₆⟩

theorem Options.IsProper.starts {o : Options} (h : o.IsProper) : ∀ word ∈ Tile.starts o, word ≠ [] := by
  simp [Tile.starts, h.blockStart, h.variableStart, h.commentStart]

/-! ### What one token does -/

@[simp] theorem moved_rest (l : Lexer) (read rest : List Char) : (l.moved read rest).rest = rest := rfl

/-- The lexer reads a token off what is not read yet, with some text that is dropped: the tiles lie
at the place that the lexer has reached. -/
structure Steps (l : Lexer) (tiles : List Tile) (t : Token) (l' : Lexer) : Prop where
  token : tiles.filterMap Tile.token? = [t]
  text : l.rest = Tile.textAll tiles ++ l'.rest
  consumes : Tile.textAll tiles ≠ []
  config : l'.config = l.config
  position : l'.position = l.position.advance (Tile.textAll tiles)
  lie : ∀ previous before, l.position = .reached before →
    Tile.Lie l.config previous before tiles l'.rest

theorem Steps.length_lt {l l' : Lexer} {tiles : List Tile} {t : Token} (h : l.Steps tiles t l') :
    l'.rest.length < l.rest.length := by
  have := List.length_pos_iff.2 h.consumes
  rw [h.text, List.length_append]
  omega

/-- A token that is all that is read. -/
theorem Steps.single {l l' : Lexer} {t : Token} {span : List Char} (htext : l.rest = span ++ l'.rest)
    (hspan : span ≠ []) (hconfig : l'.config = l.config)
    (hposition : l'.position = l.position.advance span) (ht : t.position = l.position)
    (hvalue : t.kind ≠ .string → t.value.toList = span)
    (hplain : t.kind = .data → ∀ word ∈ Tile.starts l.config, ¬word <:+: t.value.toList) :
    l.Steps [.token t span] t l' where
  token := rfl
  text := by simpa [Tile.text] using htext
  consumes := by simpa [Tile.text] using hspan
  config := hconfig
  position := by simpa [Tile.text] using hposition
  lie _ _ hbefore := ⟨⟨hspan, ht.trans hbefore, hvalue, hplain⟩, trivial⟩

/-- A token that is the text read, but no text between tags. -/
theorem steps_token {l l' : Lexer} {kind : TokenKind} {read rest : List Char}
    (htext : l.rest = read ++ rest) (hread : read ≠ []) (hkind : kind ≠ .data)
    (hrest : l'.rest = rest) (hconfig : l'.config = l.config)
    (hposition : l'.position = l.position.advance read) :
    l.Steps [.token (l.token kind read rest).1 read] (l.token kind read rest).1 l' :=
  .single (hrest ▸ htext) hread hconfig hposition rfl (fun _ => String.toList_ofList)
    fun hdata => absurd hdata hkind

/-- Blanks before a token may be dropped. -/
theorem Steps.after_gap {l l' : Lexer} {tiles : List Tile} {t : Token} {text next : List Char}
    (h : (l.moved text next).Steps tiles t l') (htext : l.rest = text ++ next)
    (hgap : ∀ before, l.position = .reached before → Tile.IsIndent l.config before text next) :
    l.Steps (.gap text :: tiles) t l' where
  token := h.token
  text := by rw [htext, Tile.textAll_cons, List.append_assoc, ← h.text]; rfl
  consumes := by simp [h.consumes]
  config := h.config
  position := by
    rw [h.position, Tile.textAll_cons, Position.advance_append]
    rfl
  lie previous before hbefore := by
    have hnext : next = Tile.textAll tiles ++ l'.rest := h.text
    refine ⟨.inr (hnext ▸ hgap before hbefore), h.lie _ _ ?_⟩
    change l.position.advance text = _
    rw [hbefore, ← Position.advance_start, ← Position.advance_append, Position.advance_start]
    rfl

/-- A text after a token may be dropped. -/
theorem Steps.then_gap {l l' : Lexer} {t : Token} {span text next : List Char}
    (h : l.Steps [.token t span] t l') (htext : l'.rest = text ++ next)
    (hgap : ∀ before, l.position = .reached before →
      Tile.Fits l.config (some (.token t span)) (before ++ span) next (.gap text)) :
    l.Steps [.token t span, .gap text] t (l'.moved text next) where
  token := rfl
  text := by
    rw [h.text, htext]
    simp [Tile.text, moved]
  consumes := by simpa using fun hempty _ => h.consumes (by simpa using hempty)
  config := h.config
  position := by
    change l'.position.advance text = _
    rw [h.position, ← Position.advance_append]
    simp [Tile.text]
  lie previous before hbefore := by
    obtain ⟨hstands, -⟩ := h.lie previous before hbefore
    exact ⟨hstands, hgap before hbefore, trivial⟩

/-! ### Tokens between tags -/

theorem tagStart?_steps {l l' : Lexer} {t : Token} (ho : l.config.IsProper)
    (h : l.tagStart? = some (.ok t, l')) : ∃ tiles, l.Steps tiles t l' := by
  unfold tagStart? at h
  dsimp only at h
  split at h
  · rename_i read rest hopen
    obtain ⟨htext, hprefix⟩ := Lexeme.opening?_eq hopen
    cases h
    exact ⟨_, steps_token htext (fun hnil => ho.blockStart (List.prefix_nil.1 (hnil ▸ hprefix)))
      (by decide) rfl rfl rfl⟩
  split at h
  · rename_i read rest hopen
    obtain ⟨htext, hprefix⟩ := Lexeme.opening?_eq hopen
    cases h
    exact ⟨_, steps_token htext (fun hnil => ho.variableStart (List.prefix_nil.1 (hnil ▸ hprefix)))
      (by decide) rfl rfl rfl⟩
  split at h
  · cases h
  · rename_i body hbody
    split at h
    · cases h
    · rename_i text rest hcut
      have htext := Text.after?_eq_some_iff.1 hbody
      rw [Text.eq_of_cut? hcut] at htext
      cases h
      exact ⟨_, steps_token (by simpa using htext) (by simp [ho.commentStart]) (by decide) rfl rfl
        rfl⟩

/-- A comment without an end is an error before the comment. -/
theorem tagStart?_error {l l' : Lexer} {e : TemplateError} (h : l.tagStart? = some (.error e, l')) :
    l' = l ∧ l.config.delimiters.commentStart.toList <+: l.rest := by
  unfold tagStart? at h
  dsimp only at h
  split at h
  · cases h
  split at h
  · cases h
  split at h
  · cases h
  · rename_i body hbody
    split at h
    · cases h
      exact ⟨rfl, body, (Text.after?_eq_some_iff.1 hbody).symm⟩
    · cases h

/-- Where no tag starts, no start delimiter stands. -/
theorem tagStart?_none {l : Lexer} (h : l.tagStart? = none) :
    ∀ word ∈ Tile.starts l.config, Text.startsWith word l.rest = false := by
  unfold tagStart? at h
  dsimp only at h
  split at h
  · cases h
  rename_i hblock
  split at h
  · cases h
  rename_i hvariable
  split at h
  · rename_i hcomment
    simp only [Lexeme.opening?, Option.map_eq_none_iff] at hblock hvariable
    simp [Tile.starts, Text.startsWith, hblock, hvariable, hcomment]
  · split at h <;> cases h

/-- What is dropped of a text before a tag are the blanks at the start of the line of the tag. -/
theorem visibleText_eq (l : Lexer) (text next : List Char) :
    l.visibleText text next = text ∨
      ∃ indent, text = l.visibleText text next ++ indent ∧
        (∃ word ∈ Tile.starts l.config, word <+: next) ∧ ∀ before, l.position = .reached before →
          Tile.IsIndent l.config (before ++ l.visibleText text next) indent next := by
  unfold visibleText
  dsimp only
  split
  · rename_i hdrop
    obtain ⟨hallowed, htag⟩ := Bool.and_eq_true_iff.1 hdrop
    obtain h | ⟨indent, htext, hindent, hblank, hline⟩ :=
      Lexeme.withoutIndent_eq (l.position.column == 1) text
    · exact .inl h
    simp only [Bool.or_eq_true, Lexeme.startsWith_iff] at htag
    refine .inr ⟨indent, htext, ?_, fun before hbefore => ⟨hallowed, hindent, hblank, ?_, htag⟩⟩
    · rcases htag with htag | htag
      · exact ⟨_, by simp [Tile.starts], htag⟩
      · exact ⟨_, by simp [Tile.starts], htag⟩
    · obtain ⟨hnil, hcolumn⟩ | hlast := hline
      · rw [hnil, List.append_nil]
        rw [hbefore, beq_iff_eq] at hcolumn
        exact Position.reached_column hcolumn
      · right
        rw [List.getLast?_append, hlast]
        rfl
  · exact .inl rfl

/-- What stands before the next tag, if no tag starts here. -/
theorem textBefore_starts {l : Lexer} {text next : List Char} (hrest : l.rest ≠ [])
    (hstart : l.tagStart? = none)
    (h : Lexeme.textBefore (Tile.starts l.config) l.rest = (text, next)) :
    l.rest = text ++ next ∧ text ≠ [] := by
  refine ⟨?_, ?_⟩
  · simpa only [h] using Lexeme.textBefore_eq (Tile.starts l.config) l.rest
  · intro hempty
    obtain ⟨word, hword, hthere⟩ :=
      Lexeme.startsWith_textBefore (Tile.starts l.config) (by rw [h, hempty]) hrest
    exact Bool.false_ne_true ((tagStart?_none hstart word hword).symm.trans hthere)

theorem textToken_steps {l l' : Lexer} {t : Token} (ho : l.config.IsProper) (hrest : l.rest ≠ [])
    (h : l.textToken = (.ok (some t), l')) : ∃ tiles, l.Steps tiles t l' := by
  unfold textToken at h
  split at h
  · rename_i answer after hstart
    cases answer with
    | error e => cases h
    | ok token =>
        cases h
        exact tagStart?_steps ho hstart
  rename_i hstart
  obtain ⟨⟨text, next⟩, hbefore⟩ : ∃ pieces, Lexeme.textBefore (Tile.starts l.config) l.rest = pieces :=
    ⟨_, rfl⟩
  obtain ⟨htext, hne⟩ := textBefore_starts hrest hstart hbefore
  have hplain : ∀ word ∈ Tile.starts l.config, ¬word <:+: text := by
    simpa only [hbefore] using Lexeme.textBefore_plain ho.starts l.rest
  rw [Tile.starts] at hbefore
  simp only [hbefore] at h
  split at h
  · -- nothing of the text is shown: the token is the tag, and all of the text is dropped before it
    rename_i hempty
    rw [List.isEmpty_iff] at hempty
    split at h
    · rename_i answer after htag
      cases answer with
      | error e => cases h
      | ok token =>
          cases h
          obtain ⟨tiles, hsteps⟩ := tagStart?_steps (l := l.moved text next) ho htag
          obtain hall | ⟨indent, hindent, -, hgap⟩ := l.visibleText_eq text next
          · exact absurd (hall.symm.trans hempty) hne
          · rw [hempty, List.nil_append] at hindent
            subst hindent
            exact ⟨_, hsteps.after_gap htext fun before hb => by simpa [hempty] using hgap before hb⟩
    · cases h
  · -- some of the text is the token, and the blanks after it may be dropped
    rename_i hshown
    rw [Bool.not_eq_true, List.isEmpty_eq_false_iff] at hshown
    cases h
    obtain hall | ⟨indent, hindent, -, hgap⟩ := l.visibleText_eq text next
    · rw [hall] at hshown ⊢
      exact ⟨_, .single htext hshown rfl rfl rfl (fun _ => String.toList_ofList)
        fun _ => by simpa using hplain⟩
    · generalize l.visibleText text next = shown at hshown hindent hgap ⊢
      subst hindent
      have hdata : l.Steps [.token ⟨.data, String.ofList shown, l.position⟩ shown]
          ⟨.data, String.ofList shown, l.position⟩ (l.moved shown (indent ++ next)) :=
        .single (by rw [htext, List.append_assoc]; rfl) hshown rfl rfl rfl
          (fun _ => String.toList_ofList) fun _ word hword hin =>
            hplain word hword ((String.toList_ofList ▸ hin).trans (List.prefix_append ..).isInfix)
      have hsteps := hdata.then_gap rfl fun before hb => .inr (hgap before hb)
      have hmoved : (l.moved shown (indent ++ next)).moved indent next = l.moved (shown ++ indent) next := by
        simp only [moved, Position.advance_append]
      exact ⟨_, hmoved ▸ hsteps⟩

/-- An error between tags leaves the lexer before the comment that has no end. -/
theorem textToken_error {l l' : Lexer} {e : TemplateError} (h : l.textToken = (.error e, l')) :
    l'.tagStart? = some (.error e, l') ∧ l'.config = l.config ∧ l'.inTag = l.inTag := by
  have found {m : Lexer} {answer : Except TemplateError Token} (hstart : m.tagStart? = some (answer, l'))
      (hanswer : answer.map some = .error e) : m = l' ∧ l'.tagStart? = some (.error e, l') := by
    cases answer with
    | ok t => cases hanswer
    | error e' =>
        cases hanswer
        obtain ⟨rfl, -⟩ := tagStart?_error hstart
        exact ⟨rfl, hstart⟩
  unfold textToken at h
  split at h
  · rename_i answer after hstart
    obtain ⟨hanswer, rfl⟩ := Prod.mk.inj h
    obtain ⟨rfl, hagain⟩ := found hstart hanswer
    exact ⟨hagain, rfl, rfl⟩
  · dsimp only at h
    split at h
    · split at h
      · rename_i answer after hstart
        obtain ⟨hanswer, rfl⟩ := Prod.mk.inj h
        obtain ⟨rfl, hagain⟩ := found hstart hanswer
        exact ⟨hagain, rfl, rfl⟩
      · cases h
    · cases h

/-- What an error between tags leaves to read is the comment that has no end. -/
theorem textToken_error_rest {l l' : Lexer} {e : TemplateError} (hrest : l.rest ≠ [])
    (h : l.textToken = (.error e, l')) : l'.rest ≠ [] := by
  intro hend
  obtain ⟨hagain, hconfig, -⟩ := textToken_error h
  have hcomment : l.config.delimiters.commentStart.toList = [] := by
    have hthere := (tagStart?_error hagain).2
    rw [hend, hconfig] at hthere
    exact List.prefix_nil.1 hthere
  -- A word without characters stands everywhere, so the comment starts where the lexer is.
  cases hstart : l.tagStart? with
  | none =>
      have hnot := tagStart?_none hstart _ (by simp [Tile.starts] : l.config.delimiters.commentStart.toList ∈ _)
      rw [hcomment] at hnot
      cases hnot
  | some found =>
      obtain ⟨answer, after⟩ := found
      rw [textToken, hstart] at h
      obtain ⟨hanswer, rfl⟩ := Prod.mk.inj h
      cases answer with
      | ok t => cases hanswer
      | error e' =>
          obtain ⟨rfl, -⟩ := tagStart?_error hstart
          exact hrest hend

/-- Between tags only the end of the template gives no token. -/
theorem textToken_some {l l' : Lexer} (hrest : l.rest ≠ []) : l.textToken ≠ (.ok none, l') := by
  intro h
  unfold textToken at h
  split at h
  · rename_i answer after hstart
    cases answer <;> cases h
  rename_i hstart
  obtain ⟨⟨text, next⟩, hbefore⟩ : ∃ pieces, Lexeme.textBefore (Tile.starts l.config) l.rest = pieces :=
    ⟨_, rfl⟩
  obtain ⟨-, hne⟩ := textBefore_starts hrest hstart hbefore
  rw [Tile.starts] at hbefore
  simp only [hbefore] at h
  split at h
  · rename_i hempty
    rw [List.isEmpty_iff] at hempty
    split at h
    · rename_i answer after htag
      cases answer <;> cases h
    · -- the text was dropped because a tag starts behind it, and it does
      rename_i hafter
      obtain hall | ⟨-, -, ⟨word, hword, htag⟩, -⟩ := l.visibleText_eq text next
      · exact hne (hall.symm.trans hempty)
      · have hnot := tagStart?_none (l := l.moved text next) hafter word hword
        exact Bool.false_ne_true (hnot.symm.trans (Lexeme.startsWith_iff.2 htag))
  · cases h

/-! ### Tokens inside of a tag -/

theorem stringToken_steps {l l' : Lexer} {quote : Char} {s : List Char} {t : Token}
    (hrest : l.rest = quote :: s) (h : l.stringToken quote s = (.ok t, l')) :
    ∃ tiles, l.Steps tiles t l' := by
  unfold stringToken at h
  split at h
  · rename_i text written rest hstring
    cases h
    have htext : l.rest = (quote :: written) ++ rest := by
      rw [hrest, Lexeme.string?_eq hstring, List.cons_append]
    exact ⟨_, .single htext (by simp) rfl rfl rfl (fun h => absurd rfl h) fun h => nomatch h⟩
  · cases h

theorem patternToken_steps {l l' : Lexer} {s : List Char} {t : Token}
    (hrest : l.rest = 'r' :: '/' :: s) (h : l.patternToken s = (.ok t, l')) :
    ∃ tiles, l.Steps tiles t l' := by
  unfold patternToken at h
  split at h
  · rename_i body after hpattern
    cases h
    refine ⟨_, steps_token ?_ (by simp) (by decide) rfl rfl rfl⟩
    rw [hrest, Lexeme.pattern?_eq hpattern]
    simp [List.takeWhile_append_dropWhile]
  · cases h

theorem longOperators_ne_nil : ∀ op ∈ Lexeme.longOperators, op ≠ [] := by decide

theorem punctuationKind_ne (read : List Char) :
    Lexeme.punctuationKind read ≠ .data ∧ Lexeme.punctuationKind read ≠ .string := by
  unfold Lexeme.punctuationKind
  split <;> decide

theorem wordKind?_ne {word : List Char} {kind : TokenKind} (h : Lexeme.wordKind? word = some kind) :
    kind ≠ .data ∧ kind ≠ .string := by
  unfold Lexeme.wordKind? at h
  repeat' split at h
  all_goals cases h <;> decide

theorem punctuationToken_steps {l l' : Lexer} {t : Token} (hrest : l.rest ≠ [])
    (h : l.punctuationToken = (.ok t, l')) : ∃ tiles, l.Steps tiles t l' := by
  unfold punctuationToken at h
  generalize hread : (Lexeme.longOperators.find? fun op => Text.startsWith op l.rest).getD
    (l.rest.take 1) = read at h
  have hprefix : read <+: l.rest ∧ read ≠ [] := by
    cases hfind : Lexeme.longOperators.find? fun op => Text.startsWith op l.rest with
    | none =>
        rw [hfind] at hread
        subst hread
        exact ⟨List.take_prefix .., by simpa using hrest⟩
    | some op =>
        rw [hfind] at hread
        subst hread
        exact ⟨Lexeme.startsWith_iff.1 (by simpa using List.find?_some hfind),
          longOperators_ne_nil op (List.mem_of_find?_eq_some hfind)⟩
  obtain ⟨⟨rest, htext⟩, hne⟩ := hprefix
  cases h
  refine ⟨_, steps_token ?_ hne (punctuationKind_ne read).1 rfl rfl rfl⟩
  simp [← htext]

/-- A word is not empty, if it starts with what is neither a blank nor punctuation. -/
theorem wordToken_steps {l l' : Lexer} {c : Char} {s : List Char} {t : Token} (hrest : l.rest = c :: s)
    (hblank : Lexeme.isBlank c = false) (hpunctuation : Lexeme.isPunctuation c = false)
    (h : l.wordToken = (.ok t, l')) : ∃ tiles, l.Steps tiles t l' := by
  unfold wordToken at h
  dsimp only at h
  have hne : l.rest.takeWhile (fun c => !(Lexeme.isBlank c || Lexeme.isPunctuation c)) ≠ [] := by
    simp [hrest, hblank, hpunctuation]
  have htext := (List.takeWhile_append_dropWhile (p := fun c => !(Lexeme.isBlank c || Lexeme.isPunctuation c))
    (l := l.rest)).symm
  generalize l.rest.takeWhile _ = word at h hne htext
  generalize l.rest.dropWhile _ = rest at h htext
  split at h
  · split at h
    · -- a point follows the digits, and with digits behind it they are a fraction
      rename_i rest
      split at h
      · cases h
        exact ⟨_, steps_token htext hne (by decide) rfl rfl rfl⟩
      · cases h
        refine ⟨_, steps_token ?_ (by simp) (by decide) rfl rfl rfl⟩
        have hdigits := List.prefix_iff_eq_append.1 (List.takeWhile_prefix Char.isDigit (l := rest))
        rw [htext, List.append_assoc, List.cons_append, List.drop_succ_cons, hdigits]
    · cases h
      exact ⟨_, steps_token htext hne (by decide) rfl rfl rfl⟩
  · split at h
    · rename_i kind hkind
      cases h
      exact ⟨_, steps_token htext hne (wordKind?_ne hkind).1 rfl rfl rfl⟩
    · cases h

theorem newline_steps {l l' : Lexer} {t : Token} {span : List Char} (h : l.Steps [.token t span] t l')
    (hkind : t.kind = .blockEnd) : ∃ tiles, l.Steps tiles t l'.dropNewline := by
  unfold dropNewline
  split
  · rename_i htrim
    rw [h.config] at htrim
    obtain ⟨htext, hempty | hnewline⟩ := Lexeme.newline_eq l'.rest
    all_goals dsimp only
    · rw [hempty, List.nil_append] at htext
      rw [hempty, ← htext]
      exact ⟨_, h⟩
    · exact ⟨_, h.then_gap htext fun _ _ => .inl ⟨htrim, hnewline, t, span, rfl, hkind⟩⟩
  · exact ⟨_, h⟩

theorem tagToken_steps {l l' : Lexer} {c : Char} {s : List Char} {t : Token} (ho : l.config.IsProper)
    (hrest : l.rest = c :: s) (h : l.tagToken c s = (.ok t, l')) : ∃ tiles, l.Steps tiles t l' := by
  -- the cases are in the order in which the lexer tries them
  unfold tagToken at h
  split at h
  · exact stringToken_steps hrest h
  split at h
  · rename_i hblank
    cases h
    exact ⟨_, steps_token (List.takeWhile_append_dropWhile ..).symm (by simp [hrest, hblank])
      (by decide) rfl rfl rfl⟩
  rename_i hblank
  dsimp only at h
  split at h
  · rename_i read rest hclose
    obtain ⟨htext, hsuffix⟩ := Lexeme.closing?_eq hclose
    cases h
    exact newline_steps (steps_token htext
      (fun hnil => ho.blockEnd (List.suffix_nil.1 (hnil ▸ hsuffix))) (by decide) rfl rfl rfl) rfl
  split at h
  · rename_i read rest hclose
    obtain ⟨htext, hsuffix⟩ := Lexeme.closing?_eq hclose
    cases h
    exact ⟨_, steps_token htext (fun hnil => ho.variableEnd (List.suffix_nil.1 (hnil ▸ hsuffix)))
      (by decide) rfl rfl rfl⟩
  split at h
  · exact patternToken_steps hrest h
  split at h
  · exact punctuationToken_steps (by simp [hrest]) h
  · rename_i hpunctuation
    exact wordToken_steps hrest (by simpa using hblank) (by simpa using hpunctuation) h

theorem tagToken_error {l l' : Lexer} {c : Char} {s : List Char} {e : TemplateError}
    (h : l.tagToken c s = (.error e, l')) : l' = l := by
  unfold tagToken stringToken patternToken punctuationToken wordToken at h
  dsimp only at h
  repeat' split at h
  all_goals cases h <;> rfl

/-! ### The next token -/

/-- **Each token is cut from what is not read yet**, with some text that is dropped. -/
theorem next_steps {l l' : Lexer} {t : Token} (ho : l.config.IsProper) (h : l.next = (.ok (some t), l')) :
    ∃ tiles, l.Steps tiles t l' := by
  unfold next at h
  split at h
  · cases h
  · rename_i c s hrest
    split at h
    · dsimp only at h
      obtain ⟨hanswer, rfl⟩ := Prod.mk.inj h
      cases hread : (l.tagToken c s).1 with
      | error e =>
          rw [hread] at hanswer
          cases hanswer
      | ok token =>
          rw [hread] at hanswer
          cases hanswer
          exact tagToken_steps ho hrest (Prod.ext hread rfl)
    · exact textToken_steps ho (by simp [hrest]) h

/-- An error is given again by every further attempt, whatever the delimiters are. -/
theorem next_error_again {l l' : Lexer} {e : TemplateError} (h : l.next = (.error e, l')) :
    l'.next = (.error e, l') := by
  have hagain := h
  unfold next at h
  split at h
  · cases h
  rename_i c s hrest
  split at h
  · -- inside of a tag the lexer has not moved
    dsimp only at h
    obtain ⟨hanswer, rfl⟩ := Prod.mk.inj h
    cases hread : (l.tagToken c s).1 with
    | ok token =>
        rw [hread] at hanswer
        cases hanswer
    | error e' =>
        have hstay : (l.tagToken c s).2 = l := tagToken_error (Prod.ext hread rfl)
        rw [hstay] at hagain ⊢
        exact hagain
  · rename_i hinTag
    obtain ⟨hstart, -, hmode⟩ := textToken_error h
    obtain ⟨c', s', hrest'⟩ := List.exists_cons_of_ne_nil (textToken_error_rest (by simp [hrest]) h)
    simp [next, hrest', hmode, hinTag, textToken, hstart, Except.map]

/-- **An error is given again** by every further attempt. -/
theorem next_error {l l' : Lexer} {e : TemplateError} (_ : l.config.IsProper)
    (h : l.next = (.error e, l')) : l'.next = (.error e, l') := next_error_again h

/-- Only the end of a template gives no token. -/
theorem next_none {l l' : Lexer} (h : l.next = (.ok none, l')) : l.rest = [] ∧ l' = l := by
  unfold next at h
  split at h
  · rename_i hrest
    cases h
    exact ⟨hrest, rfl⟩
  · rename_i c s hrest
    split at h
    · dsimp only at h
      obtain ⟨hanswer, -⟩ := Prod.mk.inj h
      cases hread : (l.tagToken c s).1 <;> rw [hread] at hanswer <;> cases hanswer
    · exact absurd h (textToken_some (by simp [hrest]))

/-! ### All tokens -/

/-- With more fuel than there are characters, the tokens end at the end of the template or at an
error. -/
theorem tokensWithin_tile {fuel : Nat} {l last : Lexer} {tokens : List Token} {error : Option TemplateError}
    (ho : l.config.IsProper) (hfuel : l.rest.length < fuel)
    (h : tokensWithin fuel l = (tokens, error, last)) :
    ∃ tiles rest, l.rest = Tile.textAll tiles ++ rest ∧ tiles.filterMap Tile.token? = tokens ∧
      (∀ previous before, l.position = .reached before → Tile.Lie l.config previous before tiles rest) ∧
      (error = none → rest = [] ∧ last.next = (.ok none, last)) ∧
      ∀ e, error = some e → last.next = (.error e, last) := by
  induction fuel generalizing l tokens with
  | zero => omega
  | succ fuel ih =>
      obtain ⟨⟨answer, l'⟩, hnext⟩ : ∃ step, l.next = step := ⟨_, rfl⟩
      simp only [tokensWithin, hnext] at h
      match answer with
      | .ok (some t) =>
          -- one more token: it is cut off, and the rest is shorter
          obtain ⟨tiles, hsteps⟩ := next_steps ho hnext
          have hshorter := hsteps.length_lt
          obtain ⟨⟨tokens', error', last'⟩, hmore⟩ : ∃ answer, tokensWithin fuel l' = answer := ⟨_, rfl⟩
          simp only [hmore] at h
          cases h
          obtain ⟨more, rest, htext, htokens, hlie, hend⟩ := ih (hsteps.config ▸ ho) (by omega) hmore
          refine ⟨tiles ++ more, rest, ?_, ?_, ?_, hend⟩
          · rw [hsteps.text, htext, Tile.textAll_append, List.append_assoc]
          · rw [List.filterMap_append, hsteps.token, htokens, List.singleton_append]
          · intro previous before hbefore
            refine (htext ▸ hsteps.lie previous before hbefore).append fun previous => ?_
            refine hsteps.config ▸ hlie previous _ ?_
            rw [hsteps.position, hbefore, ← Position.advance_start, ← Position.advance_append,
              Position.advance_start]
      | .ok none =>
          obtain ⟨hend, rfl⟩ := next_none hnext
          cases h
          exact ⟨[], _, rfl, rfl, fun _ _ _ => trivial, fun _ => ⟨hend, hnext⟩,
            fun _ he => nomatch he⟩
      | .error e =>
          have hagain := next_error_again hnext
          cases h
          refine ⟨[], _, rfl, rfl, fun _ _ _ => trivial, (fun he => nomatch he), fun e' he => ?_⟩
          cases he
          exact hagain

/-- **The tokens of a template and what is dropped between them are the template.**

Under a configuration that is found valid, every token is cut from what is not read yet, so there
are no more tokens than characters, and an error is given again by every further attempt.  If no
error ends the tokens of a template, then they lie in it side by side with the newlines after block
tags and the indents of tags that the options drop, and nothing is left over. -/
theorem tokens_tile (config : Config) (hvalid : config.validate = .ok ()) :
    (∀ (l l' : Lexer) (t : Token), l.config = optionsOf config → l.next = (.ok (some t), l') →
      l'.rest.length < l.rest.length) ∧
    (∀ (l l' : Lexer) (e : TemplateError), l.config = optionsOf config →
      l.next = (.error e, l') → l'.next = (.error e, l')) ∧
    ∀ source tokens error last, (ofString config source).tokens = (tokens, error, last) →
      ∃ tiles rest, Tile.textAll tiles ++ rest = source.toList ∧ tiles.filterMap Tile.token? = tokens ∧
        Tile.Lie (optionsOf config) none [] tiles rest ∧
        (error = none → rest = [] ∧ last.next = (.ok none, last)) ∧
        ∀ e, error = some e → last.next = (.error e, last) := by
  have ho := optionsOf_isProper hvalid
  refine ⟨fun l l' t hconfig hnext => ?_, fun l l' e hconfig => next_error (hconfig ▸ ho), ?_⟩
  · obtain ⟨tiles, hsteps⟩ := next_steps (hconfig ▸ ho) hnext
    exact hsteps.length_lt
  · intro source tokens error last h
    obtain ⟨tiles, rest, htext, htokens, hlie, hend⟩ :=
      tokensWithin_tile (l := ofString config source) ho (by omega) h
    exact ⟨tiles, rest, htext.symm, htokens, hlie none [] rfl, hend⟩

/-- A configuration that drops newlines after block tags and indents. -/
def trimming : Config := { Config.standard with trimBlocks := true, lstripBlocks := true }

/-- The tokens of a template with a tag, a newline and an indent that are dropped, and a string. -/
theorem tokens_tile_trimming : trimming.validate = .ok () ∧
    ∃ tiles : List Tile, Tile.textAll tiles = "x\n \x7b% 'a' %\x7d\ny".toList ∧
      (tiles.filterMap Tile.token?).map Token.value = ["x\n", "\x7b%", " ", "a", " ", "%\x7d", "y"] ∧
      Tile.Lie (optionsOf trimming) none [] tiles [] := by
  have hvalid : trimming.validate = .ok () := by decide
  have htokens := (tokens_tile trimming hvalid).2.2 "x\n \x7b% 'a' %\x7d\ny" _ _ _ rfl
  obtain ⟨tiles, rest, htext, hvalues, hlie, hend, -⟩ := htokens
  obtain ⟨rfl, -⟩ := hend (by decide +kernel)
  refine ⟨hvalid, tiles, by simpa using htext, ?_, hlie⟩
  rw [hvalues]
  decide +kernel

end Lexer

end Stencil
