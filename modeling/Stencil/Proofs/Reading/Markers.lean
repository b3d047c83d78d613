/-
**Markers as they are written.**

A `-` next to a delimiter asks for white space to be dropped.  A parser asks whether the text of a tag
starts or ends with `-`, and a delimiter may do so itself.  Under delimiters that do not, what a parser
goes by is what is written.

Main definitions:

* `Stencil.Delimiters.Shapes` — the text of a token by its kind;
* `Stencil.Delimiters.written` — the markers that are written in a tag or a comment;
* `Stencil.Delimiters.Undashed`, `Stencil.Delimiters.CommentsClear` — delimiters that cannot be taken for
  markers.

Main results:

* `Stencil.Lexer.next_shapes` — the texts of the tokens of a lexer;
* `Stencil.Lexer.Reads.shown_written` — what portions show under such delimiters.
-/

import Stencil.Proofs.Reading.Shown

set_option autoImplicit false

namespace Stencil

/-! ### The texts of tokens -/

namespace Delimiters

variable {d : Delimiters} {t : Token}

/-- The text of a token: a delimiter with or without a marker, or a comment between delimiters. -/
def Shapes (d : Delimiters) (t : Token) : Prop :=
  match t.kind with
  | .blockStart => t.value.toList = d.blockStart.toList ∨ t.value.toList = d.blockStart.toList ++ ['-']
  | .variableStart =>
    t.value.toList = d.variableStart.toList ∨ t.value.toList = d.variableStart.toList ++ ['-']
  | .blockEnd => t.value.toList = d.blockEnd.toList ∨ t.value.toList = '-' :: d.blockEnd.toList
  | .variableEnd => t.value.toList = d.variableEnd.toList ∨ t.value.toList = '-' :: d.variableEnd.toList
  | .comment => ∃ text, t.value.toList = d.commentStart.toList ++ text ++ d.commentEnd.toList
  | _ => True

theorem shapes_of_inner (h : t.kind.isInner = true) : d.Shapes t := by
  unfold Shapes
  cases hkind : t.kind <;> first | trivial | (rw [hkind] at h; cases h)

end Delimiters

namespace Lexeme

/-- A character that starts neither a blank nor a string. -/
def isPlain (c : Char) : Bool := !isBlank c && c != '\x22' && c != '\x27'

theorem opening?_read {delimiter s read rest : List Char} (h : opening? delimiter s = some (read, rest)) :
    read = delimiter ∨ read = delimiter ++ ['-'] := by
  obtain ⟨after, -, h⟩ := Option.map_eq_some_iff.1 h
  split at h <;> cases h
  · exact .inr rfl
  · exact .inl rfl

theorem closing?_read {delimiter s read rest : List Char} (h : closing? delimiter s = some (read, rest)) :
    read = delimiter ∨ read = '-' :: delimiter := by
  unfold closing? at h
  split at h
  · cases h
    exact .inl rfl
  · obtain ⟨after, -, h⟩ := Option.map_eq_some_iff.1 h
    cases h
    exact .inr rfl
  · cases h

theorem punctuationKind_isInner (read : List Char) :
    (punctuationKind read).isInner = true ∧ punctuationKind read ≠ .whitespace := by
  unfold punctuationKind
  split <;> decide

theorem wordKind?_isInner {word : List Char} {kind : TokenKind} (h : wordKind? word = some kind) :
    kind.isInner = true ∧ kind ≠ .whitespace := by
  unfold wordKind? at h
  repeat' split at h
  all_goals cases h <;> decide

end Lexeme

namespace Lexer

variable {l l' : Lexer} {t : Token}

/-- What starts a tag and a comment is no inner token. -/
theorem tagStart?_shapes (h : l.tagStart? = some (.ok t, l')) :
    l.config.delimiters.Shapes t ∧ t.kind.isInner = false := by
  unfold tagStart? at h
  dsimp only at h
  split at h
  · rename_i read rest hopen
    cases h
    exact ⟨by simpa [Delimiters.Shapes, Lexer.token] using Lexeme.opening?_read hopen, rfl⟩
  split at h
  · rename_i read rest hopen
    cases h
    exact ⟨by simpa [Delimiters.Shapes, Lexer.token] using Lexeme.opening?_read hopen, rfl⟩
  split at h
  · cases h
  · split at h
    · cases h
    · rename_i text rest hcut
      cases h
      exact ⟨⟨text, by simp [Lexer.token]⟩, rfl⟩

theorem textToken_shapes (h : l.textToken = (.ok (some t), l')) :
    l.config.delimiters.Shapes t ∧ t.kind.isInner = false := by
  have hstart : ∀ {m : Lexer} {answer : Except TemplateError Token}, m.tagStart? = some (answer, l') →
      answer.map some = .ok (some t) → m.config.delimiters.Shapes t ∧ t.kind.isInner = false := by
    intro m answer hm hanswer
    cases answer with
    | error e => cases hanswer
    | ok u =>
        cases hanswer
        exact tagStart?_shapes hm
  unfold textToken at h
  split at h
  · rename_i answer after hanswer
    obtain ⟨hmap, rfl⟩ := Prod.mk.inj h
    exact hstart hanswer hmap
  · dsimp only at h
    split at h
    · split at h
      · rename_i answer after hanswer
        obtain ⟨hmap, rfl⟩ := Prod.mk.inj h
        have hshapes := hstart hanswer hmap
        exact hshapes
      · cases h
    · cases h
      exact ⟨trivial, rfl⟩

/-- Inside of a tag only its end is no inner token, and no string and no blank starts with the end. -/
theorem tagToken_isInner {c : Char} {s : List Char} (hc : Lexeme.isPlain c = true →
      Lexeme.closing? l.config.delimiters.blockEnd.toList l.rest = none ∧
        Lexeme.closing? l.config.delimiters.variableEnd.toList l.rest = none)
    (h : l.tagToken c s = (.ok t, l')) :
    t.kind.isInner = true ∧ (Lexeme.isBlank c = false → t.kind ≠ .whitespace) := by
  unfold tagToken at h
  split at h
  · unfold stringToken at h
    split at h <;> cases h
    simp [TokenKind.isInner]
  rename_i hquote
  split at h
  · rename_i hblank
    cases h
    simp [hblank, TokenKind.isInner]
  rename_i hblank
  obtain ⟨hblock, hvariable⟩ := hc (by simpa [Lexeme.isPlain, hblank] using hquote)
  simp only [hblock, hvariable] at h
  split at h
  · unfold patternToken at h
    split at h <;> cases h
    simp [TokenKind.isInner]
  split at h
  · cases h
    exact (Lexeme.punctuationKind_isInner _).imp_right fun hne _ => hne
  · unfold wordToken at h
    dsimp only at h
    split at h
    · split at h
      all_goals split at h <;> cases h <;> simp [Lexer.token, TokenKind.isInner]
    · split at h <;> cases h
      rename_i kind hkind
      exact (Lexeme.wordKind?_isInner hkind).imp_right fun hne _ => hne

/-- The end of a block tag, with or without a marker. -/
theorem tagToken_blockEnd {c : Char} {s read rest : List Char} (hc : Lexeme.isPlain c = true)
    (h : Lexeme.closing? l.config.delimiters.blockEnd.toList l.rest = some (read, rest)) :
    l.tagToken c s = (.ok (l.token .blockEnd read rest).1,
      { (l.token .blockEnd read rest).2 with inTag := false }.dropNewline) := by
  simp only [Lexeme.isPlain, Bool.and_eq_true, Bool.not_eq_true', bne_iff_ne, ne_eq] at hc
  obtain ⟨⟨hblank, hdouble⟩, hsingle⟩ := hc
  unfold tagToken
  rw [if_neg (by simp [hdouble, hsingle]), if_neg (by simp [hblank])]
  simp only [h]

/-- The end of an output, with or without a marker. -/
theorem tagToken_variableEnd {c : Char} {s read rest : List Char} (hc : Lexeme.isPlain c = true)
    (hblock : Lexeme.closing? l.config.delimiters.blockEnd.toList l.rest = none)
    (h : Lexeme.closing? l.config.delimiters.variableEnd.toList l.rest = some (read, rest)) :
    l.tagToken c s = (.ok (l.token .variableEnd read rest).1,
      { (l.token .variableEnd read rest).2 with inTag := false }) := by
  simp only [Lexeme.isPlain, Bool.and_eq_true, Bool.not_eq_true', bne_iff_ne, ne_eq] at hc
  obtain ⟨⟨hblank, hdouble⟩, hsingle⟩ := hc
  unfold tagToken
  rw [if_neg (by simp [hdouble, hsingle]), if_neg (by simp [hblank])]
  simp only [hblock, h]

/-- Inside of a tag there are inner tokens and ends. -/
theorem tagToken_shapes {c : Char} {s : List Char} (h : l.tagToken c s = (.ok t, l')) :
    l.config.delimiters.Shapes t ∧ t.kind ≠ .data ∧
      (Lexeme.isBlank c = false → t.kind ≠ .whitespace) := by
  have hinner : t.kind.isInner = true ∧ (Lexeme.isBlank c = false → t.kind ≠ .whitespace) →
      l.config.delimiters.Shapes t ∧ t.kind ≠ .data ∧
        (Lexeme.isBlank c = false → t.kind ≠ .whitespace) := by
    rintro ⟨hinner, hvisible⟩
    refine ⟨Delimiters.shapes_of_inner hinner, fun hdata => ?_, hvisible⟩
    rw [hdata] at hinner
    cases hinner
  by_cases hc : Lexeme.isPlain c = true
  swap
  · exact hinner (tagToken_isInner (fun hplain => absurd hplain hc) h)
  cases hblock : Lexeme.closing? l.config.delimiters.blockEnd.toList l.rest with
  | some found =>
      rw [tagToken_blockEnd hc hblock] at h
      cases h
      refine ⟨?_, by simp [Lexer.token]⟩
      simpa [Delimiters.Shapes, Lexer.token] using Lexeme.closing?_read hblock
  | none =>
      cases hvariable : Lexeme.closing? l.config.delimiters.variableEnd.toList l.rest with
      | some found =>
          rw [tagToken_variableEnd hc hblock hvariable] at h
          cases h
          refine ⟨?_, by simp [Lexer.token]⟩
          simpa [Delimiters.Shapes, Lexer.token] using Lexeme.closing?_read hvariable
      | none => exact hinner (tagToken_isInner (fun _ => ⟨hblock, hvariable⟩) h)

/-- The next token inside of a tag. -/
theorem next_inside (htag : l.inTag = true) (h : l.next = (.ok (some t), l')) :
    ∃ c s, l.rest = c :: s ∧ l.tagToken c s = (.ok t, l') := by
  unfold next at h
  split at h
  · cases h
  · rename_i c s hrest
    rw [if_pos htag] at h
    dsimp only at h
    obtain ⟨hanswer, rfl⟩ := Prod.mk.inj h
    refine ⟨c, s, hrest, Prod.ext ?_ rfl⟩
    cases hread : (l.tagToken c s).1 <;> rw [hread] at hanswer <;> cases hanswer
    rfl

/-- The next token outside of tags. -/
theorem next_outside (htag : l.inTag = false) (h : l.next = (.ok (some t), l')) :
    l.textToken = (.ok (some t), l') := by
  unfold next at h
  split at h
  · cases h
  · rwa [if_neg (by simp [htag])] at h

/-- The text of a token by its kind. -/
theorem next_shapes (h : l.next = (.ok (some t), l')) : l.config.delimiters.Shapes t := by
  cases htag : l.inTag with
  | true =>
      obtain ⟨c, s, -, hread⟩ := next_inside htag h
      exact (tagToken_shapes hread).1
  | false => exact (textToken_shapes (next_outside htag h)).1

theorem nextVisible_shapes (ho : l.config.IsProper) (h : l.nextVisible = (.ok (some t), l')) :
    l.config.delimiters.Shapes t := by
  rcases nextVisible_cases h with h | ⟨blank, l₁, hblank, -, h⟩
  · exact next_shapes h
  · exact next_config ho hblank ▸ next_shapes h

/-- The text of a token that was read. -/
theorem Reads.shapes {ps : List Portion} (h : l.Reads ps l') (ho : l.config.IsProper)
    (ht : .token t ∈ ps) : l.config.delimiters.Shapes t := by
  induction h with
  | nil => cases ht
  | token h _ ih =>
      rcases List.mem_cons.1 ht with heq | ht
      · cases heq
        exact nextVisible_shapes ho h
      · have hconfig := nextVisible_config ho h
        exact hconfig ▸ ih (hconfig ▸ ho) ht
  | finished h _ ih =>
      have hconfig := nextVisible_config ho h
      exact hconfig ▸ ih (hconfig ▸ ho) ht
  | verbatim _ h _ ih =>
      rcases List.mem_cons.1 ht with heq | ht
      · cases heq
      · exact h.config ▸ ih (h.config ▸ ho) ht

end Lexer

/-! ### Markers -/

namespace Delimiters

variable {d : Delimiters} {t : Token}

/-- The text of a comment without its delimiters. -/
def inside (d : Delimiters) (comment : List Char) : List Char :=
  (comment.drop d.commentStart.toList.length).take
    (comment.length - d.commentStart.toList.length - d.commentEnd.toList.length)

/-- The markers that are written in a tag or a comment: a `-` behind the delimiter that starts it, and one
before the delimiter that ends it. -/
def written (d : Delimiters) : Markers where
  before t :=
    match t.kind with
    | .blockStart => t.value.toList == d.blockStart.toList ++ ['-']
    | .variableStart => t.value.toList == d.variableStart.toList ++ ['-']
    | .comment => (d.inside t.value.toList).head? == some '-'
    | _ => false
  after t :=
    match t.kind with
    | .blockEnd => t.value.toList == '-' :: d.blockEnd.toList
    | .variableEnd => t.value.toList == '-' :: d.variableEnd.toList
    | .comment => (d.inside t.value.toList).getLast? == some '-'
    | _ => false

/-- Delimiters of tags and outputs that cannot be taken for markers: none that starts one ends with a `-`,
and none that ends one starts with a `-`. -/
structure Undashed (d : Delimiters) : Prop where
  blockStart : d.blockStart.toList.getLast? ≠ some '-'
  blockEnd : d.blockEnd.toList.head? ≠ some '-'
  variableStart : d.variableStart.toList.getLast? ≠ some '-'
  variableEnd : d.variableEnd.toList.head? ≠ some '-'

/-- The delimiters of comments cannot be taken for markers in a text: they have no `-` next to the text of a
comment, or there is no comment without a text. -/
def CommentsClear (d : Delimiters) (s : List Char) : Prop :=
  d.commentStart.toList ++ d.commentEnd.toList <:+: s →
    d.commentStart.toList.getLast? ≠ some '-' ∧ d.commentEnd.toList.head? ≠ some '-'

/-- A delimiter that ends with no `-` ends with one only if a marker follows it. -/
theorem endsDashed_eq {word : List Char} (hword : word.getLast? ≠ some '-')
    (h : t.value.toList = word ∨ t.value.toList = word ++ ['-']) :
    t.endsDashed = (t.value.toList == word ++ ['-']) := by
  rcases h with h | h
  · simp [Token.endsDashed, h, hword]
  · simp [Token.endsDashed, h]

/-- A delimiter that starts with no `-` starts with one only if a marker stands before it. -/
theorem startsDashed_eq {word : List Char} (hword : word.head? ≠ some '-')
    (h : t.value.toList = word ∨ t.value.toList = '-' :: word) :
    t.startsDashed = (t.value.toList == '-' :: word) := by
  rcases h with h | h
  · have hne : word ≠ '-' :: word := fun h => by simpa using congrArg List.length h
    simp [Token.startsDashed, h, hword, hne]
  · simp [Token.startsDashed, h]

theorem inside_eq (text : List Char) :
    d.inside (d.commentStart.toList ++ text ++ d.commentEnd.toList) = text := by
  have hlength : (d.commentStart.toList ++ text ++ d.commentEnd.toList).length -
      d.commentStart.toList.length - d.commentEnd.toList.length = text.length := by
    simp only [List.length_append]
    omega
  rw [inside, hlength, List.append_assoc, List.drop_left, List.take_left]

/-- A delimiter with a marker stands where the delimiter stands, if the text behind it starts with the
marker. -/
theorem startsWith_marked {word text other : List Char} (hother : text = [] → other.head? ≠ some '-') :
    Text.startsWith (word ++ ['-']) (word ++ text ++ other) = (text.head? == some '-') := by
  rw [Bool.eq_iff_iff, Lexeme.startsWith_iff, List.append_assoc, List.prefix_append_right_inj,
    List.singleton_prefix_iff_head?_eq_some, beq_iff_eq]
  cases text with
  | nil => simpa using hother rfl
  | cons c text => simp

/-- The tags and comments before which white space is dropped are those with a marker. -/
theorem Undashed.before (hd : d.Undashed) (ht : d.Shapes t)
    (hcomment : t.kind = .comment → d.CommentsClear t.value.toList) :
    d.markers.before t = d.written.before t := by
  unfold Shapes at ht
  simp only [markers, written]
  cases hkind : t.kind <;> simp only [hkind] at ht ⊢
  case comment =>
    obtain ⟨text, htext⟩ := ht
    have hclear := hcomment hkind
    rw [htext] at hclear
    rw [htext, inside_eq, String.toList_append]
    -- Behind the start of a comment without a text stands its end, which may look like a marker.
    refine startsWith_marked fun hnil => (hclear ?_).2
    simp [hnil]
  case blockStart => exact endsDashed_eq hd.blockStart ht
  case variableStart => exact endsDashed_eq hd.variableStart ht

/-- The tags and comments after which white space is dropped are those with a marker. -/
theorem Undashed.after (hd : d.Undashed) (ht : d.Shapes t)
    (hcomment : t.kind = .comment → d.CommentsClear t.value.toList) :
    d.markers.after t = d.written.after t := by
  unfold Shapes at ht
  simp only [markers, written]
  cases hkind : t.kind <;> simp only [hkind] at ht ⊢
  case comment =>
    obtain ⟨text, htext⟩ := ht
    have hclear := hcomment hkind
    rw [htext] at hclear
    have hstart : text.reverse = [] → d.commentStart.toList.reverse.head? ≠ some '-' := fun hnil => by
      rw [List.head?_reverse]
      exact (hclear (by simp [List.reverse_eq_nil_iff.1 hnil])).1
    rw [htext, inside_eq, List.reverse_cons, List.reverse_append, List.reverse_append,
      ← List.append_assoc, startsWith_marked hstart, List.head?_reverse]
  case blockEnd => exact startsDashed_eq hd.blockEnd ht
  case variableEnd => exact startsDashed_eq hd.variableEnd ht

end Delimiters

/-- What portions show where no delimiter can be taken for a marker. -/
theorem Lexer.Reads.shown_written {l l' : Lexer} {ps : List Portion} (h : l.Reads ps l')
    (ho : l.config.IsProper) (hd : l.config.delimiters.Undashed) (drop : Bool)
    (hcomments : ∀ t, .token t ∈ ps → t.kind = .comment → l.config.delimiters.CommentsClear t.value.toList) :
    l.config.delimiters.markers.shown drop none ps = l.config.delimiters.written.shown drop none ps :=
  Markers.shown_congr (fun t ht => ⟨hd.before (h.shapes ho ht) (hcomments t ht),
    hd.after (h.shapes ho ht) (hcomments t ht)⟩) fun _ ht => by cases ht

end Stencil
