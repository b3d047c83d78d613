/-
**Delimiters that are accepted.**

A configuration is accepted if its delimiters are words and no two things start with the same one.  Beyond
that delimiters may stand inside of each other, and the lexer asks for them in an order of its own.  This
module says under which of them the simplest tag, output and comment are read as such, and which texts
next to tags and comments lose their white space.

Main definitions:

* `Stencil.Delimiters.ReadsOutput`, `Stencil.Delimiters.ReadsTag`, `Stencil.Delimiters.ReadsComment` — what
  delimiters must not be for an output, a tag and a comment to be read as such.

Main results:

* `Stencil.Lexer.pieces?_name` — a name between blanks and the end of its tag;
* `Stencil.Config.accepted_delimiters` — **what an accepted configuration promises**;
* `Stencil.Config.prefixed_output` — an accepted configuration under which no output is read.
-/

import Stencil.Proofs.Reading.Spans
import Stencil.Proofs.Reading.Statements
import Stencil.Proofs.Reading.Tokens

set_option autoImplicit false

namespace Stencil

/-! ### Delimiters and what stands next to them -/

namespace Delimiters

/-- An end delimiter at the start of a text, with or without a marker. -/
def EndsAt (word : String) (s : List Char) : Prop := word.toList <+: s ∨ '-' :: word.toList <+: s

instance (word : String) (s : List Char) : Decidable (EndsAt word s) :=
  inferInstanceAs (Decidable (_ ∨ _))

/-- A name between blanks and the end of its tag are told apart: no tag ends at the name, and the end is not
taken for a blank or a string. -/
structure ReadsName (d : Delimiters) (stop : String) : Prop where
  tag : ¬EndsAt d.blockEnd ('x' :: ' ' :: stop.toList)
  output : ¬EndsAt d.variableEnd ('x' :: ' ' :: stop.toList)
  plain : ∀ c ∈ stop.toList.head?, Lexeme.isPlain c = true

/-- What has to hold of delimiters for an output of a name to be read as one. -/
structure ReadsOutput (d : Delimiters) : Prop where
  start : ¬d.blockStart.toList <+: (d.variableStart ++ " x " ++ d.variableEnd).toList
  name : d.ReadsName d.variableEnd
  stop : ¬EndsAt d.blockEnd d.variableEnd.toList

/-- What has to hold of delimiters for a tag with a name to be read as one. -/
def ReadsTag (d : Delimiters) : Prop := d.ReadsName d.blockEnd

/-- What has to hold of delimiters for a comment without a text to be read as one. -/
structure ReadsComment (d : Delimiters) : Prop where
  tag : ¬d.blockStart.toList <+: (d.commentStart ++ d.commentEnd).toList
  output : ¬d.variableStart.toList <+: (d.commentStart ++ d.commentEnd).toList

end Delimiters

namespace Lexeme

theorem after?_eq_none {word s : List Char} : Text.after? word s = none ↔ ¬word <+: s := by
  rw [← startsWith_iff, Text.startsWith]
  simp

theorem after?_append (word s : List Char) : Text.after? word (word ++ s) = some s :=
  Text.after?_eq_some_iff.2 rfl

theorem closing?_eq_none {word : String} {s : List Char} :
    closing? word.toList s = none ↔ ¬Delimiters.EndsAt word s := by
  rw [Lexer.closing?_eq_none_iff, after?_eq_none, Delimiters.EndsAt, not_or]
  refine and_congr_right fun _ => ⟨fun h hdashed => ?_, fun h rest hs => ?_⟩
  · obtain ⟨rest, hrest⟩ := hdashed
    exact after?_eq_none.1 (h (word.toList ++ rest) hrest.symm) (List.prefix_append ..)
  · subst hs
    exact after?_eq_none.2 fun hword => h (List.cons_prefix_cons.2 ⟨rfl, hword⟩)

theorem closing?_self (word : List Char) : closing? word word = some (word, []) := by
  have hafter := after?_append word []
  rw [List.append_nil] at hafter
  simp [closing?, hafter]

theorem cut?_self {word : List Char} (h : word ≠ []) : Text.cut? word word = some ([], []) := by
  have hafter := after?_append word []
  rw [List.append_nil] at hafter
  cases word with
  | nil => exact absurd rfl h
  | cons c s => simp [Text.cut?, hafter]

theorem opening?_eq_none {word s : List Char} : opening? word s = none ↔ ¬word <+: s := by
  rw [opening?, Option.map_eq_none_iff, after?_eq_none]

/-- A blank behind a delimiter is no marker. -/
theorem opening?_blank (word s : List Char) :
    opening? word (word ++ ' ' :: s) = some (word, ' ' :: s) := by
  rw [opening?, after?_append]
  rfl

end Lexeme

/-! ### Lexers in places -/

namespace Lexer

/-- A lexer with some options inside or outside of a tag, before a text. -/
structure At (l : Lexer) (o : Options) (inTag : Bool) (s : List Char) : Prop where
  config : l.config = o
  inTag : l.inTag = inTag
  rest : l.rest = s

namespace At

variable {l : Lexer} {o : Options} {inTag : Bool} {c : Char} {s read rest : List Char}

theorem ofString (config : Config) (source : String) :
    (Lexer.ofString config source).At (optionsOf config) false source.toList := ⟨rfl, rfl, rfl⟩

theorem pieces?_nil (h : l.At o inTag []) : l.pieces? = some [] := by
  have hnext : l.next = (.ok none, l) := by simp [next, h.rest]
  exact Lexer.pieces?_nil hnext

theorem next_eq (h : l.At o true (c :: s)) :
    l.next = ((l.tagToken c s).1.map some, (l.tagToken c s).2) := by
  simp [next, h.rest, h.inTag]

/-- Blanks inside of a tag are passed over. -/
theorem blank (ho : o.IsProper) (h : l.At o true (' ' :: s)) :
    ∃ l' : Lexer, l'.At o true (s.dropWhile Lexeme.isBlank) ∧ l.pieces? = l'.pieces? := by
  have hspace : Lexeme.isBlank ' ' = true := rfl
  obtain ⟨hconfig, htag, hrest⟩ := id h
  refine ⟨(l.token .whitespace (l.rest.takeWhile Lexeme.isBlank)
    (l.rest.dropWhile Lexeme.isBlank)).2, ⟨hconfig, htag, ?_⟩, ?_⟩
  · simp [Lexer.token, hrest, hspace]
  · refine pieces?_blank (hconfig ▸ ho) (t := (l.token .whitespace (l.rest.takeWhile Lexeme.isBlank)
      (l.rest.dropWhile Lexeme.isBlank)).1) ?_ rfl
    rw [h.next_eq]
    simp [tagToken, hspace, Except.map]

/-- A name inside of a tag, unless the tag ends there. -/
theorem name (ho : o.IsProper) (h : l.At o true ('x' :: ' ' :: s))
    (htag : ¬Delimiters.EndsAt o.delimiters.blockEnd ('x' :: ' ' :: s))
    (houtput : ¬Delimiters.EndsAt o.delimiters.variableEnd ('x' :: ' ' :: s)) :
    ∃ l' : Lexer, l'.At o true (' ' :: s) ∧
      ∀ u us, l.pieces? = some (u :: us) ↔ .word "x" = u ∧ l'.pieces? = some us := by
  obtain ⟨hconfig, hinTag, hrest⟩ := id h
  have hword : l.tagToken 'x' (' ' :: s) =
      (.ok (l.token .symbol ['x'] (' ' :: s)).1, (l.token .symbol ['x'] (' ' :: s)).2) := by
    rw [← Lexeme.closing?_eq_none, ← hconfig] at htag houtput
    have hletter : Lexeme.isBlank 'x' = false ∧ Lexeme.isPunctuation 'x' = false := by decide
    have hspace : Lexeme.isBlank ' ' = true := rfl
    have hdigit : 'x'.isDigit = false := rfl
    have hkind : Lexeme.wordKind? ['x'] = some .symbol := by decide
    simp [tagToken, htag, houtput, hletter, wordToken, hrest, hspace, hdigit, hkind]
  have hnext := h.next_eq
  rw [hword] at hnext
  refine ⟨_, ?_, fun _ _ => pieces?_cons_iff (hconfig ▸ ho) hnext (by simp [Lexer.token])⟩
  exact ⟨hconfig, hinTag, rfl⟩

/-- The end of a tag. -/
theorem blockEnd (ho : o.IsProper) (hkeeps : o.trimBlocks = false) (h : l.At o true (c :: s))
    (hc : Lexeme.isPlain c = true)
    (hclose : Lexeme.closing? o.delimiters.blockEnd.toList (c :: s) = some (read, rest)) :
    ∃ l' : Lexer, l'.At o false rest ∧
      ∀ u us, l.pieces? = some (u :: us) ↔ ⟨.blockEnd, String.ofList read⟩ = u ∧ l'.pieces? = some us := by
  have hnext := h.next_eq
  obtain ⟨hconfig, hinTag, hrest⟩ := id h
  rw [← hconfig, ← hrest] at hclose
  rw [tagToken_blockEnd hc hclose] at hnext
  refine ⟨_, ?_, fun _ _ => pieces?_cons_iff (hconfig ▸ ho) hnext (by simp [Lexer.token])⟩
  constructor <;> simp [dropNewline, Lexer.token, moved, hconfig, hkeeps]

/-- The end of an output. -/
theorem variableEnd (ho : o.IsProper) (h : l.At o true (c :: s)) (hc : Lexeme.isPlain c = true)
    (htag : Lexeme.closing? o.delimiters.blockEnd.toList (c :: s) = none)
    (hclose : Lexeme.closing? o.delimiters.variableEnd.toList (c :: s) = some (read, rest)) :
    ∃ l' : Lexer, l'.At o false rest ∧
      ∀ u us, l.pieces? = some (u :: us) ↔
        ⟨.variableEnd, String.ofList read⟩ = u ∧ l'.pieces? = some us := by
  have hnext := h.next_eq
  obtain ⟨hconfig, hinTag, hrest⟩ := id h
  rw [← hconfig, ← hrest] at hclose htag
  rw [tagToken_variableEnd hc htag hclose] at hnext
  refine ⟨_, ?_, fun _ _ => pieces?_cons_iff (hconfig ▸ ho) hnext (by simp [Lexer.token])⟩
  exact ⟨hconfig, rfl, rfl⟩

/-- Where no tag ends there is an inner token, or an error. -/
theorem inner (ho : o.IsProper) (h : l.At o true (c :: s)) (hc : Lexeme.isPlain c = true →
      Lexeme.closing? o.delimiters.blockEnd.toList (c :: s) = none ∧
        Lexeme.closing? o.delimiters.variableEnd.toList (c :: s) = none)
    (hblank : Lexeme.isBlank c = false) {u : Piece} {us : List Piece}
    (hu : l.pieces? = some (u :: us)) : u.kind.isInner = true := by
  have hnext := h.next_eq
  obtain ⟨hconfig, hinTag, hrest⟩ := id h
  rw [← hconfig, ← hrest] at hc
  rcases htoken : l.tagToken c s with ⟨e | t, l'⟩
  · rw [htoken] at hnext
    rw [Lexer.pieces?_error hnext] at hu
    cases hu
  · rw [htoken] at hnext
    obtain ⟨hkind, hvisible⟩ := tagToken_isInner hc htoken
    obtain ⟨rfl, -⟩ := (pieces?_cons_iff (hconfig ▸ ho) hnext (hvisible hblank)).1 hu
    exact hkind

/-- The next token between tags, where a tag or a comment starts. -/
theorem next_start {word : List Char} (h : l.At o false s) (hword : word ≠ []) (hstands : word <+: s)
    {t : Token} {l' : Lexer} (hstart : l.tagStart? = some (.ok t, l')) : l.next = (.ok (some t), l') := by
  have hrest : l.rest ≠ [] := fun hnil => hword (List.prefix_nil.1 (hnil ▸ h.rest ▸ hstands))
  obtain ⟨c, s', hs⟩ := List.exists_cons_of_ne_nil hrest
  simp [next, hs, h.inTag, textToken, hstart, Except.map]

/-- A tag starts here. -/
theorem blockStart (ho : o.IsProper) (h : l.At o false s)
    (hopen : Lexeme.opening? o.delimiters.blockStart.toList s = some (read, rest)) :
    ∃ l' : Lexer, l'.At o true rest ∧
      ∀ u us, l.pieces? = some (u :: us) ↔
        ⟨.blockStart, String.ofList read⟩ = u ∧ l'.pieces? = some us := by
  obtain ⟨hconfig, hinTag, hrest⟩ := id h
  obtain ⟨hs, hread⟩ := Lexeme.opening?_eq hopen
  have hstart : l.tagStart? = some (.ok (l.token .blockStart read rest).1,
      { (l.token .blockStart read rest).2 with inTag := true }) := by
    simp only [tagStart?, hconfig, hrest, hopen]
  have hnext := h.next_start ho.blockStart (hs ▸ hread.trans (List.prefix_append ..)) hstart
  refine ⟨_, ?_, fun _ _ => pieces?_cons_iff (hconfig ▸ ho) hnext (by simp [Lexer.token])⟩
  exact ⟨hconfig, rfl, rfl⟩

/-- An output starts here. -/
theorem variableStart (ho : o.IsProper) (h : l.At o false s)
    (htag : ¬o.delimiters.blockStart.toList <+: s)
    (hopen : Lexeme.opening? o.delimiters.variableStart.toList s = some (read, rest)) :
    ∃ l' : Lexer, l'.At o true rest ∧
      ∀ u us, l.pieces? = some (u :: us) ↔
        ⟨.variableStart, String.ofList read⟩ = u ∧ l'.pieces? = some us := by
  obtain ⟨hconfig, hinTag, hrest⟩ := id h
  obtain ⟨hs, hread⟩ := Lexeme.opening?_eq hopen
  have hstart : l.tagStart? = some (.ok (l.token .variableStart read rest).1,
      { (l.token .variableStart read rest).2 with inTag := true }) := by
    simp only [tagStart?, hconfig, hrest, Lexeme.opening?_eq_none.2 htag, hopen]
  have hnext := h.next_start ho.variableStart (hs ▸ hread.trans (List.prefix_append ..)) hstart
  refine ⟨_, ?_, fun _ _ => pieces?_cons_iff (hconfig ▸ ho) hnext (by simp [Lexer.token])⟩
  exact ⟨hconfig, rfl, rfl⟩

/-- A comment without a text stands here. -/
theorem comment (ho : o.IsProper)
    (h : l.At o false (o.delimiters.commentStart.toList ++ o.delimiters.commentEnd.toList))
    (hd : o.delimiters.ReadsComment) :
    l.pieces? = some [⟨.comment, o.delimiters.commentStart ++ o.delimiters.commentEnd⟩] := by
  obtain ⟨hconfig, hinTag, hrest⟩ := id h
  obtain ⟨htag, houtput⟩ := hd
  rw [String.toList_append] at htag houtput
  have hstart : l.tagStart? = some (.ok (l.token .comment (o.delimiters.commentStart.toList ++ [] ++
      o.delimiters.commentEnd.toList) []).1, (l.token .comment (o.delimiters.commentStart.toList ++ [] ++
      o.delimiters.commentEnd.toList) []).2) := by
    simp only [tagStart?, hconfig, hrest, Lexeme.opening?_eq_none.2 htag,
      Lexeme.opening?_eq_none.2 houtput, Lexeme.after?_append, Lexeme.cut?_self ho.commentEnd]
  have hnext := h.next_start ho.commentStart (List.prefix_append ..) hstart
  refine (pieces?_cons_iff (hconfig ▸ ho) hnext (by simp [Lexer.token])).2 ⟨?_, ?_⟩
  · simp [Token.piece, Lexer.token, String.ofList_append]
  · refine pieces?_nil (?_ : At _ o false [])
    exact ⟨hconfig, hinTag, rfl⟩

/-- The end of a tag or of an output is read of no blank and no string, and that of an output only where no
tag ends. -/
theorem outer (ho : o.IsProper) (hkeeps : o.trimBlocks = false) (h : l.At o true (c :: s))
    (hblank : Lexeme.isBlank c = false) {u : Piece} {us : List Piece} (hu : l.pieces? = some (u :: us))
    (hkind : u.kind.isInner = false) :
    Lexeme.isPlain c = true ∧ (∃ read rest, c :: s = read ++ rest ∧ u.value = String.ofList read) ∧
      (u.kind = .variableEnd → ¬Delimiters.EndsAt o.delimiters.blockEnd (c :: s)) := by
  by_cases hc : Lexeme.isPlain c = true
  swap
  · have hinner := h.inner ho (fun hplain => absurd hplain hc) hblank hu
    exact absurd (hkind.symm.trans hinner) (by decide)
  refine ⟨hc, ?_⟩
  cases htag : Lexeme.closing? o.delimiters.blockEnd.toList (c :: s) with
  | some found =>
      obtain ⟨l', -, hread⟩ := h.blockEnd ho hkeeps hc htag
      obtain ⟨rfl, -⟩ := (hread u us).1 hu
      exact ⟨⟨found.1, found.2, (Lexeme.closing?_eq htag).1, rfl⟩, fun h => by cases h⟩
  | none =>
      refine ⟨?_, fun _ => Lexeme.closing?_eq_none.1 htag⟩
      cases houtput : Lexeme.closing? o.delimiters.variableEnd.toList (c :: s) with
      | some found =>
          obtain ⟨l', -, hread⟩ := h.variableEnd ho hc htag houtput
          obtain ⟨rfl, -⟩ := (hread u us).1 hu
          exact ⟨found.1, found.2, (Lexeme.closing?_eq houtput).1, rfl⟩
      | none =>
          have hinner := h.inner ho (fun _ => ⟨htag, houtput⟩) hblank hu
          exact absurd (hkind.symm.trans hinner) (by decide)

end At

section Stop

variable {l : Lexer} {o : Options} {kind : TokenKind} {stop : String}

/-- The end of a tag or of an output that was read as it stands has no blank and no string at its start. -/
theorem plain_of_pieces?_stop (ho : o.IsProper) (hkeeps : o.trimBlocks = false)
    (hkind : kind.isInner = false) (h : l.At o true (stop.toList.dropWhile Lexeme.isBlank))
    (hpieces : l.pieces? = some [⟨kind, stop⟩]) :
    (∀ c ∈ stop.toList.head?, Lexeme.isPlain c = true) ∧
      (kind = .variableEnd → ¬Delimiters.EndsAt o.delimiters.blockEnd stop.toList) := by
  cases hleft : stop.toList.dropWhile Lexeme.isBlank with
  | nil =>
      rw [hleft] at h
      rw [h.pieces?_nil] at hpieces
      cases hpieces
  | cons c s =>
      have hblank : Lexeme.isBlank c = false := by
        have hnot := List.head?_dropWhile_not Lexeme.isBlank stop.toList
        rw [hleft] at hnot
        simpa using hnot
      rw [hleft] at h
      obtain ⟨hc, ⟨read, rest, hread, hvalue⟩, htag⟩ := h.outer ho hkeeps hblank hpieces hkind
      -- Nothing longer than what is left can be read, so no blank was passed over.
      have hstop : c :: s = stop.toList := by
        rw [← hleft]
        refine (List.dropWhile_suffix _).eq_of_length_le ?_
        have hwhole : stop.toList = read := (congrArg String.toList hvalue).trans String.toList_ofList
        rw [hleft, hread, hwhole]
        simp
      rw [← hstop]
      exact ⟨by simpa using hc, htag⟩

/-- The end of a tag or of an output is read as it stands, unless a blank or a string stands at its start,
or the end of a tag at the start of that of an output. -/
theorem pieces?_stop (ho : o.IsProper) (hkeeps : o.trimBlocks = false)
    (hkind : kind = .blockEnd ∧ stop = o.delimiters.blockEnd ∨
      kind = .variableEnd ∧ stop = o.delimiters.variableEnd)
    (h : l.At o true (stop.toList.dropWhile Lexeme.isBlank)) :
    l.pieces? = some [⟨kind, stop⟩] ↔ (∀ c ∈ stop.toList.head?, Lexeme.isPlain c = true) ∧
      (kind = .variableEnd → ¬Delimiters.EndsAt o.delimiters.blockEnd stop.toList) := by
  constructor
  · refine plain_of_pieces?_stop ho hkeeps ?_ h
    rcases hkind with ⟨rfl, -⟩ | ⟨rfl, -⟩ <;> rfl
  rintro ⟨hplain, htag⟩
  have hne : stop.toList ≠ [] := by
    rcases hkind with ⟨-, rfl⟩ | ⟨-, rfl⟩
    · exact ho.blockEnd
    · exact ho.variableEnd
  obtain ⟨c, s, hstop⟩ := List.exists_cons_of_ne_nil hne
  have hc : Lexeme.isPlain c = true := hplain c (by simp [hstop])
  have hblank : Lexeme.isBlank c = false := by
    simp only [Lexeme.isPlain, Bool.and_eq_true, Bool.not_eq_true'] at hc
    exact hc.1.1
  rw [hstop, List.dropWhile_cons_of_neg (by simp [hblank])] at h
  have hself := Lexeme.closing?_self stop.toList
  rcases hkind with ⟨rfl, rfl⟩ | ⟨rfl, rfl⟩
  · rw [hstop] at hself
    obtain ⟨l', hl', hread⟩ := h.blockEnd ho hkeeps hc (by rw [hstop]; exact hself)
    exact (hread _ _).2 ⟨by rw [← hstop, String.ofList_toList], hl'.pieces?_nil⟩
  · have hnone := Lexeme.closing?_eq_none.2 (htag rfl)
    rw [hstop] at hself hnone
    obtain ⟨l', hl', hread⟩ := h.variableEnd ho hc hnone (by rw [hstop]; exact hself)
    exact (hread _ _).2 ⟨by rw [← hstop, String.ofList_toList], hl'.pieces?_nil⟩

/-- A name between blanks and the end of its tag. -/
theorem pieces?_name (ho : o.IsProper) (hkeeps : o.trimBlocks = false)
    (hkind : kind = .blockEnd ∧ stop = o.delimiters.blockEnd ∨
      kind = .variableEnd ∧ stop = o.delimiters.variableEnd)
    (h : l.At o true (' ' :: 'x' :: ' ' :: stop.toList)) :
    l.pieces? = some [.word "x", ⟨kind, stop⟩] ↔ o.delimiters.ReadsName stop ∧
      (kind = .variableEnd → ¬Delimiters.EndsAt o.delimiters.blockEnd stop.toList) := by
  obtain ⟨l₁, h₁, hpieces₁⟩ := h.blank ho
  rw [List.dropWhile_cons_of_neg (by decide)] at h₁
  rw [hpieces₁]
  have hx : Lexeme.isPlain 'x' = true := by decide
  -- The tag may end at the name.
  by_cases htag : Delimiters.EndsAt o.delimiters.blockEnd ('x' :: ' ' :: stop.toList)
  · obtain ⟨found, hfound⟩ := Option.ne_none_iff_exists'.1 fun hnone =>
      (Lexeme.closing?_eq_none.1 hnone) htag
    obtain ⟨l₂, -, hpieces₂⟩ := h₁.blockEnd ho hkeeps hx hfound
    rw [hpieces₂]
    exact ⟨fun h => (by cases h.1), fun h => absurd htag h.1.tag⟩
  by_cases houtput : Delimiters.EndsAt o.delimiters.variableEnd ('x' :: ' ' :: stop.toList)
  · obtain ⟨found, hfound⟩ := Option.ne_none_iff_exists'.1 fun hnone =>
      (Lexeme.closing?_eq_none.1 hnone) houtput
    obtain ⟨l₂, -, hpieces₂⟩ := h₁.variableEnd ho hx (Lexeme.closing?_eq_none.2 htag) hfound
    rw [hpieces₂]
    exact ⟨fun h => (by cases h.1), fun h => absurd houtput h.1.output⟩
  obtain ⟨l₂, h₂, hpieces₂⟩ := h₁.name ho htag houtput
  obtain ⟨l₃, h₃, hpieces₃⟩ := h₂.blank ho
  rw [hpieces₂, hpieces₃, pieces?_stop ho hkeeps hkind h₃]
  exact ⟨fun h => ⟨⟨htag, houtput, h.2.1⟩, h.2.2⟩, fun h => ⟨rfl, h.1.plain, h.2⟩⟩

end Stop

variable {config : Config}

/-- An output of a name is read as one exactly under these delimiters. -/
theorem pieces?_output (hvalid : config.validate = .ok ()) (hkeeps : config.trimBlocks = false) :
    (ofString config (config.delimiters.variableStart ++ " x " ++ config.delimiters.variableEnd)).pieces? =
        some [⟨.variableStart, config.delimiters.variableStart⟩, .word "x",
          ⟨.variableEnd, config.delimiters.variableEnd⟩] ↔ config.delimiters.ReadsOutput := by
  have ho := optionsOf_isProper hvalid
  have h := At.ofString config (config.delimiters.variableStart ++ " x " ++ config.delimiters.variableEnd)
  have htext : (config.delimiters.variableStart ++ " x " ++ config.delimiters.variableEnd).toList =
      config.delimiters.variableStart.toList ++ ' ' :: 'x' :: ' ' :: config.delimiters.variableEnd.toList := by
    simp
  -- A tag may start where the output does.
  by_cases htag : config.delimiters.blockStart.toList <+:
      (config.delimiters.variableStart ++ " x " ++ config.delimiters.variableEnd).toList
  · obtain ⟨found, hfound⟩ := Option.ne_none_iff_exists'.1 fun hnone =>
      (Lexeme.opening?_eq_none.1 hnone) htag
    obtain ⟨l₁, -, hpieces₁⟩ := h.blockStart ho hfound
    rw [hpieces₁]
    exact ⟨fun h => (by cases h.1), fun h => absurd htag h.start⟩
  have hopen := Lexeme.opening?_blank config.delimiters.variableStart.toList
    ('x' :: ' ' :: config.delimiters.variableEnd.toList)
  obtain ⟨l₁, h₁, hpieces₁⟩ := h.variableStart ho htag (by rw [htext]; exact hopen)
  have hname := pieces?_name ho hkeeps (.inr ⟨rfl, rfl⟩) h₁
  rw [hpieces₁, String.ofList_toList]
  exact ⟨fun h => ⟨htag, (hname.1 h.2).1, (hname.1 h.2).2 rfl⟩,
    fun h => ⟨rfl, hname.2 ⟨h.name, fun _ => h.stop⟩⟩⟩

/-- A tag with a name is read as one exactly under these delimiters. -/
theorem pieces?_tag (hvalid : config.validate = .ok ()) (hkeeps : config.trimBlocks = false) :
    (ofString config (config.delimiters.blockStart ++ " x " ++ config.delimiters.blockEnd)).pieces? =
        some [⟨.blockStart, config.delimiters.blockStart⟩, .word "x",
          ⟨.blockEnd, config.delimiters.blockEnd⟩] ↔ config.delimiters.ReadsTag := by
  have ho := optionsOf_isProper hvalid
  have h := At.ofString config (config.delimiters.blockStart ++ " x " ++ config.delimiters.blockEnd)
  have htext : (config.delimiters.blockStart ++ " x " ++ config.delimiters.blockEnd).toList =
      config.delimiters.blockStart.toList ++ ' ' :: 'x' :: ' ' :: config.delimiters.blockEnd.toList := by
    simp
  have hopen := Lexeme.opening?_blank config.delimiters.blockStart.toList
    ('x' :: ' ' :: config.delimiters.blockEnd.toList)
  obtain ⟨l₁, h₁, hpieces₁⟩ := h.blockStart ho (by rw [htext]; exact hopen)
  have hname := pieces?_name ho hkeeps (.inl ⟨rfl, rfl⟩) h₁
  rw [hpieces₁, String.ofList_toList]
  exact ⟨fun h => (hname.1 h.2).1, fun h => ⟨rfl, hname.2 ⟨h, fun h => (by cases h)⟩⟩⟩

/-- A comment without a text is read as one exactly under these delimiters. -/
theorem pieces?_comment (hvalid : config.validate = .ok ()) :
    (ofString config (config.delimiters.commentStart ++ config.delimiters.commentEnd)).pieces? =
        some [⟨.comment, config.delimiters.commentStart ++ config.delimiters.commentEnd⟩] ↔
      config.delimiters.ReadsComment := by
  have ho := optionsOf_isProper hvalid
  have h := At.ofString config (config.delimiters.commentStart ++ config.delimiters.commentEnd)
  refine ⟨fun hpieces => ?_, fun hd => ?_⟩
  · by_cases htag : config.delimiters.blockStart.toList <+:
        (config.delimiters.commentStart ++ config.delimiters.commentEnd).toList
    · obtain ⟨found, hfound⟩ := Option.ne_none_iff_exists'.1 fun hnone =>
        (Lexeme.opening?_eq_none.1 hnone) htag
      obtain ⟨l₁, -, hpieces₁⟩ := h.blockStart ho hfound
      cases ((hpieces₁ _ _).1 hpieces).1
    refine ⟨htag, fun houtput => ?_⟩
    obtain ⟨found, hfound⟩ := Option.ne_none_iff_exists'.1 fun hnone =>
      (Lexeme.opening?_eq_none.1 hnone) houtput
    obtain ⟨l₁, -, hpieces₁⟩ := h.variableStart ho htag hfound
    cases ((hpieces₁ _ _).1 hpieces).1
  · rw [String.toList_append] at h
    exact h.comment ho hd

end Lexer

/-! ### What an accepted configuration promises -/

namespace Config

/-- What a template shows of its texts is what is written: its portions cover it, and a text between tags
loses the white space at one of its ends only if the tag or comment next to it has a marker there. -/
def ShowsAsWritten (config : Config) (source : String) : Prop :=
  ∀ root, Node.ofSource config [] source = .ok root → ∃ ps spans blanks l,
    (Lexer.ofString config source).Reads ps l ∧ l.rest = [] ∧ Portion.Placed ps ∧
      List.Forall₂ (Portion.Spans config.delimiters) ps spans ∧
      (∀ c ∈ blanks, Lexeme.isBlank c = true) ∧ source.toList = spans.flatten ++ blanks ∧
      root.texts = config.delimiters.written.shown false none ps

/-- A template shows what is written where no delimiter can be taken for a marker. -/
theorem showsAsWritten {config : Config} {source : String} (hvalid : config.validate = .ok ())
    (htrim : config.trimBlocks = false) (hstrip : config.lstripBlocks = false)
    (hd : config.delimiters.Undashed) (hclear : config.delimiters.CommentsClear source.toList) :
    config.ShowsAsWritten source := by
  intro root h
  have ho := Lexer.optionsOf_isProper hvalid
  obtain ⟨ps, l, hreads, hend, hplaced, htexts⟩ := Node.ofSource_texts ho h
  have hkeeps : (Lexer.ofString config source).Keeps [] := ⟨ho, htrim, hstrip, rfl⟩
  obtain ⟨spans, blanks, hspans, hblanks, hsource⟩ := hreads.covers hkeeps
  rw [hend, List.append_nil] at hsource
  refine ⟨ps, spans, blanks, l, hreads, hend, hplaced, hspans, hblanks, hsource, ?_⟩
  rw [htexts]
  refine hreads.shown_written ho hd false fun t ht hkind hempty => hclear (hempty.trans ?_)
  have hvalue := Portion.value_infix hspans ht (by simp [hkind])
  have htext : source.toList = spans.flatten ++ blanks := hsource
  exact htext ▸ hvalue.trans (List.prefix_append ..).isInfix

/-- **What an accepted configuration promises.**

If the configuration drops no newlines and no indents, then an output of a name, a tag with a name and a
comment without a text are read as such exactly if the delimiters do not stand in each other's way.  And
where no delimiter can be taken for a marker, a template shows its texts as they are written: a tag, output
or comment without a marker leaves the texts next to it alone. -/
theorem accepted_delimiters {config : Config} (hvalid : config.validate = .ok ())
    (htrim : config.trimBlocks = false) (hstrip : config.lstripBlocks = false) :
    ((Lexer.ofString config
        (config.delimiters.variableStart ++ " x " ++ config.delimiters.variableEnd)).pieces? =
      some [⟨.variableStart, config.delimiters.variableStart⟩, .word "x",
        ⟨.variableEnd, config.delimiters.variableEnd⟩] ↔ config.delimiters.ReadsOutput) ∧
    ((Lexer.ofString config
        (config.delimiters.blockStart ++ " x " ++ config.delimiters.blockEnd)).pieces? =
      some [⟨.blockStart, config.delimiters.blockStart⟩, .word "x",
        ⟨.blockEnd, config.delimiters.blockEnd⟩] ↔ config.delimiters.ReadsTag) ∧
    ((Lexer.ofString config (config.delimiters.commentStart ++ config.delimiters.commentEnd)).pieces? =
      some [⟨.comment, config.delimiters.commentStart ++ config.delimiters.commentEnd⟩] ↔
        config.delimiters.ReadsComment) ∧
    (config.delimiters.Undashed → ∀ source, config.delimiters.CommentsClear source.toList →
      config.ShowsAsWritten source) :=
  ⟨Lexer.pieces?_output hvalid htrim, Lexer.pieces?_tag hvalid htrim, Lexer.pieces?_comment hvalid,
    fun hd _ hclear => showsAsWritten hvalid htrim hstrip hd hclear⟩

/-- A configuration with the comments of web pages, which have dashes in their delimiters. -/
def angled : Config :=
  { Config.standard with delimiters := ⟨"<%", "%>", "<$", "$>", "<!--", "-->"⟩ }

/-- A template with tags with and without markers, and a comment. -/
def angledPage : String := "a <%- set x = 1 -%> b <!-- c --> d <$ x -$> e"

/-- Under these delimiters everything is read as such, and only markers drop white space. -/
theorem accepted_delimiters_angled : angled.validate = .ok () ∧
    (Lexer.ofString angled "<$ x $>").pieces? =
      some [⟨.variableStart, "<$"⟩, .word "x", ⟨.variableEnd, "$>"⟩] ∧
    (Lexer.ofString angled "<% x %>").pieces? =
      some [⟨.blockStart, "<%"⟩, .word "x", ⟨.blockEnd, "%>"⟩] ∧
    (Lexer.ofString angled "<!---->").pieces? = some [⟨.comment, "<!---->"⟩] ∧
    angled.ShowsAsWritten angledPage ∧
    (Node.ofSource angled [] angledPage).toOption.map Node.texts = some ["a", "b ", " d ", "e"] := by
  have hvalid : angled.validate = .ok () := by decide
  obtain ⟨houtput, htag, hcomment, hshows⟩ := accepted_delimiters hvalid rfl rfl
  refine ⟨hvalid, houtput.2 ?_, htag.2 ?_, hcomment.2 ?_, hshows ?_ _ ?_, by decide +kernel⟩
  · refine ⟨by decide, ⟨by decide, by decide, ?_⟩, by decide⟩
    rintro c ⟨⟩
    rfl
  · refine ⟨by decide, by decide, ?_⟩
    rintro c ⟨⟩
    rfl
  · exact ⟨by decide, by decide⟩
  · exact ⟨by decide, by decide, by decide, by decide⟩
  · exact fun hempty => absurd hempty (by decide +kernel)

/-- A configuration in which the start of a tag begins the start of an output. -/
def prefixed : Config :=
  { Config.standard with delimiters := ⟨"<%", "%>", "<%=", "%>", "\x7b#", "#\x7d"⟩ }

/-- The configuration is accepted, and an output is read as a tag that starts with an operator. -/
theorem prefixed_output : prefixed.validate = .ok () ∧
    prefixed.trimBlocks = false ∧ prefixed.lstripBlocks = false ∧
    (Lexer.ofString prefixed "<%= x %>").pieces? =
      some [⟨.blockStart, "<%"⟩, ⟨.operator, "="⟩, .word "x", ⟨.blockEnd, "%>"⟩] ∧
    (Lexer.ofString prefixed "<%= x %>").pieces? ≠
      some [⟨.variableStart, "<%="⟩, .word "x", ⟨.variableEnd, "%>"⟩] := by
  decide +kernel

end Config

end Stencil
