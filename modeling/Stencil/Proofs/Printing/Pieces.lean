/-
**Templates in pieces.**

A template can be written as a list of pieces: tokens that do not say where they stand.  Inside of a
tag a space stands before each of them.  This module says which lists of pieces can be written so,
and proves that the lexer cuts the text into the pieces that it was written from.

Main definitions:

* `Stencil.Piece` — a token without its place;
* `Stencil.Piece.written` — a piece as it stands in a template;
* `Stencil.Piece.Inner` — a piece that can stand inside of a tag;
* `Stencil.Piece.Lexes` — a list of pieces that alternates between tags and texts;
* `Stencil.Lexer.Yields` — a lexer has a list of pieces before it.

Main results:

* `Stencil.Lexeme.string?_quoted` — a string is read as it was quoted;
* `Stencil.Lexer.yields_written` — a lexer has before it the pieces that its text was written from.
-/

import Mathlib.Data.List.Find
import Stencil.Parser

set_option autoImplicit false

namespace Stencil

/-! ### Pieces -/

/-- A token without its place. -/
structure Piece where
  kind : TokenKind
  value : String
  deriving DecidableEq, Repr

/-- A token without its place. -/
def Token.piece (t : Token) : Piece := ⟨t.kind, t.value⟩

namespace Piece

/-- A bracket or an operator. -/
def mark (s : String) : Piece := ⟨Lexeme.punctuationKind s.toList, s⟩

/-- A word that is a symbol. -/
def word (s : String) : Piece := ⟨.symbol, s⟩

/-- The brackets and operators. -/
def marks : List String :=
  ["(", ")", "[", "]", "\x7b", "\x7d", ",", ":", "~", "|", ".", "=", "+", "-", "*", "/", "//", "%",
    "**", "==", "===", "!=", "!==", "<", ">", "<=", ">="]

/-- A character of a quoted string, with a backslash if it needs one. -/
def quotedChar (c : Char) : List Char :=
  if c = '\x22' ∨ c = '\\' then ['\\', c]
  else if c = '\n' then ['\\', 'n']
  else if c = '\t' then ['\\', 't']
  else if c = '\r' then ['\\', 'r']
  else [c]

/-- A string between its quotes. -/
def quoted (s : List Char) : List Char := s.flatMap quotedChar

/-- A piece as it stands in a template. -/
def written (t : Piece) : List Char :=
  match t.kind with
  | .data | .blockStart | .variableStart => t.value.toList
  | .string => ' ' :: '\x22' :: (quoted t.value.toList ++ ['\x22'])
  | _ => ' ' :: t.value.toList

/-- The text of a list of pieces. -/
def writtenAll (ts : List Piece) : List Char := ts.flatMap written

@[simp] theorem writtenAll_nil : writtenAll [] = [] := rfl

@[simp] theorem writtenAll_cons (t : Piece) (ts : List Piece) :
    writtenAll (t :: ts) = t.written ++ writtenAll ts := rfl

/-- A piece that can stand inside of a tag. -/
inductive Inner : Piece → Prop
  | string (s : String) : Inner ⟨.string, s⟩
  | number (n : Nat) : Inner ⟨.int, n.repr⟩
  | word {kind : TokenKind} {s : String} (h : Lexeme.wordKind? s.toList = some kind) :
      Inner ⟨kind, s⟩
  | mark {s : String} (h : s ∈ marks) : Inner (mark s)

/-- A list of pieces that alternates between tags and texts, from inside of a tag or from outside. -/
def Lexes : Bool → List Piece → Prop
  | false, [] => True
  | true, [] => False
  | false, t :: ts =>
    match t.kind with
    | .data =>
      t.value ≠ "" ∧ '\x7b' ∉ t.value.toList ∧ (∀ u ∈ ts.head?, u.kind ≠ .data) ∧ Lexes false ts
    | .blockStart => t.value = "\x7b%" ∧ Lexes true ts
    | .variableStart => t.value = "\x7b\x7b" ∧ Lexes true ts
    | _ => False
  | true, t :: ts =>
    (t = ⟨.blockEnd, "%\x7d"⟩ ∧ Lexes false ts) ∨ (t = ⟨.variableEnd, "\x7d\x7d"⟩ ∧ Lexes false ts) ∨
      (t.Inner ∧ Lexes true ts)

end Piece

/-! ### Characters -/

namespace Lexeme

/-- Whether a character stands inside of a word. -/
def inWord (c : Char) : Bool := !(isBlank c || isPunctuation c)

/-- The characters that end a word. -/
def stops : List Char := [' ', '\n', '\t', '\r', '\u00a0'] ++ punctuation

/-- The characters that end a word or start a string. -/
theorem not_continuesName {c : Char} (h : c ∈ '\x22' :: '\x27' :: stops) :
    continuesName c = false := by
  have hall : (('\x22' :: '\x27' :: stops).all fun c => !continuesName c) = true := by
    decide
  simpa using List.all_eq_true.1 hall c h

theorem not_isDigit {c : Char} (h : c ∈ '\x22' :: '\x27' :: stops) : c.isDigit = false := by
  have hall : (('\x22' :: '\x27' :: stops).all fun c => !c.isDigit) = true := by decide
  simpa using List.all_eq_true.1 hall c h

/-- A character that is none of those that end a word stands inside of one. -/
theorem inWord_of_notMem {c : Char} (h : c ∉ stops) : inWord c = true := by
  simp only [stops, List.mem_append, not_or] at h
  simp only [inWord, isBlank, isPunctuation, Bool.not_eq_true', Bool.or_eq_false_iff,
    beq_eq_false_iff_ne, List.contains_eq_mem, decide_eq_false_iff_not]
  refine ⟨?_, h.2⟩
  simpa [and_assoc] using h.1

/-- The first character of a name is no digit. -/
theorem not_startsName_of_isDigit {c : Char} (h : c.isDigit = true) : startsName c = false := by
  have hall : ∀ n < 58, startsName (Char.ofNat n) = true → (Char.ofNat n).isDigit = false := by
    decide
  have hlt : c.toNat < 58 := by
    have hle : c.val ≤ 57 := (by simpa [Char.isDigit] using h : 48 ≤ c.val ∧ c.val ≤ 57).2
    exact Nat.lt_succ_of_le hle
  have hc := hall c.toNat hlt
  rw [Char.ofNat_toNat, h] at hc
  simpa using hc

/-- What a word that may be written consists of. -/
theorem continuesName_of_wordKind? {w : List Char} {kind : TokenKind}
    (h : wordKind? w = some kind) :
    w ≠ [] ∧ (∀ c ∈ w, continuesName c = true) ∧ w.all Char.isDigit = false ∧
      (kind = .boolean ∨ kind = .nothing ∨ kind = .symbol) := by
  have hword : ∀ w ∈ ["true", "false", "none", "null"], w.toList ≠ [] ∧
      w.toList.all continuesName = true ∧ w.toList.all Char.isDigit = false := by decide
  unfold wordKind? at h
  split at h
  · next hw =>
      cases h
      rcases hw with rfl | rfl
      · obtain ⟨h₁, h₂, h₃⟩ := hword "true" (by decide)
        exact ⟨h₁, List.all_eq_true.1 h₂, h₃, .inl rfl⟩
      · obtain ⟨h₁, h₂, h₃⟩ := hword "false" (by decide)
        exact ⟨h₁, List.all_eq_true.1 h₂, h₃, .inl rfl⟩
  · split at h
    · next hw =>
        cases h
        rcases hw with rfl | rfl
        · obtain ⟨h₁, h₂, h₃⟩ := hword "none" (by decide)
          exact ⟨h₁, List.all_eq_true.1 h₂, h₃, .inr (.inl rfl)⟩
        · obtain ⟨h₁, h₂, h₃⟩ := hword "null" (by decide)
          exact ⟨h₁, List.all_eq_true.1 h₂, h₃, .inr (.inl rfl)⟩
    · split at h
      · next hname =>
          cases h
          cases w with
          | nil => cases hname
          | cons c w =>
              obtain ⟨hstart, hcontinues⟩ := Bool.and_eq_true_iff.1 hname
              refine ⟨List.cons_ne_nil c w, ?_, ?_, .inr (.inr rfl)⟩
              · intro d hd
                rcases List.mem_cons.1 hd with rfl | hd
                · simp only [startsName, Bool.or_eq_true] at hstart
                  simp only [continuesName, Character.isAlphanumeric, Bool.or_eq_true]
                  rcases hstart with (h | h) | h
                  · exact .inl (.inl (.inl h))
                  · exact .inl (.inr h)
                  · exact .inr h
                · exact List.all_eq_true.1 hcontinues d hd
              · cases hdigit : c.isDigit with
                | true => rw [not_startsName_of_isDigit hdigit] at hstart; cases hstart
                | false => simp [hdigit]
      · cases h

/-- A string is read as it was quoted. -/
theorem string?_quoted (s rest : List Char) :
    string? '\x22' (Piece.quoted s ++ '\x22' :: rest) =
      some (s, Piece.quoted s ++ ['\x22'], rest) := by
  induction s with
  | nil => rfl
  | cons c s ih =>
      rw [Piece.quoted, List.flatMap_cons, ← Piece.quoted, Piece.quotedChar]
      split
      · next h =>
          have hsame : unescape c = c := by rcases h with rfl | rfl <;> rfl
          simp [string?, ih, hsame]
      · next hquote =>
          obtain ⟨hquote, hbackslash⟩ := not_or.1 hquote
          have hplain : ∀ d, unescape d = c →
              string? '\x22' ('\\' :: d :: (Piece.quoted s ++ '\x22' :: rest)) =
                some (c :: s, '\\' :: d :: (Piece.quoted s ++ ['\x22']), rest) := by
            rintro d rfl
            simp [string?, ih]
          split
          · next h => exact hplain 'n' h.symm
          · split
            · next h => exact hplain 't' h.symm
            · split
              · next h => exact hplain 'r' h.symm
              · simp [string?, ih, hquote, hbackslash]

end Lexeme

/-! ### Inside of tags -/

namespace Lexer

open Piece Lexeme

variable {o : Options} {p : Position} {c : Char} {s tail : List Char}

/-- A space before a token is passed over. -/
theorem nextVisible_spaced {token : Token} {l : Lexer} (hblank : isBlank c = false)
    (h : tagToken ⟨o, c :: s, p.advance [' '], true⟩ c s = (.ok token, l)) :
    nextVisible ⟨o, ' ' :: c :: s, p, true⟩ = (.ok (some token), l) := by
  have hspace : isBlank ' ' = true := rfl
  have hnext : next ⟨o, c :: s, p.advance [' '], true⟩ = (.ok (some token), l) := by
    simp [next, h, Except.map]
  simpa [nextVisible, next, tagToken, Lexer.token, moved, hblank, hspace, Except.map] using hnext

/-- What starts neither a string, a blank, an end nor a pattern is a word or an operator. -/
theorem tagToken_plain (hdouble : c ≠ '\x22') (hsingle : c ≠ '\x27') (hblank : isBlank c = false)
    (hblockEnd : closing? o.delimiters.blockEnd.toList (c :: s) = none)
    (hvariableEnd : closing? o.delimiters.variableEnd.toList (c :: s) = none)
    (hpattern : c = 'r' → s.head? ≠ some '/') :
    tagToken ⟨o, c :: s, p, true⟩ c s =
      if isPunctuation c then punctuationToken ⟨o, c :: s, p, true⟩
      else wordToken ⟨o, c :: s, p, true⟩ := by
  unfold tagToken
  rw [if_neg (by simp [hdouble, hsingle]), if_neg (by simp [hblank])]
  dsimp only
  rw [hblockEnd]
  dsimp only
  rw [hvariableEnd]
  dsimp only
  split
  · exact absurd rfl (hpattern rfl)
  · rfl

/-- What starts like a word is read as a word. -/
theorem tagToken_word (ho : o.delimiters = .standard) (hc : c ∉ '\x22' :: '\x27' :: stops)
    (hs : s.head? ≠ some '/') :
    tagToken ⟨o, c :: s, p, true⟩ c s = wordToken ⟨o, c :: s, p, true⟩ := by
  simp only [List.mem_cons, not_or] at hc
  obtain ⟨hdouble, hsingle, hstops⟩ := hc
  have hword := inWord_of_notMem hstops
  simp only [inWord, Bool.not_eq_true', Bool.or_eq_false_iff] at hword
  obtain ⟨hblank, hpunctuation⟩ := hword
  have hne : ∀ d ∈ punctuation, c ≠ d := by
    rintro d hd rfl
    simp [isPunctuation, hd] at hpunctuation
  have hpercent : c ≠ '%' := hne _ (by decide)
  have hcurly : c ≠ '\x7d' := hne _ (by decide)
  have hdash : c ≠ '-' := hne _ (by decide)
  rw [tagToken_plain hdouble hsingle hblank, if_neg (by simp [hpunctuation])]
  · simp [ho, Delimiters.standard, closing?, Text.after?, hpercent.symm, hdash]
  · simp [ho, Delimiters.standard, closing?, Text.after?, hcurly.symm, hdash]
  · exact fun _ => hs

/-- A word is read up to a space. -/
theorem wordToken_spaced {w : List Char} {kind : TokenKind} (hin : ∀ c ∈ w, inWord c = true)
    (hkind : if w.all Char.isDigit then kind = .int else wordKind? w = some kind) :
    wordToken ⟨o, w ++ ' ' :: tail, p, true⟩ =
      (.ok ⟨kind, String.ofList w, p⟩, ⟨o, ' ' :: tail, p.advance w, true⟩) := by
  have htake : (w ++ ' ' :: tail).takeWhile inWord = w := by
    rw [List.takeWhile_append_of_pos hin]
    simp [inWord, isBlank]
  have hdrop : (w ++ ' ' :: tail).dropWhile inWord = ' ' :: tail := by
    rw [List.dropWhile_append_of_pos hin]
    simp [inWord, isBlank]
  unfold wordToken
  dsimp only
  simp only [← inWord.eq_1]
  rw [htake, hdrop]
  split at hkind
  · next hdigits =>
      rw [if_pos hdigits, hkind]
      rfl
  · next hdigits =>
      rw [if_neg hdigits, hkind]
      rfl

/-- A number or a word between spaces is read as it is written. -/
theorem nextVisible_word (ho : o.delimiters = .standard) {w : List Char} {kind : TokenKind} (hne : w ≠ [])
    (hin : ∀ c ∈ w, c ∉ '\x22' :: '\x27' :: stops)
    (hkind : if w.all Char.isDigit then kind = .int else wordKind? w = some kind) :
    nextVisible ⟨o, ' ' :: w ++ ' ' :: tail, p, true⟩ =
      (.ok (some ⟨kind, String.ofList w, p.advance [' ']⟩),
        ⟨o, ' ' :: tail, (p.advance [' ']).advance w, true⟩) := by
  obtain ⟨c, s, rfl⟩ := List.exists_cons_of_ne_nil hne
  have hinWord : ∀ d ∈ c :: s, inWord d = true := fun d hd =>
    inWord_of_notMem fun h => hin d hd (List.mem_cons_of_mem _ (List.mem_cons_of_mem _ h))
  have hblank : isBlank c = false := by
    have h := hinWord c List.mem_cons_self
    simp only [inWord, Bool.not_eq_true', Bool.or_eq_false_iff] at h
    exact h.1
  have hslash : (s ++ ' ' :: tail).head? ≠ some '/' := by
    cases s with
    | nil => simp
    | cons d s =>
        intro h
        obtain rfl : d = '/' := by simpa using h
        exact hin '/' (by simp) (by decide)
  rw [List.cons_append, List.cons_append]
  refine nextVisible_spaced hblank ?_
  rw [tagToken_word ho (hin c List.mem_cons_self) hslash]
  exact wordToken_spaced hinWord hkind

/-- What the lexer does with a piece inside of a tag. -/
def Takes (t : Piece) : Prop :=
  ∀ (p : Position) (tail : List Char), ∃ (token : Token) (q : Position),
    nextVisible ⟨.standard, t.written ++ ' ' :: tail, p, true⟩ =
      (.ok (some token), ⟨.standard, ' ' :: tail, q, true⟩) ∧ token.piece = t

/-- A number or a word is taken as it is written. -/
theorem takes_word {w : List Char} {kind : TokenKind} (hne : w ≠ [])
    (hin : ∀ c ∈ w, c ∉ '\x22' :: '\x27' :: stops)
    (hkind : if w.all Char.isDigit then kind = .int else wordKind? w = some kind)
    (hwritten : (⟨kind, String.ofList w⟩ : Piece).written = ' ' :: w) :
    Takes ⟨kind, String.ofList w⟩ := by
  intro p tail
  refine ⟨⟨kind, String.ofList w, p.advance [' ']⟩, (p.advance [' ']).advance w, ?_, rfl⟩
  rw [hwritten]
  exact nextVisible_word rfl hne hin hkind

/-- A string is taken as it was quoted. -/
theorem takes_string (s : String) : Takes ⟨.string, s⟩ := by
  intro p tail
  refine ⟨⟨.string, String.ofList s.toList, p.advance [' ']⟩,
    (p.advance [' ']).advance ('\x22' :: (quoted s.toList ++ ['\x22'])), ?_, by simp [Token.piece]⟩
  have hwritten : (⟨.string, s⟩ : Piece).written ++ ' ' :: tail =
      ' ' :: '\x22' :: (quoted s.toList ++ '\x22' :: ' ' :: tail) := by simp [written]
  rw [hwritten]
  refine nextVisible_spaced rfl ?_
  unfold tagToken
  rw [if_pos (.inl rfl), stringToken, string?_quoted]
  rfl

/-- What is looked for at the start of a text is found before a space or not at all. -/
theorem after?_spaced {word w : List Char} (h : ' ' ∉ word) :
    Text.after? word (w ++ ' ' :: tail) = (Text.after? word w).map (· ++ ' ' :: tail) := by
  induction word generalizing w with
  | nil => rfl
  | cons c word ih =>
      obtain ⟨hc, hword⟩ : ' ' ≠ c ∧ ' ' ∉ word := by simpa using h
      cases w with
      | nil => simp [Text.after?, hc.symm]
      | cons d w =>
          by_cases hcd : c = d
          · simp [Text.after?, hcd, ih hword]
          · simp [Text.after?, hcd]

theorem startsWith_spaced {word w : List Char} (h : ' ' ∉ word) :
    Text.startsWith word (w ++ ' ' :: tail) = Text.startsWith word w := by
  simp [Text.startsWith, after?_spaced h]

theorem closing?_eq_none_iff {d w : List Char} :
    closing? d w = none ↔
      Text.after? d w = none ∧ ∀ s, w = '-' :: s → Text.after? d s = none := by
  unfold closing?
  split
  · next h => simp [h]
  · next s h => simp [h]
  · next hne h => exact ⟨fun _ => ⟨h, fun s hs => absurd hs (hne s)⟩, fun _ => rfl⟩

theorem closing?_spaced {d : List Char} (hd : ' ' ∉ d) (h : closing? d (c :: s) = none) :
    closing? d (c :: (s ++ ' ' :: tail)) = none := by
  obtain ⟨hhere, hdashed⟩ := closing?_eq_none_iff.1 h
  refine closing?_eq_none_iff.2 ⟨?_, fun s' hs' => ?_⟩
  · rw [← List.cons_append, after?_spaced hd, hhere]
    rfl
  · obtain ⟨rfl, rfl⟩ := List.cons.inj hs'
    rw [after?_spaced hd, hdashed s rfl]
    rfl

/-- An operator or a bracket can be told from what else may start a piece. -/
theorem marks_apart : ∀ m ∈ marks, ∃ c s, m.toList = c :: s ∧ c ∈ punctuation ∧
    closing? Options.standard.delimiters.blockEnd.toList (c :: s) = none ∧
    closing? Options.standard.delimiters.variableEnd.toList (c :: s) = none ∧
    (longOperators.find? fun op => Text.startsWith op (c :: s)).getD [c] = c :: s := by
  have hall : ∀ m ∈ marks, m.toList ≠ [] ∧ m.toList.head?.all punctuation.contains = true ∧
      closing? Options.standard.delimiters.blockEnd.toList m.toList = none ∧
      closing? Options.standard.delimiters.variableEnd.toList m.toList = none ∧
      (longOperators.find? fun op => Text.startsWith op m.toList).getD (m.toList.take 1) =
        m.toList := by decide
  intro m hm
  obtain ⟨hne, h⟩ := hall m hm
  obtain ⟨c, s, hcs⟩ := List.exists_cons_of_ne_nil hne
  rw [hcs] at h
  exact ⟨c, s, hcs, by simpa using h.1, h.2⟩

/-- An operator or a bracket stands as it is. -/
theorem written_mark {m : String} (h : m ∈ marks) : (mark m).written = ' ' :: m.toList := by
  have hkind : ∀ m ∈ marks, (mark m).kind ≠ .data ∧ (mark m).kind ≠ .blockStart ∧
      (mark m).kind ≠ .variableStart ∧ (mark m).kind ≠ .string := by decide
  obtain ⟨h₁, h₂, h₃, h₄⟩ := hkind m h
  unfold written
  split <;> first | contradiction | rfl

/-- An operator or a bracket is taken as it is written. -/
theorem takes_mark {m : String} (h : m ∈ marks) : Takes (mark m) := by
  obtain ⟨c, s, hcs, hc, hblockEnd, hvariableEnd, hfind⟩ := marks_apart m h
  have happart : (punctuation.all fun c =>
      c != '\x22' && c != '\x27' && c != 'r' && !isBlank c) = true := by decide
  have hspaceless : ∀ op ∈ longOperators, ' ' ∉ op := by decide
  obtain ⟨⟨⟨hdouble, hsingle⟩, hr⟩, hblank⟩ :
      ((c ≠ '\x22' ∧ c ≠ '\x27') ∧ c ≠ 'r') ∧ isBlank c = false := by
    simpa using List.all_eq_true.1 happart c hc
  intro p tail
  refine ⟨⟨punctuationKind (c :: s), String.ofList (c :: s), p.advance [' ']⟩,
    (p.advance [' ']).advance (c :: s), ?_, ?_⟩
  · rw [written_mark h, hcs, List.cons_append, List.cons_append]
    refine nextVisible_spaced hblank ?_
    rw [tagToken_plain hdouble hsingle hblank (closing?_spaced (by decide) hblockEnd)
      (closing?_spaced (by decide) hvariableEnd) (fun h => absurd h hr),
      if_pos (by simpa [isPunctuation] using hc)]
    have hspaced : (longOperators.find? fun op => Text.startsWith op (c :: (s ++ ' ' :: tail))) =
        longOperators.find? fun op => Text.startsWith op (c :: s) :=
      List.find?_congr fun op hop => startsWith_spaced (w := c :: s) (hspaceless op hop)
    have hread : (longOperators.find? fun op => Text.startsWith op (c :: (s ++ ' ' :: tail))).getD
        ((c :: (s ++ ' ' :: tail)).take 1) = c :: s := by
      rw [hspaced]
      exact hfind
    unfold punctuationToken
    dsimp only
    rw [hread]
    simp [Lexer.token, moved]
  · simp [Token.piece, mark, ← hcs]

/-- What can stand inside of a tag is taken as it is written. -/
theorem takes_inner {t : Piece} (h : t.Inner) : Takes t := by
  cases h with
  | string s => exact takes_string s
  | number n =>
      have hdigit : ∀ c ∈ Nat.toDigits 10 n, c.isDigit = true := fun c hc =>
        Nat.isDigit_of_mem_toDigits (by decide) (by decide) hc
      refine takes_word Nat.toDigits_ne_nil (fun c hc hstop => ?_) ?_ ?_
      · have hc := hdigit c hc
        rw [not_isDigit hstop] at hc
        cases hc
      · rw [if_pos (by simpa using hdigit)]
      · simp [written]
  | word h =>
      rename_i kind s
      obtain ⟨hne, hcontinues, hdigits, hkind⟩ := continuesName_of_wordKind? h
      have htakes : Takes ⟨kind, String.ofList s.toList⟩ := by
        refine takes_word hne (fun c hc hstop => ?_) ?_ ?_
        · have hc := hcontinues c hc
          rw [not_continuesName hstop] at hc
          cases hc
        · rwa [if_neg (by simp [hdigits])]
        · rcases hkind with rfl | rfl | rfl <;> simp [written]
      rwa [String.ofList_toList] at htakes
  | mark h => exact takes_mark h

/-! ### Outside of tags -/

/-- The end of a tag is taken. -/
theorem nextVisible_blockEnd (p : Position) (tail : List Char) : ∃ q q',
    nextVisible ⟨.standard, ' ' :: '%' :: '\x7d' :: tail, p, true⟩ =
      (.ok (some ⟨.blockEnd, "%\x7d", q⟩), ⟨.standard, tail, q', false⟩) := by
  refine ⟨p.advance [' '], (p.advance [' ']).advance ['%', '\x7d'], ?_⟩
  refine nextVisible_spaced rfl ?_
  simp [tagToken, closing?, Text.after?, isBlank, Options.standard, Delimiters.standard, Lexer.token,
    moved, dropNewline]

/-- The end of an output is taken. -/
theorem nextVisible_variableEnd (p : Position) (tail : List Char) : ∃ q q',
    nextVisible ⟨.standard, ' ' :: '\x7d' :: '\x7d' :: tail, p, true⟩ =
      (.ok (some ⟨.variableEnd, "\x7d\x7d", q⟩), ⟨.standard, tail, q', false⟩) := by
  refine ⟨p.advance [' '], (p.advance [' ']).advance ['\x7d', '\x7d'], ?_⟩
  refine nextVisible_spaced rfl ?_
  simp [tagToken, closing?, Text.after?, isBlank, Options.standard, Delimiters.standard, Lexer.token,
    moved]

/-- The start of a tag is taken. -/
theorem nextVisible_blockStart (p : Position) (tail : List Char) : ∃ q q',
    nextVisible ⟨.standard, '\x7b' :: '%' :: ' ' :: tail, p, false⟩ =
      (.ok (some ⟨.blockStart, "\x7b%", q⟩), ⟨.standard, ' ' :: tail, q', true⟩) := by
  refine ⟨p, p.advance ['\x7b', '%'], ?_⟩
  simp [nextVisible, next, textToken, tagStart?, opening?, Text.after?, Options.standard,
    Delimiters.standard, Lexer.token, moved, Except.map]

/-- The start of an output is taken. -/
theorem nextVisible_variableStart (p : Position) (tail : List Char) : ∃ q q',
    nextVisible ⟨.standard, '\x7b' :: '\x7b' :: ' ' :: tail, p, false⟩ =
      (.ok (some ⟨.variableStart, "\x7b\x7b", q⟩), ⟨.standard, ' ' :: tail, q', true⟩) := by
  refine ⟨p, p.advance ['\x7b', '\x7b'], ?_⟩
  simp [nextVisible, next, textToken, tagStart?, opening?, Text.after?, Options.standard,
    Delimiters.standard, Lexer.token, moved, Except.map]

/-- What may follow a text: nothing, or the start of a tag or of an output. -/
def EndsText (s : List Char) : Prop :=
  s = [] ∨ ∃ c tail, s = '\x7b' :: c :: tail ∧ (c = '%' ∨ c = '\x7b')

/-- A text goes on up to the next tag. -/
theorem textBefore_text (hs : '\x7b' ∉ s) (htail : EndsText tail) :
    textBefore ["\x7b%".toList, "\x7b\x7b".toList, "\x7b#".toList] (s ++ tail) = (s, tail) := by
  induction s with
  | nil =>
      rcases htail with rfl | ⟨c, tail, rfl, rfl | rfl⟩
      · rfl
      · simp [textBefore, Text.startsWith, Text.after?]
      · simp [textBefore, Text.startsWith, Text.after?]
  | cons c s ih =>
      obtain ⟨hc, hs⟩ : '\x7b' ≠ c ∧ '\x7b' ∉ s := by simpa using hs
      have ih := ih hs
      simp only [String.reduceToList] at ih
      simp [textBefore, Text.startsWith, Text.after?, hc, ih]

/-- A text is taken as it is written. -/
theorem nextVisible_data (hne : s ≠ []) (hs : '\x7b' ∉ s) (htail : EndsText tail) :
    nextVisible ⟨.standard, s ++ tail, p, false⟩ =
      (.ok (some ⟨.data, String.ofList s, p⟩), ⟨.standard, tail, p.advance s, false⟩) := by
  obtain ⟨c, s, rfl⟩ := List.exists_cons_of_ne_nil hne
  have hc : '\x7b' ≠ c := fun h => hs (h ▸ List.mem_cons_self)
  have hstart : tagStart? ⟨.standard, c :: (s ++ tail), p, false⟩ = none := by
    simp [tagStart?, opening?, Text.after?, Options.standard, Delimiters.standard, hc]
  have hbefore := textBefore_text hs htail
  have htext : textToken ⟨.standard, c :: (s ++ tail), p, false⟩ =
      (.ok (some ⟨.data, String.ofList (c :: s), p⟩),
        ⟨.standard, tail, p.advance (c :: s), false⟩) := by
    unfold textToken
    rw [hstart]
    dsimp only
    rw [show textBefore [Options.standard.delimiters.blockStart.toList,
        Options.standard.delimiters.variableStart.toList,
        Options.standard.delimiters.commentStart.toList] (c :: (s ++ tail)) = (c :: s, tail) from
      hbefore]
    simp [visibleText, Options.standard, moved]
  simp [nextVisible, next, htext]

/-! ### Whole texts -/

/-- A lexer has a list of pieces before it: it gives tokens that are them, and then no more. -/
inductive Yields : Lexer → List Piece → Prop
  | nil {l : Lexer} (h : l.rest = []) : Yields l []
  | cons {l l' : Lexer} {token : Token} {ts : List Piece}
      (h : l.nextVisible = (.ok (some token), l')) (hlt : l'.rest.length < l.rest.length)
      (hts : Yields l' ts) : Yields l (token.piece :: ts)

/-- A space stands before what can stand inside of a tag. -/
theorem written_inner {t : Piece} (h : t.Inner) : ∃ tail, t.written = ' ' :: tail := by
  cases h with
  | string s => exact ⟨_, rfl⟩
  | number n => exact ⟨_, rfl⟩
  | word h => obtain ⟨_, _, _, rfl | rfl | rfl⟩ := continuesName_of_wordKind? h <;> exact ⟨_, rfl⟩
  | mark h => exact ⟨_, written_mark h⟩

/-- What is written inside of a tag starts with a space. -/
theorem written_eq_space_cons {ts : List Piece} (h : Lexes true ts) :
    ∃ tail, writtenAll ts = ' ' :: tail := by
  cases ts with
  | nil => exact h.elim
  | cons t ts =>
      rcases h with ⟨rfl, _⟩ | ⟨rfl, _⟩ | ⟨hinner, _⟩
      · exact ⟨_, rfl⟩
      · exact ⟨_, rfl⟩
      · obtain ⟨tail, htail⟩ := written_inner hinner
        exact ⟨_, by rw [writtenAll_cons, htail]; rfl⟩

/-- A text ends where a tag or an output starts. -/
theorem endsText_written {ts : List Piece} (h : Lexes false ts)
    (hdata : ∀ u ∈ ts.head?, u.kind ≠ .data) : EndsText (writtenAll ts) := by
  cases ts with
  | nil => exact .inl rfl
  | cons t ts =>
      obtain ⟨kind, value⟩ := t
      cases kind with
      | data => exact absurd rfl (hdata _ rfl)
      | blockStart =>
          obtain ⟨rfl, _⟩ := h
          exact .inr ⟨_, _, rfl, .inl rfl⟩
      | variableStart =>
          obtain ⟨rfl, _⟩ := h
          exact .inr ⟨_, _, rfl, .inr rfl⟩
      | _ => exact h.elim

/-- **A lexer has before it the pieces that its text was written from.** -/
theorem yields_written {ts : List Piece} {inTag : Bool} (h : Lexes inTag ts) (p : Position) :
    Yields ⟨.standard, writtenAll ts, p, inTag⟩ ts := by
  -- By induction on the pieces.  Inside of a tag a piece ends at the blank that the next one begins with;
  -- outside, text ends where a tag starts.
  induction ts generalizing inTag p with
  | nil =>
      cases inTag with
      | true => exact h.elim
      | false => exact .nil rfl
  | cons t ts ih =>
      have hlt (h : t.written ≠ []) : (writtenAll ts).length < (writtenAll (t :: ts)).length := by
        simp [List.length_pos_iff.2 h]
      cases inTag with
      | true =>
          rcases h with ⟨rfl, hts⟩ | ⟨rfl, hts⟩ | ⟨hinner, hts⟩
          · obtain ⟨q, q', hnext⟩ := nextVisible_blockEnd p (writtenAll ts)
            exact .cons hnext (hlt (List.cons_ne_nil _ _)) (ih hts q')
          · obtain ⟨q, q', hnext⟩ := nextVisible_variableEnd p (writtenAll ts)
            exact .cons hnext (hlt (List.cons_ne_nil _ _)) (ih hts q')
          · obtain ⟨tail, htail⟩ := written_eq_space_cons hts
            obtain ⟨_, hwritten⟩ := written_inner hinner
            obtain ⟨token, q, hnext, rfl⟩ := takes_inner hinner p tail
            rw [← htail] at hnext
            exact .cons hnext (hlt (by simp [hwritten])) (ih hts q)
      | false =>
          obtain ⟨kind, value⟩ := t
          cases kind with
          | data =>
              obtain ⟨hne, hcurly, hdata, hts⟩ := h
              have hne : value.toList ≠ [] := by simpa using hne
              have hnext := nextVisible_data (p := p) hne hcurly (endsText_written hts hdata)
              have hyields := Yields.cons hnext (hlt hne) (ih hts _)
              rwa [Token.piece, String.ofList_toList] at hyields
          | blockStart =>
              obtain ⟨rfl, hts⟩ := h
              obtain ⟨tail, htail⟩ := written_eq_space_cons hts
              obtain ⟨q, q', hnext⟩ := nextVisible_blockStart p tail
              rw [← htail] at hnext
              exact .cons hnext (hlt (List.cons_ne_nil _ _)) (ih hts q')
          | variableStart =>
              obtain ⟨rfl, hts⟩ := h
              obtain ⟨tail, htail⟩ := written_eq_space_cons hts
              obtain ⟨q, q', hnext⟩ := nextVisible_variableStart p tail
              rw [← htail] at hnext
              exact .cons hnext (hlt (List.cons_ne_nil _ _)) (ih hts q')
          | _ => exact h.elim

end Lexer

end Stencil
