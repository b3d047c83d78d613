/-
**Raw sections are verbatim.**

The end of a raw section is searched for in the text that was not read yet, without cutting it into tokens.
The search goes from one start delimiter to the next and tries to read the end tag behind each of them.
Behind its delimiter an end tag has no brace that opens, so none reaches from the text of a section into the
tag that ends it, and the search passes over whatever the text holds.  The parser then stands where it
would stand behind any other tag with the same marker.

Main definitions:

* `Stencil.RawSection` — a raw section with its markers, and a text without an end tag;
* `Stencil.RawSection.written`, `Stencil.RawSection.shown` — the section as it stands in a template, and
  what is shown of its text;
* `Stencil.RawSection.closing`, `Stencil.RawSection.after` — a parser at the end of the end tag, and
  behind it.

Main results:

* `Stencil.Lexer.rawText?_append` — the search finds the end tag that follows the text;
* `Stencil.RawSection.At.nodeStep` — a raw section is read in one round;
* `Stencil.RawSection.read_verbatim` — **the text is shown as it stands, and what follows is read as behind
  any tag**.
-/

import Stencil.Proofs.Delimiters
import Stencil.Proofs.Ending
import Stencil.Proofs.Printing.Reading
import Stencil.Proofs.Reading.Actions

set_option autoImplicit false

namespace Stencil

/-! ### The search -/

namespace Text

/-- A delimiter of two characters that are not the same is found where it is appended, if not before. -/
theorem cut?_append {a b : Char} (hab : a ≠ b) (s tail : List Char) :
    cut? [a, b] (s ++ a :: b :: tail) = match cut? [a, b] s with
      | none => some (s, tail)
      | some (before, rest) => some (before, rest ++ a :: b :: tail) := by
  induction s with
  | nil => simp [cut?, after?]
  | cons c s ih =>
      have hhere : after? [a, b] (c :: (s ++ a :: b :: tail)) =
          (after? [a, b] (c :: s)).map (· ++ a :: b :: tail) := by
        cases s with
        | nil => simp [after?, hab.symm]
        | cons d s => by_cases hc : a = c <;> by_cases hd : b = d <;> simp [after?, hc, hd]
      rw [List.cons_append, cut?, cut?, hhere, ih]
      cases after? [a, b] (c :: s) with
      | some rest => rfl
      | none =>
          rcases cut? [a, b] s with - | ⟨before, rest⟩
          · rfl
          · rfl

end Text

namespace Lexer

variable {name : String} {s tail : List Char}

/-- A text without an end tag of the given name, whatever markers that might have. -/
def NoEndTag (name : String) (s : List Char) : Prop :=
  ∀ trimBefore trimAfter tag, Delimiters.standard.IsEndTag name trimBefore trimAfter tag → ¬tag <:+: s

theorem NoEndTag.mono {s' : List Char} (h : NoEndTag name s) (hs : s' <:+: s) : NoEndTag name s' :=
  fun _ _ tag htag hinside => h _ _ tag htag (hinside.trans hs)

/-- A text in which no tag is closed has no end tag. -/
theorem noEndTag_of_open (h : ¬['%', '\x7d'] <:+: s) : NoEndTag name s := by
  rintro trimBefore trimAfter tag ⟨blanks, blanks', -, rfl⟩ hinside
  exact h ((List.suffix_append ..).isInfix.trans hinside)

/-- What follows a start delimiter inside of a text without an end tag is none, as an end tag cannot reach
behind the brace that comes next. -/
theorem NoEndTag.endTag?_eq_none (hname : '\x7b' ∉ name.toList)
    (hs : NoEndTag name ('\x7b' :: '%' :: s)) :
    endTag? .standard name.toList (s ++ '\x7b' :: '%' :: tail) = none := by
  rw [Option.eq_none_iff_forall_ne_some]
  rintro ⟨trimBefore, trimAfter, rest⟩ h
  obtain ⟨tag, htag, heq⟩ := endTag?_eq h
  refine hs trimBefore trimAfter tag htag ?_
  obtain ⟨blanks, blanks', hblanks, rfl⟩ := htag
  have hstart : Delimiters.standard.blockStart.toList = ['\x7b', '%'] := rfl
  have hend : Delimiters.standard.blockEnd.toList = ['%', '\x7d'] := rfl
  let inner := Delimiters.marker trimBefore ++ blanks ++ name.toList ++ blanks' ++
    Delimiters.marker trimAfter ++ ['%', '\x7d']
  have hbrace : '\x7b' ∉ inner := by
    have hblank : '\x7b' ∉ blanks ++ blanks' := fun hmem => absurd (hblanks _ hmem) (by decide)
    have hmarker : ∀ dashed, '\x7b' ∉ Delimiters.marker dashed := by decide
    simp only [List.mem_append, not_or] at hblank
    simp [inner, hblank, hmarker, hname]
  have heq : s ++ '\x7b' :: '%' :: tail = inner ++ rest := by simpa [hstart, hend, inner] using heq
  -- Either the end tag ends within `s`, or it reaches the brace behind it, which it does not hold.
  have hinner : inner <+: s := by
    obtain ⟨more, hmore, htail⟩ | ⟨more, hmore, -⟩ := List.append_eq_append_iff.1 heq
    · cases more with
      | nil => exact ⟨[], by simp [hmore]⟩
      | cons c more =>
          obtain ⟨rfl, -⟩ := List.cons.inj htail
          exact absurd (by simp [hmore]) hbrace
    · exact ⟨more, hmore.symm⟩
  have htag : '\x7b' :: '%' :: inner <+: '\x7b' :: '%' :: s := by simpa using hinner
  simpa [hstart, hend, inner] using htag.isInfix

/-- The search passes over a text without an end tag and finds the one that follows. -/
theorem rawText?_append (hname : '\x7b' ∉ name.toList) (hs : NoEndTag name s)
    {found : Bool × Bool × List Char} (htag : endTag? .standard name.toList tail = some found)
    {fuel : Nat} (hfuel : s.length < fuel) (seen : List Char) :
    rawText? .standard name.toList fuel seen (s ++ '\x7b' :: '%' :: tail) = some (seen ++ s, found) := by
  induction fuel generalizing s seen with
  | zero => omega
  | succ fuel ih =>
      have hstart : Delimiters.standard.blockStart.toList = ['\x7b', '%'] := rfl
      rw [rawText?, hstart, Text.cut?_append (by decide)]
      cases hcut : Text.cut? ['\x7b', '%'] s with
      | none => simp [htag]
      | some found =>
          obtain ⟨before, rest⟩ := found
          obtain rfl := Text.eq_of_cut? hcut
          -- The delimiter in the text starts no end tag, so the search goes on behind it.
          have hrest : NoEndTag name rest := hs.mono (List.suffix_append ..).isInfix
          have hpassed : endTag? .standard name.toList (rest ++ '\x7b' :: '%' :: tail) = none :=
            (hs.mono ⟨before, [], by simp⟩).endTag?_eq_none hname
          simp only [List.length_append, List.length_cons, List.length_nil] at hfuel
          have hmore := ih hrest (by omega) (seen ++ before ++ ['\x7b', '%'])
          simpa [hpassed] using hmore

/-- The end tag of a raw section, as it is written most plainly. -/
theorem endTag?_written (hname : name = "raw" ∨ name = "verbatim") (trimBefore trimAfter : Bool)
    (rest : List Char) :
    endTag? .standard ("end" ++ name).toList (Delimiters.marker trimBefore ++
        ' ' :: (("end" ++ name).toList ++ ' ' :: (Delimiters.marker trimAfter ++ '%' :: '\x7d' :: rest))) =
      some (trimBefore, trimAfter, rest) := by
  rcases hname with rfl | rfl <;> cases trimAfter <;> cases trimBefore <;> rfl

/-! ### Tokens of the tags around a section -/

@[simp] theorem moved_moved (l : Lexer) (read rest read' rest' : List Char) :
    (l.moved read rest).moved read' rest' = l.moved (read ++ read') rest' := by
  simp [moved, Position.advance_append]

variable {o : Options} {p : Position}

/-- The start of a tag without a marker. -/
theorem nextVisible_tagStart (ho : o.delimiters = .standard) :
    nextVisible ⟨o, '\x7b' :: '%' :: ' ' :: s, p, false⟩ =
      (.ok (some ⟨.blockStart, "\x7b%", p⟩), ⟨o, ' ' :: s, p.advance ['\x7b', '%'], true⟩) := by
  have hopen : Lexeme.opening? o.delimiters.blockStart.toList ('\x7b' :: '%' :: ' ' :: s) =
      some (['\x7b', '%'], ' ' :: s) := by
    rw [ho]
    rfl
  have hstart : tagStart? ⟨o, '\x7b' :: '%' :: ' ' :: s, p, false⟩ =
      some (.ok ⟨.blockStart, "\x7b%", p⟩, ⟨o, ' ' :: s, p.advance ['\x7b', '%'], true⟩) := by
    unfold tagStart?
    simp only [hopen]
    rfl
  simp [nextVisible, next, textToken, hstart, Except.map]

/-- The name of a raw tag. -/
theorem nextVisible_rawName (ho : o.delimiters = .standard) (hname : name = "raw" ∨ name = "verbatim") :
    nextVisible ⟨o, ' ' :: name.toList ++ ' ' :: s, p, true⟩ =
      (.ok (some ⟨.symbol, name, p.advance [' ']⟩),
        ⟨o, ' ' :: s, (p.advance [' ']).advance name.toList, true⟩) := by
  obtain ⟨hne, hall, hdigit, hkind⟩ : name.toList ≠ [] ∧
      (name.toList.all fun c => c ∉ '\x22' :: '\x27' :: Lexeme.stops) ∧
      name.toList.all Char.isDigit = false ∧ Lexeme.wordKind? name.toList = some .symbol := by
    rcases hname with rfl | rfl <;> decide
  have hin : ∀ c ∈ name.toList, c ∉ '\x22' :: '\x27' :: Lexeme.stops :=
    fun c hc => of_decide_eq_true (List.all_eq_true.1 hall c hc)
  rw [nextVisible_word ho hne hin (by rw [hdigit]; exact hkind), String.ofList_toList]

/-- The end of a tag with or without a marker. -/
theorem nextVisible_tagEnd (ho : o.delimiters = .standard) (dashed : Bool) :
    nextVisible ⟨o, ' ' :: (Delimiters.marker dashed ++ '%' :: '\x7d' :: s), p, true⟩ =
      (.ok (some ⟨.blockEnd, String.ofList (Delimiters.marker dashed ++ ['%', '\x7d']), p.advance [' ']⟩),
        (Lexer.mk o s (p.advance (' ' :: (Delimiters.marker dashed ++ ['%', '\x7d'])))
          false).dropNewline) := by
  have hclose : Lexeme.closing? o.delimiters.blockEnd.toList
      (Delimiters.marker dashed ++ '%' :: '\x7d' :: s) =
        some (Delimiters.marker dashed ++ ['%', '\x7d'], s) := by
    rw [ho]
    cases dashed <;> rfl
  cases dashed with
  | false => exact nextVisible_spaced rfl (tagToken_blockEnd rfl hclose)
  | true => exact nextVisible_spaced rfl (tagToken_blockEnd rfl hclose)

end Lexer

/-! ### Actions on tokens that are known -/

namespace Parse

variable {p : Parser} {l : Lexer} {t : Token} {rest : List Token}

variable {o : Lexer.Options} {place : Position} {dashed : Bool} {s : List Char}

/-- The end of a tag is taken, with or without a marker. -/
theorem blockEnd_marked (name : String) (hbuffer : p.buffer = []) (ho : o.delimiters = .standard)
    (hlexer : p.lexer = ⟨o, ' ' :: (Delimiters.marker dashed ++ '%' :: '\x7d' :: s), place, true⟩) :
    blockEnd name p =
      (.ok ⟨.blockEnd, String.ofList (Delimiters.marker dashed ++ ['%', '\x7d']), place.advance [' ']⟩,
        { p with
          lexer := (Lexer.mk o s (place.advance (' ' :: (Delimiters.marker dashed ++ ['%', '\x7d'])))
            false).dropNewline,
          trimNext := dashed }) := by
  have hnext := Lexer.nextVisible_tagEnd (s := s) (p := place) ho dashed
  rw [← hlexer] at hnext
  have hdashed : Token.startsDashed ⟨.blockEnd,
      String.ofList (Delimiters.marker dashed ++ ['%', '\x7d']), place.advance [' ']⟩ = dashed := by
    rw [Token.startsDashed, String.toList_ofList]
    cases dashed <;> rfl
  refine (bind_apply (next_pull hbuffer hnext)).trans ?_
  dsimp only
  rw [if_pos rfl, hdashed]
  rfl

/-- The tag of a raw section is read as one. -/
theorem statement_raw {g : Grammar} {hosts : List TagReader} (hbuffer : p.buffer = t :: rest)
    (hkind : t.kind = .symbol) (hvalue : t.value = "raw" ∨ t.value = "verbatim") :
    statement g hosts p = raw p := by
  refine (bind_apply (peek_buffer hbuffer)).trans ?_
  dsimp only
  rw [if_neg (not_not.2 hkind)]
  rcases hvalue with h | h
  · rw [h]
    rfl
  · rw [h]
    rfl

/-- The text of a raw section, where its end was found. -/
theorem rawBody_apply {raw : RawText} (hbuffer : p.buffer = [])
    (h : p.lexer.takeRaw ("end" ++ t.value) = some (raw, l)) :
    rawBody t p = (.ok (.output t.position (.text t.position
        (if p.trimNext then String.ofList (Text.trimStart raw.text.toList) else raw.text))),
      { p with lexer := l, trimNext := raw.trimAfter }) := by
  obtain ⟨lexer, buffer, trimNext, opened⟩ := p
  cases hbuffer
  unfold rawBody
  refine (bind_apply (x := get) rfl).trans ?_
  dsimp only [List.head?_nil]
  refine (bind_apply (x := get) rfl).trans ?_
  rw [h]
  rfl

/-- A tag that ends nothing is read as a statement. -/
theorem nodeStep_statement {g : Grammar} {hosts : List TagReader} {names : List String}
    {start tag : Token} {p₁ p₂ q : Parser} {n : Node} (read : List Node)
    (hstart : peek 0 p = (.ok (some start), p₁)) (hkind : start.kind = .blockStart)
    (htag : peek 1 { p₁ with trimNext := false } = (.ok (some tag), p₂)) (hnames : tag.value ∉ names)
    (hbuffer : p₂.buffer = start :: rest)
    (hstatement : statement g hosts { p₂ with buffer := rest } = (.ok n, q)) :
    nodeStep g hosts names read p = (.ok (.inl (read ++ [n])), q) := by
  refine (bind_apply hstart).trans ?_
  dsimp only
  rw [hkind]
  refine (bind_apply (x := modify fun p => { p with trimNext := false }) rfl).trans ?_
  refine (bind_apply htag).trans ?_
  rw [if_neg (by simp [hnames])]
  refine (bind_apply (discard_apply (next_buffer hbuffer))).trans ?_
  exact bind_apply hstatement

/-- What is done to a result does not depend on how it came about. -/
theorem map_congr_at {α β : Type} {f : α → β} {x y : Parse α} (h : x p = y p) :
    (f <$> x) p = (f <$> y) p := by
  rw [map_eq_pure_bind, map_eq_pure_bind, bind_eq_match, bind_eq_match, h]

theorem map_fst {α β : Type} (f : α → β) (x : Parse α) (p : Parser) :
    ((f <$> x) p).1 = f <$> (x p).1 := by
  rw [map_eq_pure_bind, bind_eq_match]
  rcases x p with ⟨e | a, q⟩
  · rfl
  · rfl

/-! ### Rounds -/

section

variable {g : Grammar} {hosts : List TagReader} {names : List String}

/-- What was read before is only kept. -/
theorem nodeStep_map (read : List Node) : nodeStep g hosts names read =
    Sum.map (read ++ ·) (read ++ ·) <$> nodeStep g hosts names [] := by
  unfold nodeStep
  rw [map_bind]
  refine bind_congr fun token => ?_
  cases token with
  | none => simp
  | some token =>
      dsimp only
      split
      · simp only [map_bind]
        refine bind_congr fun _ => bind_congr fun _ => ?_
        split
        · simp
        · simp
      · simp
      · simp
      · simp
      · rfl

theorem nodesWithin_map (fuel : Nat) (read : List Node) :
    iterateWithin (nodeStep g hosts names) fuel read =
      (read ++ ·) <$> iterateWithin (nodeStep g hosts names) fuel [] := by
  induction fuel generalizing read with
  | zero => rfl
  | succ fuel ih =>
      simp only [iterateWithin, map_bind]
      rw [nodeStep_map, bind_map_left]
      refine bind_congr fun r => ?_
      cases r with
      | inl ns =>
          simp only [Sum.map_inl]
          rw [ih (read ++ ns), ih ns]
          simp
      | inr ns => simp

end

end Parse

/-! ### Sections -/

/-- A raw section: the name of its tags, a text without an end tag, and whether there is a marker at the end
of the start tag and at the two ends of the end tag. -/
structure RawSection where
  name : String
  text : List Char
  trimStart : Bool
  trimEnd : Bool
  trimAfter : Bool
  isName : name = "raw" ∨ name = "verbatim"
  noEndTag : Lexer.NoEndTag ("end" ++ name) text

namespace RawSection

open Delimiters (marker)

variable (r : RawSection) (rest : List Char) (p : Parser)

/-- The start tag. -/
def startTag : List Char :=
  '\x7b' :: '%' :: ' ' :: (r.name.toList ++ ' ' :: (marker r.trimStart ++ ['%', '\x7d']))

/-- The end tag up to its name. -/
def endTag : List Char :=
  '\x7b' :: '%' :: (marker r.trimEnd ++ ' ' :: ("end" ++ r.name).toList)

/-- What follows the name of the end tag. -/
def stop : List Char := ' ' :: (marker r.trimAfter ++ ['%', '\x7d'])

/-- The section as it stands in a template. -/
def written : List Char := r.startTag ++ r.text ++ r.endTag ++ r.stop

/-- The text without the newline behind the start tag, if that is dropped. -/
def kept (trimBlocks : Bool) : List Char := if trimBlocks then (Lexeme.newline r.text).2 else r.text

/-- The newline behind the start tag, if it is dropped. -/
def dropped (trimBlocks : Bool) : List Char := if trimBlocks then (Lexeme.newline r.text).1 else []

/-- What is shown of the text. -/
def shown (trimBlocks : Bool) : List Char :=
  Text.cutStart r.trimStart (Text.cutEnd r.trimEnd (r.kept trimBlocks))

/-- The name of the start tag. -/
def tag : Token := ⟨.symbol, r.name, p.lexer.position.advance ['\x7b', '%', ' ']⟩

/-- A parser in the start tag, where the name of the tag was looked at. -/
def opened : Parser :=
  { p with
    lexer := ⟨p.lexer.config,
      ' ' :: (marker r.trimStart ++ '%' :: '\x7d' :: (r.text ++ (r.endTag ++ r.stop ++ rest))),
      p.lexer.position.advance ('\x7b' :: '%' :: ' ' :: r.name.toList), true⟩
    buffer := [r.tag p] }

/-- A parser before the text. -/
def inside : Parser :=
  { p with
    lexer := p.lexer.moved (r.startTag ++ r.dropped p.lexer.config.trimBlocks)
      (r.kept p.lexer.config.trimBlocks ++ (r.endTag ++ r.stop ++ rest))
    buffer := []
    trimNext := r.trimStart }

/-- A parser behind the name of the end tag. -/
def closing : Parser :=
  { p with
    lexer := { p.lexer.moved (r.startTag ++ r.text ++ r.endTag) (r.stop ++ rest) with inTag := true }
    buffer := [] }

/-- A parser behind the section. -/
def after : Parser :=
  { p with
    lexer := (p.lexer.moved r.written rest).dropNewline
    buffer := []
    trimNext := r.trimAfter }

/-- The node that a section is read as: one text. -/
def node : Node :=
  let place := p.lexer.position.advance ['\x7b', '%', ' ']
  .output place (.text place (String.ofList (r.shown p.lexer.config.trimBlocks)))

/-! ### The text of a section -/

variable {r rest p}

theorem dropped_kept (trimBlocks : Bool) : r.dropped trimBlocks ++ r.kept trimBlocks = r.text := by
  cases trimBlocks with
  | false => rfl
  | true => exact (Lexeme.newline_eq r.text).1.symm

theorem kept_noEndTag (trimBlocks : Bool) : Lexer.NoEndTag ("end" ++ r.name) (r.kept trimBlocks) := by
  unfold kept
  split
  · have hsuffix : (Lexeme.newline r.text).2 <:+ r.text := ⟨_, (Lexeme.newline_eq r.text).1.symm⟩
    exact r.noEndTag.mono hsuffix.isInfix
  · exact r.noEndTag

/-- The brace of the end tag is no part of a newline. -/
theorem newline_append (s tail : List Char) : Lexeme.newline (s ++ '\x7b' :: tail) =
    ((Lexeme.newline s).1, (Lexeme.newline s).2 ++ '\x7b' :: tail) := by
  rcases s with - | ⟨c, - | ⟨d, s⟩⟩
  · rfl
  all_goals
    unfold Lexeme.newline
    split <;> split <;> simp_all

theorem endTag_eq : r.endTag ++ r.stop ++ rest = '\x7b' :: '%' :: (marker r.trimEnd ++
    ' ' :: (("end" ++ r.name).toList ++ ' ' :: (marker r.trimAfter ++ '%' :: '\x7d' :: rest))) := by
  simp [endTag, stop]

/-- The end of the section is found behind its start tag. -/
theorem takeRaw_eq {l : Lexer} (hd : l.config.delimiters = .standard) {trimBlocks : Bool}
    (hl : l.rest = r.kept trimBlocks ++ (r.endTag ++ r.stop ++ rest)) :
    l.takeRaw ("end" ++ r.name) =
      some (⟨String.ofList (Text.cutEnd r.trimEnd (r.kept trimBlocks)), r.trimAfter⟩,
        (l.moved (r.kept trimBlocks ++ (r.endTag ++ r.stop)) rest).dropNewline) := by
  have hbrace : '\x7b' ∉ ("end" ++ r.name).toList := by rcases r.isName with h | h <;> rw [h] <;> decide
  have hsearch : Lexer.rawText? l.config.delimiters ("end" ++ r.name).toList (l.rest.length + 1) []
      l.rest = some (r.kept trimBlocks, r.trimEnd, r.trimAfter, rest) := by
    have hfuel : (r.kept trimBlocks).length < l.rest.length + 1 := by
      rw [hl, List.length_append]
      omega
    rw [hd, hl, endTag_eq]
    rw [hl, endTag_eq] at hfuel
    exact Lexer.rawText?_append hbrace (r.kept_noEndTag _)
      (Lexer.endTag?_written r.isName _ _ _) hfuel []
  have hread : l.rest.take (l.rest.length - rest.length) = r.kept trimBlocks ++ (r.endTag ++ r.stop) := by
    rw [hl, ← List.append_assoc, List.length_append, Nat.add_sub_cancel, List.take_left]
  unfold Lexer.takeRaw
  rw [hsearch, Option.map_some]
  dsimp only
  rw [hread]
  rfl

/-! ### Reading a section -/

/-- Where a section stands: between tags, with no token looked at yet, under the standard delimiters. -/
structure At (r : RawSection) (rest : List Char) (p : Parser) : Prop where
  delimiters : p.lexer.config.delimiters = .standard
  inTag : p.lexer.inTag = false
  text : p.lexer.rest = r.written ++ rest
  buffer : p.buffer = []

/-- The newline behind the start tag is dropped where that is asked for. -/
theorem At.dropNewline (h : r.At rest p) :
    (Lexer.mk p.lexer.config (r.text ++ (r.endTag ++ r.stop ++ rest))
        (p.lexer.position.advance r.startTag) false).dropNewline =
      p.lexer.moved (r.startTag ++ r.dropped p.lexer.config.trimBlocks)
        (r.kept p.lexer.config.trimBlocks ++ (r.endTag ++ r.stop ++ rest)) := by
  rw [endTag_eq]
  unfold Lexer.dropNewline dropped kept
  cases p.lexer.config.trimBlocks with
  | false => simp [Lexer.moved, h.inTag]
  | true => simp [Lexer.moved, h.inTag, newline_append, Position.advance_append]

/-- The end of any tag, taken where the end tag ends, leaves the parser behind the section. -/
theorem At.blockEnd (h : r.At rest p) (name : String) :
    Parse.blockEnd name (r.closing rest p) =
      (.ok ⟨.blockEnd, String.ofList (marker r.trimAfter ++ ['%', '\x7d']),
        (r.closing rest p).lexer.position.advance [' ']⟩, r.after rest p) := by
  have hlexer : (r.closing rest p).lexer = ⟨p.lexer.config,
      ' ' :: (marker r.trimAfter ++ '%' :: '\x7d' :: rest),
      p.lexer.position.advance (r.startTag ++ r.text ++ r.endTag), true⟩ := by
    simp [closing, Lexer.moved, stop]
  have hafter : Lexer.mk p.lexer.config rest ((p.lexer.position.advance
      (r.startTag ++ r.text ++ r.endTag)).advance (' ' :: (marker r.trimAfter ++ ['%', '\x7d']))) false =
      p.lexer.moved r.written rest := by
    rw [← Position.advance_append]
    simp [Lexer.moved, written, stop, h.inTag]
  have hread := Parse.blockEnd_marked name (p := r.closing rest p) rfl h.delimiters hlexer
  rw [hafter] at hread
  rw [hread, hlexer]
  rfl

/-- The text is read up to the end of the section. -/
theorem At.rawBody (h : r.At rest p) :
    Parse.rawBody (r.tag p) (r.inside rest p) = (.ok (r.node p), r.after rest p) := by
  have hraw := takeRaw_eq (l := (r.inside rest p).lexer) h.delimiters rfl
  have hafter : ((r.inside rest p).lexer.moved (r.kept p.lexer.config.trimBlocks ++ (r.endTag ++ r.stop))
      rest) = p.lexer.moved r.written rest := by
    have htext := r.dropped_kept p.lexer.config.trimBlocks
    simp [inside, written, ← htext]
  rw [hafter] at hraw
  have hbody := Parse.rawBody_apply (t := r.tag p) rfl hraw
  have hshown : (if r.trimStart then String.ofList (Text.trimStart (String.ofList (Text.cutEnd r.trimEnd
      (r.kept p.lexer.config.trimBlocks))).toList) else
        String.ofList (Text.cutEnd r.trimEnd (r.kept p.lexer.config.trimBlocks))) =
      String.ofList (r.shown p.lexer.config.trimBlocks) := by
    rw [String.toList_ofList]
    unfold shown Text.cutStart
    cases r.trimStart with
    | false => rfl
    | true => rfl
  unfold node
  rw [← hshown]
  exact hbody

/-- Behind the start of its tag a section is read as a text. -/
theorem At.statement (h : r.At rest p) (g : Grammar) (hosts : List TagReader) :
    Parse.statement g hosts (r.opened rest p) = (.ok (r.node p), r.after rest p) := by
  have hexpect : Parse.expect .symbol "raw" (r.opened rest p) =
      (.ok (r.tag p), { r.opened rest p with buffer := [] }) :=
    Parse.expect_buffer (p := r.opened rest p) (t := r.tag p) rfl rfl _
  have hend := Parse.blockEnd_marked r.name (p := { r.opened rest p with buffer := [] }) rfl
    h.delimiters rfl
  have hstart : (p.lexer.position.advance ('\x7b' :: '%' :: ' ' :: r.name.toList)).advance
      (' ' :: (marker r.trimStart ++ ['%', '\x7d'])) = p.lexer.position.advance r.startTag := by
    rw [← Position.advance_append]
    simp [startTag]
  rw [hstart, h.dropNewline] at hend
  rw [Parse.statement_raw rfl rfl r.isName, Parse.raw_eq]
  exact (Parse.bind_apply hexpect).trans
    ((Parse.bind_apply (Parse.discard_apply hend)).trans h.rawBody)

/-- A section is read in one round. -/
theorem At.nodeStep (h : r.At rest p) (g : Grammar) (hosts : List TagReader) {names : List String}
    (hnames : r.name ∉ names) (read : List Node) :
    Parse.nodeStep g hosts names read p = (.ok (.inl (read ++ [r.node p])), r.after rest p) := by
  obtain ⟨⟨o, text, place, inTag⟩, buffer, trimNext, opened⟩ := p
  obtain ⟨hd, rfl, rfl, rfl⟩ := id h
  -- Two tokens are looked at: the start of the tag, which is taken, and its name, which stays.
  let start : Token := ⟨.blockStart, "\x7b%", place⟩
  let tail := marker r.trimStart ++ '%' :: '\x7d' :: (r.text ++ (r.endTag ++ r.stop ++ rest))
  have htext : r.written ++ rest = '\x7b' :: '%' :: ' ' :: (r.name.toList ++ ' ' :: tail) := by
    simp [written, startTag, tail]
  have hstart : Parse.peek 0 ⟨⟨o, r.written ++ rest, place, false⟩, [], trimNext, opened⟩ =
      (.ok (some start), ⟨⟨o, ' ' :: r.name.toList ++ ' ' :: tail, place.advance ['\x7b', '%'], true⟩,
        [start], trimNext, opened⟩) := by
    rw [htext]
    exact Parse.peek_pull (p := ⟨⟨o, _, place, false⟩, [], trimNext, opened⟩)
      (Lexer.nextVisible_tagStart hd)
  let between : Parser := ⟨⟨o, ' ' :: r.name.toList ++ ' ' :: tail, place.advance ['\x7b', '%'], true⟩,
    [start], false, opened⟩
  have htag := Parse.peek_pull (p := between) (Lexer.nextVisible_rawName hd r.isName)
  have hsame : r.At rest ⟨⟨o, r.written ++ rest, place, false⟩, [], false, opened⟩ :=
    ⟨hd, rfl, rfl, rfl⟩
  exact Parse.nodeStep_statement read hstart rfl htag hnames rfl (hsame.statement g hosts)

/-! ### Templates -/

theorem proper_standard {o : Lexer.Options} (ho : o.delimiters = .standard) : o.IsProper := by
  constructor <;> rw [ho] <;> decide

/-- Nodes that begin with a section go on behind it. -/
theorem At.nodes (h : r.At rest p) {depth : Nat} (hdepth : p.size ≤ depth) {names : List String}
    (hnames : r.name ∉ names) :
    Parse.nodes (Grammar.tied [] depth) [] names p =
      ((r.node p :: ·) <$> Parse.nodes (Grammar.tied [] depth) [] names) (r.after rest p) := by
  have ho := proper_standard h.delimiters
  -- One round reads the section.  It takes tokens, so the bound is enough for the rounds behind it.
  have hround := h.nodeStep (Grammar.tied [] depth) [] hnames []
  have hends := Parser.ends ho (Grammar.tied_alike (List.forall_mem_nil _) ho le_rfl hdepth hdepth)
  obtain ⟨hahead, hsize⟩ := hends.rounds (.node names) hround
  have ho' := hahead.config ho ▸ ho
  have hdepth' := hsize.le.trans hdepth
  have hends' := Parser.ends ho'
    (Grammar.tied_alike (List.forall_mem_nil _) ho' le_rfl hdepth' hdepth')
  obtain ⟨fuel, hfuel⟩ := Nat.exists_eq_add_one_of_ne_zero (Nat.ne_zero_of_lt hsize)
  have hloop := hends'.loops (.node names) [] fuel (by omega)
  calc Parse.nodes (Grammar.tied [] depth) [] names p
    _ = Parse.iterateWithin (Parse.nodeStep (Grammar.tied [] depth) [] names) (fuel + 1) [] p := by
        rw [← hfuel]
        rfl
    _ = Parse.iterateWithin (Parse.nodeStep (Grammar.tied [] depth) [] names) fuel [r.node p]
          (r.after rest p) := Parse.bind_apply hround
    _ = ((r.node p :: ·) <$> Parse.nodes (Grammar.tied [] depth) [] names) (r.after rest p) := by
        rw [Parse.nodesWithin_map]
        exact Parse.map_congr_at hloop

/-- **Raw sections are verbatim.**  A section is read in one round as one text: the text of the section
without the newline and the white space that the options and the markers drop.  The parser is then where
the end of any tag with the marker of the end tag leaves it, and a template that begins with a section goes
on from there. -/
theorem read_verbatim (r : RawSection) (rest : List Char) :
    (∀ p, r.At rest p →
      (∀ g hosts names read, r.name ∉ names →
        Parse.nodeStep g hosts names read p = (.ok (.inl (read ++ [r.node p])), r.after rest p)) ∧
      ∀ name, Parse.blockEnd name (r.closing rest p) =
        (.ok ⟨.blockEnd, String.ofList (marker r.trimAfter ++ ['%', '\x7d']),
          (r.closing rest p).lexer.position.advance [' ']⟩, r.after rest p)) ∧
    ∀ (config : Config) (source : String), config.delimiters = .standard →
      source.toList = r.written ++ rest → ∀ depth, (Parser.ofString config source).size ≤ depth →
        Node.ofSource config [] source =
          (fun ns => .group .root .start (r.node (Parser.ofString config source) :: ns)) <$>
            (Parse.nodes (Grammar.tied [] depth) [] [] (r.after rest (Parser.ofString config source))).1 := by
  refine ⟨fun p h => ⟨fun g hosts names read hnames => h.nodeStep g hosts hnames read, h.blockEnd⟩,
    fun config source hd hsource depth hdepth => ?_⟩
  have h : r.At rest (Parser.ofString config source) := ⟨hd, rfl, hsource, rfl⟩
  have hsame := (Parse.nodes_tied (proper_standard h.delimiters) (Nat.le_succ _) hdepth []).1
  rw [Node.ofSource_eq, Node.ofSourceTied, hsame, h.nodes hdepth List.not_mem_nil, Parse.map_fst]
  simp

/-- A section with an output, a comment that is not closed and the beginning of an end tag in it. -/
def partialEnd : RawSection where
  name := "raw"
  text := "\n \x7b\x7b a \x7d\x7d \x7b# \x7b% endraw ' ".toList
  trimStart := true
  trimEnd := true
  trimAfter := true
  isName := .inl rfl
  noEndTag := Lexer.noEndTag_of_open (by decide)

/-- A template that begins with the section, and a text behind it. -/
def partialEndPage : String :=
  "\x7b% raw -%\x7d\n \x7b\x7b a \x7d\x7d \x7b# \x7b% endraw ' \x7b%- endraw -%\x7d b"

/-- Options under which the newline behind a tag is dropped. -/
def trimming : Config := { Config.standard with trimBlocks := true }

/-- The whole text of the section is shown, and what follows loses its white space. -/
theorem read_verbatim_partialEnd : partialEndPage.toList = partialEnd.written ++ " b".toList ∧
    Parse.nodeStep .exhausted [] [] [] (Parser.ofString trimming partialEndPage) =
      (.ok (.inl [partialEnd.node (Parser.ofString trimming partialEndPage)]),
        partialEnd.after " b".toList (Parser.ofString trimming partialEndPage)) ∧
    (Parser.ofString trimming partialEndPage).size ≤ 200 ∧
    Node.ofSource trimming [] partialEndPage = (fun ns => .group .root .start
        (partialEnd.node (Parser.ofString trimming partialEndPage) :: ns)) <$>
      (Parse.nodes (Grammar.tied [] 200) [] []
        (partialEnd.after " b".toList (Parser.ofString trimming partialEndPage))).1 ∧
    (Node.ofSource trimming [] partialEndPage).toOption.map Node.texts =
      some ["\x7b\x7b a \x7d\x7d \x7b# \x7b% endraw '", "b"] := by
  have hsource : partialEndPage.toList = partialEnd.written ++ " b".toList := by decide
  have hsize : (Parser.ofString trimming partialEndPage).size ≤ 200 := by decide
  obtain ⟨hround, htemplate⟩ := read_verbatim partialEnd " b".toList
  have hat : partialEnd.At " b".toList (Parser.ofString trimming partialEndPage) :=
    ⟨rfl, rfl, hsource, rfl⟩
  exact ⟨hsource, (hround _ hat).1 _ _ _ _ List.not_mem_nil, hsize,
    htemplate trimming _ rfl hsource _ hsize, by decide +kernel⟩

end RawSection

end Stencil
