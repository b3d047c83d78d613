/-
**What is read of a template.**

A parser reads a template in portions: tokens, and the texts of raw tags, which it takes from the lexer
without looking at tokens.  Tokens that it looked at wait in a buffer.  So what was taken between two
moments is known from what the lexer gave and from what the buffer held before and holds after.

Main definitions:

* `Stencil.Portion` — a token, or the text of a raw tag;
* `Stencil.Lexer.Reads` — the portions between two places of a lexer;
* `Stencil.Parser.Takes` — the portions between two moments of a parser;
* `Stencil.Parser.upcoming` — the token that is taken next.

Main results:

* `Stencil.Parser.Takes.trans` — portions that are taken one after the other;
* `Stencil.Parser.Takes.upcoming_cons`, `Stencil.Parser.Takes.upcoming_nil` — the first of some portions
  is what was to be taken next.
-/

import Stencil.Proofs.Tiling
import Stencil.Parser

set_option autoImplicit false

namespace Stencil

/-- What is read of a template: a token, or the text of a raw tag with the markers of the tag that ends
it. -/
inductive Portion where
  | token (t : Token)
  | verbatim (text : List Char) (trimBefore trimAfter : Bool)

/-! ### Lexers -/

namespace Lexer

/-- The text of a raw tag that ends with a tag of the given name, with the markers of this tag, and the
lexer after it. -/
def IsRaw (l : Lexer) (name : String) (text : List Char) (trimBefore trimAfter : Bool) (l' : Lexer) :
    Prop :=
  ∃ rest, rawText? l.config.delimiters name.toList (l.rest.length + 1) [] l.rest =
      some (text, trimBefore, trimAfter, rest) ∧
    l' = (l.moved (l.rest.take (l.rest.length - rest.length)) rest).dropNewline

/-- The portions between two places of a lexer. -/
inductive Reads : Lexer → List Portion → Lexer → Prop
  | nil (l : Lexer) : Reads l [] l
  | token {l l₁ l' : Lexer} {t : Token} {ps : List Portion} (h : l.nextVisible = (.ok (some t), l₁))
    (hrest : Reads l₁ ps l') : Reads l (.token t :: ps) l'
  | finished {l l₁ l' : Lexer} {ps : List Portion} (h : l.nextVisible = (.ok none, l₁))
    (hrest : Reads l₁ ps l') : Reads l ps l'
  | verbatim {l l₁ l' : Lexer} {name : String} {text : List Char} {trimBefore trimAfter : Bool}
    {ps : List Portion} (hname : name = "endraw" ∨ name = "endverbatim")
    (h : l.IsRaw name text trimBefore trimAfter l₁) (hrest : Reads l₁ ps l') :
    Reads l (.verbatim text trimBefore trimAfter :: ps) l'

variable {l l₁ l' : Lexer} {ps qs : List Portion}

theorem Reads.trans (h : l.Reads ps l₁) (h' : l₁.Reads qs l') : l.Reads (ps ++ qs) l' := by
  induction h with
  | nil => exact h'
  | token h _ ih => exact .token h (ih h')
  | finished h _ ih => exact .finished h (ih h')
  | verbatim hname h _ ih => exact .verbatim hname h (ih h')

theorem next_config (ho : l.config.IsProper) {o : Option Token} (h : l.next = (.ok o, l')) :
    l'.config = l.config := by
  cases o with
  | none => rw [(next_none h).2]
  | some t =>
      obtain ⟨tiles, hsteps⟩ := next_steps ho h
      exact hsteps.config

/-- A token that is no blank is the next one, or the one after it. -/
theorem nextVisible_cases {o : Option Token} (h : l.nextVisible = (.ok o, l')) :
    l.next = (.ok o, l') ∨ ∃ blank l₁, l.next = (.ok (some blank), l₁) ∧ blank.kind = .whitespace ∧
      l₁.next = (.ok o, l') := by
  unfold nextVisible at h
  split at h
  · rename_i blank l₁ hblank
    split at h
    · rename_i hkind
      exact .inr ⟨blank, l₁, hblank, hkind, h⟩
    · exact .inl (h ▸ hblank)
  · exact .inl h

theorem nextVisible_config (ho : l.config.IsProper) {o : Option Token}
    (h : l.nextVisible = (.ok o, l')) : l'.config = l.config := by
  rcases nextVisible_cases h with h | ⟨blank, l₁, hblank, -, h⟩
  · exact next_config ho h
  · have hconfig := next_config ho hblank
    exact (next_config (hconfig ▸ ho) h).trans hconfig

/-- Only the end of a template gives no token. -/
theorem nextVisible_none (h : l.nextVisible = (.ok none, l')) : l'.rest = [] := by
  rcases nextVisible_cases h with h | ⟨blank, l₁, -, -, h⟩
  · obtain ⟨hend, rfl⟩ := next_none h
    exact hend
  · obtain ⟨hend, rfl⟩ := next_none h
    exact hend

theorem nextVisible_of_end (h : l.rest = []) : l.nextVisible = (.ok none, l) := by
  simp [nextVisible, next, h]

theorem IsRaw.config {name : String} {text : List Char} {trimBefore trimAfter : Bool}
    (h : l.IsRaw name text trimBefore trimAfter l') : l'.config = l.config := by
  obtain ⟨rest, -, rfl⟩ := h
  unfold dropNewline
  split <;> rfl

/-- A raw tag is ended by another one. -/
theorem IsRaw.rest_ne_nil {name : String} {text : List Char} {trimBefore trimAfter : Bool}
    (h : l.IsRaw name text trimBefore trimAfter l') (ho : l.config.IsProper) : l.rest ≠ [] := by
  intro hend
  obtain ⟨rest, hraw, -⟩ := h
  have hstart : Text.after? l.config.delimiters.blockStart.toList [] = none := by
    rw [Option.eq_none_iff_forall_ne_some]
    intro rest hrest
    exact ho.blockStart (List.append_eq_nil_iff.1 (Text.after?_eq_some_iff.1 hrest).symm).1
  simp [rawText?, hend, Text.cut?, hstart] at hraw

theorem Reads.config (h : l.Reads ps l') (ho : l.config.IsProper) : l'.config = l.config := by
  induction h with
  | nil => rfl
  | token h _ ih | finished h _ ih =>
      have hconfig := nextVisible_config ho h
      exact (ih (hconfig ▸ ho)).trans hconfig
  | verbatim _ h _ ih => exact (ih (h.config ▸ ho)).trans h.config

/-- At the end of a template there is nothing to read. -/
theorem Reads.of_end (h : l.Reads ps l') (ho : l.config.IsProper) (hend : l.rest = []) :
    ps = [] ∧ l' = l := by
  induction h with
  | nil => exact ⟨rfl, rfl⟩
  | token h =>
      rw [nextVisible_of_end hend] at h
      cases h
  | finished h _ ih =>
      rw [nextVisible_of_end hend] at h
      cases h
      exact ih ho hend
  | verbatim _ h => exact absurd hend (h.rest_ne_nil ho)

/-- The first token that is read is the next one. -/
theorem Reads.nextVisible_cons (ho : l.config.IsProper) {t : Token} (h : l.Reads (.token t :: ps) l') :
    l.nextVisible.1 = .ok (some t) := by
  cases h with
  | token h => rw [h]
  | finished h hrest =>
      have hempty := hrest.of_end (nextVisible_config ho h ▸ ho) (nextVisible_none h)
      cases hempty.1

/-- Where nothing is read, the next token stays the same. -/
theorem Reads.nextVisible_nil (ho : l.config.IsProper) (h : l.Reads [] l') :
    l'.nextVisible.1 = l.nextVisible.1 := by
  cases h with
  | nil => rfl
  | finished h hrest =>
      have hend := nextVisible_none h
      obtain ⟨-, rfl⟩ := hrest.of_end (nextVisible_config ho h ▸ ho) hend
      rw [nextVisible_of_end hend, h]

end Lexer

/-! ### Parsers -/

namespace Parser

/-- The portions that were taken between two moments of a parser. -/
def Takes (p : Parser) (ps : List Portion) (q : Parser) : Prop :=
  ∃ pulled, p.lexer.Reads pulled q.lexer ∧
    p.buffer.map .token ++ pulled = ps ++ q.buffer.map .token

/-- The token that is taken next, if one can be read. -/
def upcoming (p : Parser) : Except TemplateError (Option Token) :=
  match p.buffer with
  | t :: _ => .ok (some t)
  | [] => p.lexer.nextVisible.1

variable {p q r : Parser} {ps qs : List Portion} {t : Token}

theorem Takes.refl (p : Parser) : p.Takes [] p := ⟨[], .nil _, by simp⟩

theorem Takes.trans (h : p.Takes ps q) (h' : q.Takes qs r) : p.Takes (ps ++ qs) r := by
  obtain ⟨pulled, hreads, heq⟩ := h
  obtain ⟨pulled', hreads', heq'⟩ := h'
  refine ⟨pulled ++ pulled', hreads.trans hreads', ?_⟩
  rw [← List.append_assoc, heq, List.append_assoc, heq', List.append_assoc]

theorem Takes.config (h : p.Takes ps q) (ho : p.lexer.config.IsProper) :
    q.lexer.config = p.lexer.config := by
  obtain ⟨pulled, hreads, -⟩ := h
  exact hreads.config ho

/-- The first token that was taken is the one that was to be taken next. -/
theorem Takes.upcoming_cons (ho : p.lexer.config.IsProper) (h : p.Takes (.token t :: ps) q) :
    p.upcoming = .ok (some t) := by
  obtain ⟨pulled, hreads, heq⟩ := h
  unfold upcoming
  cases hbuffer : p.buffer with
  | cons u rest =>
      rw [hbuffer, List.map_cons, List.cons_append, List.cons_append, List.cons.injEq] at heq
      cases heq.1
      rfl
  | nil =>
      rw [hbuffer, List.map_nil, List.nil_append, List.cons_append] at heq
      subst heq
      exact hreads.nextVisible_cons ho

/-- What is to be taken next stays the same while nothing is taken. -/
theorem Takes.upcoming_nil (ho : p.lexer.config.IsProper) (h : p.Takes [] q) {o : Option Token}
    (hq : q.upcoming = .ok o) : p.upcoming = .ok o := by
  obtain ⟨pulled, hreads, heq⟩ := h
  rw [List.nil_append] at heq
  cases hbuffer : q.buffer with
  | cons u rest =>
      have ho' : o = some u := by simpa [upcoming, hbuffer, eq_comm] using hq
      have hnext : p.Takes [.token u] { q with buffer := rest } :=
        ⟨pulled, hreads, by rw [heq, hbuffer, List.map_cons, List.singleton_append]⟩
      rw [ho']
      exact hnext.upcoming_cons ho
  | nil =>
      rw [hbuffer, List.map_nil, List.append_eq_nil_iff, List.map_eq_nil_iff] at heq
      obtain ⟨hempty, rfl⟩ := heq
      simp only [upcoming, hbuffer, hempty] at hq ⊢
      rw [← hreads.nextVisible_nil ho, hq]

end Parser

end Stencil
