/-
**Texts, outputs and bodies are read back.**

The reader of nodes takes one after the other, up to the end of the template or to a tag that may
follow the body it reads.  A text and an output are taken as they are; what a tag is read as is left
to the statement that it opens.

Main definitions:

* `Stencil.Syntax.Stops` — where a body ends;
* `Stencil.Syntax.Opens` — pieces of a node that is read after others.

Main results:

* `Stencil.Syntax.Opens.text`, `Stencil.Syntax.Opens.output`, `Stencil.Syntax.Opens.statement` —
  nodes;
* `Stencil.Syntax.reads_body` — the body of a statement, up to the tag after it;
* `Stencil.Syntax.ofSource_written` — a whole template.
-/

import Stencil.Proofs.Printing.Operators

set_option autoImplicit false

namespace Stencil

namespace Syntax

open Piece (word)
open Parse

/-! ### Pieces of tags -/

/-- The start of a tag. -/
def opening : Piece := ⟨.blockStart, "\x7b%"⟩

/-- The end of a tag. -/
def closing : Piece := ⟨.blockEnd, "%\x7d"⟩

/-- A tag with what stands in it. -/
def tag (ts : List Piece) : List Piece := opening :: (ts ++ [closing])

/-- The start of an output. -/
def printing : Piece := ⟨.variableStart, "\x7b\x7b"⟩

/-- An output with what stands in it. -/
def printed (ts : List Piece) : List Piece := printing :: (ts ++ [⟨.variableEnd, "\x7d\x7d"⟩])

/-- A text may stand before a tag, before an output and at the end. -/
def NoText (ts : List Piece) : Prop := ∀ t ∈ ts.head?, t = opening ∨ t = printing

/-- What can stand in a tag is followed by the end of the tag or of an output. -/
theorem lexes_append {ts us : List Piece} (h : Inside ts) (hus : Piece.Lexes true us) :
    Piece.Lexes true (ts ++ us) := by
  induction ts with
  | nil => exact hus
  | cons t ts ih =>
      obtain ⟨ht, hts⟩ := List.forall_mem_cons.1 h
      exact .inr (.inr ⟨ht, ih hts⟩)

theorem lexes_tag {ts us : List Piece} (h : Inside ts) (hus : Piece.Lexes false us) :
    Piece.Lexes false (tag ts ++ us) := by
  rw [tag, List.cons_append, List.append_assoc]
  exact ⟨rfl, lexes_append h (.inl ⟨rfl, hus⟩)⟩

theorem lexes_printed {ts us : List Piece} (h : Inside ts) (hus : Piece.Lexes false us) :
    Piece.Lexes false (printed ts ++ us) := by
  rw [printed, List.cons_append, List.append_assoc]
  exact ⟨rfl, lexes_append h (.inr (.inl ⟨rfl, hus⟩))⟩

theorem lexes_text {s : String} {us : List Piece} (hne : s ≠ "") (hs : '\x7b' ∉ s.toList)
    (hus : Piece.Lexes false us) (htext : NoText us) : Piece.Lexes false (⟨.data, s⟩ :: us) :=
  ⟨hne, hs, fun t ht => by rcases htext t ht with rfl | rfl <;> decide, hus⟩

end Syntax

/-! ### One node after others -/

/-- A parser that is told to trim nothing. -/
theorem Parser.Holds.keep {p : Parser} {ts : List Piece} {trim : Bool} (h : p.Holds ts)
    (htrim : trim = false) : Parser.Holds { p with trimNext := trim } ts := by
  obtain ⟨_, later, hlater, hts⟩ := h
  exact ⟨htrim, later, hlater, hts⟩

/-- A parser with other tags open. -/
theorem Parser.Holds.reopen {p : Parser} {ts : List Piece} (h : p.Holds ts)
    (opened : List OpenTag) : Parser.Holds { p with opened := opened } ts := by
  obtain ⟨htrim, later, hlater, hts⟩ := h
  exact ⟨htrim, later, hlater, hts⟩

namespace Parse

/-- An action that succeeds needs no handler. -/
theorem Reads.tryCatch {α : Type} {x : Parse α} {f : TemplateError → Parse α} {ts rest : List Piece}
    {Q : α → Prop} (h : Reads x ts Q rest) : Reads (tryCatch x f) ts Q rest := by
  intro p hp
  obtain ⟨a, q, hxp, ha, hq⟩ := h p hp
  refine ⟨a, q, ?_, ha, hq⟩
  simp only [MonadExcept.tryCatch, tryCatchThe, MonadExceptOf.tryCatch, ExceptT.tryCatch, ExceptT.mk,
    Bind.bind, StateT.bind, hxp]
  rfl

/-- A token that is looked at, and is there. -/
theorem Reads.peek_cons {t : Piece} {ts : List Piece} :
    Reads (Parse.peek 0) (t :: ts) (fun a => ∃ token : Token, a = some token ∧ token.piece = t)
      (t :: ts) :=
  (Reads.peek 0).mono fun _ h => Option.map_eq_some_iff.1 h

/-- The end of a tag. -/
theorem Reads.blockEnd (name : String) {ts : List Piece} :
    Reads (Parse.blockEnd name) (Syntax.closing :: ts) (fun _ => True) ts := by
  refine Reads.next.bind ?_
  rintro _ ⟨⟨_, _, p⟩, rfl, ⟨⟩⟩
  refine .ifPos rfl ((Reads.modify fun q hq => hq.keep ?_).bind fun _ _ => .pure trivial)
  simp [Token.startsDashed]

/-- The name of a tag and its end. -/
theorem Reads.finish (name : String) {ts : List Piece} :
    Reads (Parse.finish name) (Piece.word name :: Syntax.closing :: ts) (fun _ => True) ts :=
  (Reads.expect (t := .word name) _ rfl).ignore.bind fun _ _ => .blockEnd name

end Parse

namespace Syntax

open Piece (word)
open Parse

variable {hosts : List TagReader} {depth : Nat} {ts us rest : List Piece} {n : Node}
  {ns : List Node} {names : List String}

/-- Where a body ends: with the template, or with a tag that may follow it. -/
def Stops (names : List String) (ts : List Piece) : Prop :=
  ts = [] ∨ ∃ name us, ts = opening :: word name :: us ∧ name ∈ names

/-- The pieces of a node that is read after others. -/
def Opens (g : Grammar) (hosts : List TagReader) (names : List String) (ts : List Piece) (n : Node)
    (rest : List Piece) : Prop :=
  ∀ nodes, Reads (nodeStep g hosts names nodes) (ts ++ rest)
    (fun r => ∃ n', r = .inl (nodes ++ [n']) ∧ n'.bare = n) rest

/-- A text before which and after which nothing is trimmed. -/
theorem reads_text {token : Token} (hne : token.value ≠ "") (hrest : NoText rest) :
    Reads (text token) (token.piece :: rest)
      (fun ns => ∃ n, ns = [n] ∧ n.bare = .output .start (.text .start token.value)) rest := by
  refine Reads.next.ignore.bind fun _ _ => Reads.get.bind fun q hq => ?_
  rw [hq.1]
  refine (Reads.modify fun q hq => hq.keep rfl).bind fun _ _ => ?_
  have htrims : Reads nextTrims rest (· = false) rest := by
    refine Reads.get.bind fun q _ => (Reads.peek 0).bind fun token htoken => ?_
    rw [← List.head?_eq_getElem?] at htoken
    cases token with
    | none => exact .pure rfl
    | some token =>
        obtain ⟨kind, value, p⟩ := token
        rcases hrest _ htoken.symm with h | h <;> cases h <;> exact .pure (by simp [Token.endsDashed])
  refine htrims.bindEq (.ifNeg (by simpa using hne) (.pure ⟨_, rfl, ?_⟩))
  simp [Node.output, Node.bare]

/-- A text. -/
theorem Opens.text {g : Grammar} {s : String} (hne : s ≠ "") (hrest : NoText rest) :
    Opens g hosts names [⟨.data, s⟩] (.output .start (.text .start s)) rest := by
  intro nodes
  refine Reads.peek_cons.bind ?_
  rintro _ ⟨token, rfl, heq⟩
  have hkind : token.kind = .data := congrArg Piece.kind heq
  obtain rfl : token.value = s := congrArg Piece.value heq
  rw [← heq]
  dsimp only
  rw [hkind]
  refine (reads_text hne hrest).bind ?_
  rintro _ ⟨n, rfl, hn⟩
  exact .pure ⟨n, rfl, hn⟩

/-- An output. -/
theorem Opens.output (h : Phrase (.tied hosts depth) .choice ts n) :
    Opens (.tied hosts (depth + 1)) hosts names (printed ts) (.output .start n) rest := by
  intro nodes
  rw [printed, List.cons_append, List.append_assoc]
  refine Reads.peek_cons.bind ?_
  rintro _ ⟨⟨_, _, p⟩, rfl, ⟨⟩⟩
  refine Reads.bind (Q := fun n' => n'.bare = .output .start n) ?_ fun n' hn => .pure ⟨n', rfl, hn⟩
  refine Reads.next.ignore.bind fun _ _ => (h _ (.cons_none rfl)).bind fun n' hn => ?_
  refine (Reads.modify fun q hq => hq.keep rfl).bind fun _ _ => ?_
  refine (Reads.expect _ rfl).bind fun token htoken => ?_
  have hdash : token.startsDashed = false := by
    have hvalue : token.value = "\x7d\x7d" := congrArg Piece.value htoken
    simp [Token.startsDashed, hvalue]
  rw [hdash]
  exact .pure (by simp [Node.output, Node.bare, hn])

/-- A statement, in its tag. -/
theorem Opens.statement {g : Grammar} {name : String} (hname : name ∉ names)
    (h : Reads (statement g hosts) (word name :: (ts ++ rest)) (fun n' => n'.bare = n) rest) :
    Opens g hosts names (opening :: word name :: ts) n rest := by
  intro nodes
  refine Reads.peek_cons.bind ?_
  rintro _ ⟨⟨_, _, p⟩, rfl, ⟨⟩⟩
  refine (Reads.modify fun q hq => hq.keep rfl).bind fun _ _ => ?_
  refine (Reads.peek 1).bind fun token htoken => ?_
  have hends : (token.any fun t => decide (t.kind = .symbol) && names.contains t.value) = false := by
    obtain ⟨token, rfl, heq⟩ := Option.map_eq_some_iff.1 htoken
    obtain ⟨hkind, hvalue⟩ := Piece.mk.inj heq
    simp [hvalue, hname]
  rw [hends]
  exact Reads.next.ignore.bind fun _ _ => h.bind fun n' hn => .pure ⟨n', rfl, hn⟩

/-- Where a body ends, the reader of nodes does. -/
theorem Stops.loops {g : Grammar} {nodes : List Node} {Q : List Node → Prop}
    (h : Stops names rest) (hnodes : Q nodes) :
    Loops (nodeStep g hosts names) nodes rest Q rest := by
  refine .done ?_
  rcases h with rfl | ⟨name, us, rfl, hname⟩
  · refine (Reads.peek 0).bind fun token htoken => ?_
    obtain rfl := Option.map_eq_none_iff.1 htoken
    exact .pure ⟨nodes, rfl, hnodes⟩
  · refine Reads.peek_cons.bind ?_
    rintro _ ⟨⟨_, _, p⟩, rfl, ⟨⟩⟩
    refine (Reads.modify fun q hq => hq.keep rfl).bind fun _ _ => ?_
    refine (Reads.peek 1).bind fun token htoken => ?_
    have hends : (token.any fun t => decide (t.kind = .symbol) && names.contains t.value) = true := by
      obtain ⟨token, rfl, heq⟩ := Option.map_eq_some_iff.1 htoken
      obtain ⟨hkind, hvalue⟩ := Piece.mk.inj heq
      simp [hkind, hvalue, hname]
    rw [hends]
    exact .pure ⟨nodes, rfl, hnodes⟩

/-! ### Bodies and templates -/

/-- The pieces of nodes that are read after others, up to where their body ends. -/
def Nested (g : Grammar) (hosts : List TagReader) (ts : List Piece) (ns : List Node) : Prop :=
  ∀ names rest nodes, (∀ name ∈ names, isClosingTag name = true) → Stops names rest →
    Loops (nodeStep g hosts names) nodes (ts ++ rest)
      (fun ns' => ns'.map Node.bare = nodes.map Node.bare ++ ns) rest

/-- No nodes. -/
theorem Nested.nil (g : Grammar) (hosts : List TagReader) : Nested g hosts [] [] :=
  fun _ _ _ _ hstops => hstops.loops (List.append_nil _).symm

/-- The pieces of a node of a body, whatever follows it. -/
theorem Nested.cons {g : Grammar} (h : Nested g hosts us ns) (hne : ts ≠ [])
    (hopens : ∀ names rest, (∀ name ∈ names, isClosingTag name = true) → Stops names rest →
      Opens g hosts names ts n (us ++ rest)) : Nested g hosts (ts ++ us) (n :: ns) := by
  intro names rest nodes hnames hstops
  rw [List.append_assoc]
  have hlt : (us ++ rest).length < (ts ++ (us ++ rest)).length := by
    simp [List.length_pos_iff.2 hne]
  refine .again (us ++ rest) hlt (P := fun nodes' => nodes'.map Node.bare = nodes.map Node.bare ++ [n])
    ((hopens names rest hnames hstops nodes).mono ?_) fun nodes' hnodes => ?_
  · rintro _ ⟨n', rfl, hn⟩
    exact ⟨_, rfl, by simp [hn]⟩
  · refine (h names rest nodes' hnames hstops).mono fun ns' hns => ?_
    rw [hns, hnodes, List.append_assoc, List.singleton_append]

/-- **The body of a statement**, up to the name of the tag after it. -/
theorem reads_body {opener : Token} {name : String} (h : Nested (.tied hosts depth) hosts ts ns)
    (hnames : ∀ name ∈ names, isClosingTag name = true) (hname : name ∈ names) :
    Reads (body (.tied hosts (depth + 1)) opener names) (ts ++ opening :: word name :: rest)
      (fun r => r.1.bare = .sequence .start ns ∧ r.2 = name) (word name :: rest) := by
  have hnodes := Reads.iterate (h names _ [] hnames (.inr ⟨name, rest, rfl, hname⟩))
  refine (Reads.modify fun q hq => hq.reopen _).bind fun _ _ => ?_
  have hanswer : Reads (Except.ok <$> (Grammar.tied hosts (depth + 1)).nodes names)
      (ts ++ opening :: word name :: rest)
      (fun r : Except TemplateError (List Node) => ∃ ns', r = .ok ns' ∧ ns'.map Node.bare = ns)
      (opening :: word name :: rest) :=
    Reads.map (x := Parse.nodes (.tied hosts depth) hosts names) hnodes fun ns' hns => ⟨ns', rfl, hns⟩
  refine hanswer.tryCatch.bind ?_
  rintro _ ⟨ns', rfl, hns⟩
  refine (Reads.modify fun q hq => hq.reopen _).bind fun _ _ => ?_
  refine (Reads.known ns').bindEq (Reads.next.bind ?_)
  rintro _ ⟨⟨_, _, p⟩, rfl, ⟨⟩⟩
  refine .ifPos rfl (Reads.peek_cons.bind ?_)
  rintro _ ⟨token, rfl, heq⟩
  exact .pure ⟨by simp [Node.sequence, Node.bare, hns], congrArg Piece.value heq⟩

/-- An action with the grammar tied as often as the parser needs. -/
theorem reads_run {α : Type} {action : Grammar → Parse α} {Q : α → Prop}
    (h : ∀ depth, ts.length ≤ depth → Reads (action (.tied hosts (depth + 1))) ts Q rest) :
    Reads (run hosts action) ts Q rest :=
  fun p hp => h p.size hp.length_lt.le p hp

/-- **A template that is written from pieces** has the tree that they are read for. -/
theorem ofSource_written (hts : Piece.Lexes false ts)
    (h : ∀ depth, ts.length ≤ depth → Nested (.tied hosts (depth + 1)) hosts ts ns) :
    (Node.ofSource .standard hosts (String.ofList (Piece.writtenAll ts))).map Node.bare =
      .ok (.group .root .start ns) := by
  have hread : Reads (Parse.template hosts) ts (fun n => n.bare = .group .root .start ns) [] := by
    refine (reads_run (Q := fun ns' => ns'.map Node.bare = ns) fun depth hdepth => ?_).bind
      fun ns' hns => .pure (by simp [Node.bare, hns])
    have hloops := h depth hdepth [] [] [] (fun _ hname => by cases hname) (.inl rfl)
    rw [List.append_nil] at hloops
    exact .iterate hloops
  have hyields : (Lexer.ofString .standard (String.ofList (Piece.writtenAll ts))).Yields ts := by
    rw [Lexer.ofString, String.toList_ofList]
    exact Lexer.yields_written hts .start
  obtain ⟨n, p, heq, hn, _⟩ := hread (.ofString .standard (String.ofList (Piece.writtenAll ts)))
    ⟨rfl, ts, hyields, rfl⟩
  rw [Node.ofSource, heq, Except.map, hn]

end Syntax

end Stencil
