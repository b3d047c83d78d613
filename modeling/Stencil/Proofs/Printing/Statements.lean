/-
**Statements are read back.**

The reader of a statement takes its tag and, if it has one, the body up to the tag that ends it.
Each statement is a lemma over what is known of the expressions and bodies in it; the induction over
a template puts them together.

Main definitions:

* `Stencil.Syntax.Ending` — what follows the body of a condition, up to the end of the condition.

Main results:

* `Stencil.Syntax.reads_branch`, `Stencil.Syntax.reads_loop` and so on — statements;
* `Stencil.Syntax.Body.nested` — **what is printed of a body is read for its nodes**;
* `Stencil.Syntax.Body.ofSource_source` — a printed template has the tree of its body.
-/

import Stencil.Proofs.Printing.Roundtrip
import Stencil.Proofs.Printing.Templates

set_option autoImplicit false

namespace Stencil.Syntax

open Piece (mark word)
open Parse

section Tied

variable {hosts : List TagReader} {depth : Nat} {ts us vs rest : List Piece} {n : Node}
  {ns : List Node} {Q : Node → Prop}

/-- An expression before the end of a tag. -/
theorem Phrase.closed (h : Phrase (.tied hosts depth) .choice ts n) (name : String) {α : Type}
    {f : Node → Parse α} {R : α → Prop} (hf : ∀ n', n'.bare = n → Reads (f n') us R rest) :
    Reads (do
      let n ← (Grammar.tied hosts (depth + 1)).expression
      discard <| blockEnd name
      f n) (ts ++ closing :: us) R rest :=
  (h _ (.cons_none rfl)).bind fun n' hn => (Reads.blockEnd name).ignore.bind fun _ _ => hf n' hn

/-! ### Conditions -/

/-- What follows the body of a condition, up to the end of the condition. -/
def Ending (g : Grammar) (ts : List Piece) (n : Option Node) : Prop :=
  ∃ name us, ts = opening :: word name :: us ∧ name ∈ ["elif", "elseif", "else", "endif"] ∧
    ∀ (token : Token) (condition body : Node) (rest : List Piece),
      Reads (branchEnd g token condition body name) (word name :: (us ++ rest))
        (fun n' => n'.bare = .branch .start (token.value == "ifAsync") condition.bare body.bare n) rest

theorem Ending.nothing {g : Grammar} : Ending g (tag [word "endif"]) none := by
  refine ⟨"endif", [closing], rfl, by decide, fun token condition body rest => ?_⟩
  rw [branchEnd, if_neg (by decide), if_neg (by decide)]
  exact (Reads.finish "endif").ignore.bind fun _ _ => .pure (by simp [Node.bare])

theorem Ending.last (h : Nested (.tied hosts depth) hosts ts ns) :
    Ending (.tied hosts (depth + 1)) (tag [word "else"] ++ (ts ++ tag [word "endif"]))
      (some (.sequence .start ns)) := by
  refine ⟨"else", closing :: (ts ++ tag [word "endif"]), rfl, by decide,
    fun token condition body rest => ?_⟩
  rw [branchEnd, if_neg (by decide), if_pos rfl, List.cons_append, List.append_assoc]
  refine (Reads.finish "else").ignore.bind fun _ _ => ?_
  refine (reads_body h (by decide) (by decide)).bind fun r hr => ?_
  exact (Reads.finish "endif").ignore.bind fun _ _ => .pure (by simp [Node.bare, hr.1])

/-- A further condition, which shares the end with the one before it. -/
theorem Ending.elif (h : ∀ rest, Reads (branch (.tied hosts depth)) (word "elif" :: (ts ++ rest))
      (fun n' => n'.bare = n) rest) :
    Ending (.tied hosts (depth + 1)) (opening :: word "elif" :: ts) (some n) := by
  refine ⟨"elif", _, rfl, by decide, fun token condition body rest => ?_⟩
  rw [branchEnd, if_pos (.inl rfl)]
  refine Reads.bind (x := some <$> branch (.tied hosts depth))
    (Q := fun n' => n'.map Node.bare = some n) ((h rest).map fun n' hn => by simp [hn]) ?_
  exact fun n' hn => .pure (by simp [Node.bare, hn])

/-- **A condition**, with what follows its body. -/
theorem reads_branch (name : String) {m : Option Node} (h : Phrase (.tied hosts depth) .choice ts n)
    (hbody : Nested (.tied hosts depth) hosts us ns) (hend : Ending (.tied hosts (depth + 1)) vs m)
    (rest : List Piece) :
    Reads (branch (.tied hosts (depth + 1))) (word name :: (ts ++ closing :: (us ++ (vs ++ rest))))
      (fun n' => n'.bare = .branch .start (name == "ifAsync") n (.sequence .start ns) m) rest := by
  obtain ⟨last, ws, rfl, hlast, hend⟩ := hend
  rw [branch_eq]
  refine (Reads.expect _ rfl).bind fun token htoken => ?_
  refine h.closed _ fun condition hcondition => ?_
  refine (reads_body hbody (by decide) hlast).bind ?_
  rintro ⟨body, _⟩ ⟨hbody, rfl⟩
  refine (hend token condition body rest).mono fun n' hn => ?_
  obtain rfl : token.value = name := congrArg Piece.value htoken
  rw [hn, hcondition, hbody]

/-! ### Loops -/

/-- Names after some. -/
theorem loops_names (what : String) (more : List Name) (names : List Node)
    (hrest : ∀ t ∈ rest.head?, t.kind ≠ .comma) :
    Loops (nameStep what) names ((more.flatMap fun y => [mark ",", word y.text]) ++ rest)
      (fun ns => ns.map Node.bare = names.map Node.bare ++ nameNodes more) rest := by
  induction more generalizing names with
  | nil => exact .done ((Reads.skip_false hrest).bindEq (.pure ⟨names, rfl, (List.append_nil _).symm⟩))
  | cons y more ih =>
      refine .again ((more.flatMap fun y => [mark ",", word y.text]) ++ rest)
        (P := fun ns => ns.map Node.bare = names.map Node.bare ++ [.symbol .start y.text])
        (by grind) ?_ fun ns hns => (ih ns).mono fun ns' hns' => ?_
      · refine (Reads.skip_true rfl).bindEq (.ifPos rfl ((Reads.symbol what).bind ?_))
        rintro _ ⟨p, rfl⟩
        exact .pure ⟨_, rfl, by simp [Node.bare]⟩
      · rw [hns', hns, List.append_assoc]
        rfl

/-- Names with commas between them. -/
theorem reads_names {α : Type} {R : α → Prop} {f : List Node → Parse α} (what : String) (x : Name)
    (more : List Name) (hus : ∀ t ∈ us.head?, t.kind ≠ .comma)
    (hf : ∀ ns, ns.map Node.bare = nameNodes (x :: more) → Reads (f ns) us R rest) :
    Reads (do f (← moreNames what (← symbol what))) (namePieces x more ++ us) R rest := by
  refine (Reads.symbol what).bind ?_
  rintro _ ⟨p, rfl⟩
  rw [moreNames_eq]
  exact (Reads.iterate (loops_names what more _ hus)).bind hf

/-- The tags of a loop say what its mode is. -/
theorem loopMode_loopTags (mode : LoopMode) :
    loopMode (loopTags mode).1 = (mode, (loopTags mode).2) := by
  cases mode <;> decide

/-- What follows the body of a loop, up to the end of the loop. -/
def LoopEnding (g : Grammar) (endTag : String) (ts : List Piece) (n : Option Node) : Prop :=
  ∃ name us, ts = opening :: word name :: us ∧ name ∈ ["else", endTag] ∧
    ∀ (token : Token) (mode : LoopMode) (target source body : Node) (rest : List Piece),
      Reads (loopEnd g token mode endTag target source body name) (word name :: (us ++ rest))
        (fun n' => n'.bare = .loop .start mode source.bare target.bare body.bare n) rest

theorem LoopEnding.nothing {g : Grammar} {endTag : String} (h : endTag ≠ "else") :
    LoopEnding g endTag (tag [word endTag]) none := by
  refine ⟨endTag, [closing], rfl, by simp, fun token mode target source body rest => ?_⟩
  rw [loopEnd, if_neg h]
  exact (Reads.known none).bindEq ((Reads.finish endTag).ignore.bind fun _ _ =>
    .pure (by simp [Node.bare]))

theorem LoopEnding.last {endTag : String} (hclosing : isClosingTag endTag = true)
    (h : Nested (.tied hosts depth) hosts ts ns) :
    LoopEnding (.tied hosts (depth + 1)) endTag (tag [word "else"] ++ (ts ++ tag [word endTag]))
      (some (.sequence .start ns)) := by
  refine ⟨"else", closing :: (ts ++ tag [word endTag]), rfl, by simp,
    fun token mode target source body rest => ?_⟩
  rw [loopEnd, if_pos rfl, List.cons_append, List.append_assoc]
  refine (Reads.finish "else").ignore.bind fun _ _ => ?_
  refine (reads_body h (by simpa using hclosing) (List.mem_singleton_self _)).bind ?_
  rintro ⟨otherwise, _⟩ ⟨hotherwise, _⟩
  exact (Reads.known _).bindEq ((Reads.finish endTag).ignore.bind fun _ _ =>
    .pure (by simp [Node.bare, hotherwise]))

/-- The target of a loop from its names. -/
theorem reads_target {p : Position} {names : List Node} {x : Name} {more : List Name}
    {f : Node → Parse Node} (h : names.map Node.bare = nameNodes (x :: more))
    (hf : ∀ target : Node, target.bare = targetNode x more → Reads (f target) ts Q rest) :
    Reads (match names with
      | [one] => do f (← pure one)
      | names => do f (← pure (.group .array p names))) ts Q rest := by
  match names, more with
  | [], _ => cases h
  | [one], [] => exact (Reads.known one).bindEq (hf one (List.cons.inj h).1)
  | [_], _ :: _ => cases (List.cons.inj h).2
  | _ :: _ :: _, [] => cases (List.cons.inj h).2
  | one :: two :: names, y :: more =>
      refine (Reads.known (Node.group .array p (one :: two :: names))).bindEq (hf _ ?_)
      rw [Node.bare, Node.bareAll_eq_map, h]
      rfl

/-- **A loop**, with what follows its body. -/
theorem reads_loop (mode : LoopMode) (x : Name) (more : List Name) {m : Option Node}
    (h : Phrase (.tied hosts depth) .choice ts n) (hbody : Nested (.tied hosts depth) hosts us ns)
    (hend : LoopEnding (.tied hosts (depth + 1)) (loopTags mode).2 vs m) (rest : List Piece) :
    Reads (loop (.tied hosts (depth + 1)))
      (word (loopTags mode).1 :: (namePieces x more ++
        word "in" :: (ts ++ closing :: (us ++ (vs ++ rest)))))
      (fun n' => n'.bare = .loop .start mode n (targetNode x more) (.sequence .start ns) m) rest := by
  obtain ⟨last, ws, rfl, hlast, hend⟩ := hend
  have hnames : ∀ name ∈ ["else", (loopTags mode).2], isClosingTag name = true := by
    cases mode <;> decide
  rw [loop_eq]
  refine (Reads.expect _ rfl).bind fun token htoken => ?_
  rw [show token.value = (loopTags mode).1 from congrArg Piece.value htoken, loopMode_loopTags]
  refine reads_names _ x more (by rintro _ ⟨⟩; decide) fun names hx => ?_
  refine reads_target hx fun target htarget => ?_
  refine Reads.skipValue_true.bindEq ?_
  refine h.closed _ fun source hsource => ?_
  refine (reads_body hbody hnames hlast).bind ?_
  rintro ⟨body, _⟩ ⟨hbody, rfl⟩
  refine (hend token mode target source body rest).mono fun n' hn => ?_
  rw [hn, hsource, htarget, hbody]

/-! ### Assignments -/

/-- **An assignment of a value.** -/
theorem reads_assign (x : Name) (more : List Name) (h : Phrase (.tied hosts depth) .choice ts n)
    (rest : List Piece) :
    Reads (assign (.tied hosts (depth + 1)))
      (word "set" :: (namePieces x more ++ mark "=" :: (ts ++ closing :: rest)))
      (fun n' => n'.bare = .assign .start (nameNodes (x :: more)) (some n) none) rest := by
  refine (Reads.expect _ rfl).bind fun token _ => ?_
  refine reads_names _ x more (by rintro _ ⟨⟩; decide) fun names hx => ?_
  refine Reads.skipValue_true.bindEq ?_
  refine h.closed _ fun value hvalue => .pure ?_
  simp [Node.bare, hx, hvalue]

/-- **An assignment of a body.** -/
theorem reads_capture (x : Name) (more : List Name) (h : Nested (.tied hosts depth) hosts ts ns)
    (rest : List Piece) :
    Reads (assign (.tied hosts (depth + 1)))
      (word "set" :: (namePieces x more ++ closing :: (ts ++ (tag [word "endset"] ++ rest))))
      (fun n' => n'.bare =
        .assign .start (nameNodes (x :: more)) none (some (.capture .start (.sequence .start ns))))
      rest := by
  refine (Reads.expect _ rfl).bind fun token _ => ?_
  refine reads_names _ x more (by rintro _ ⟨⟩; decide) fun names hx => ?_
  refine (Reads.skipValue_false (by simp [closing])).bindEq ?_
  refine (Reads.peekKind 0).bindEq (.ifPos rfl ?_)
  refine (Reads.blockEnd _).ignore.bind fun _ _ => ?_
  refine (reads_body h (by decide) (by decide)).bind ?_
  rintro ⟨body, _⟩ ⟨hbody, _⟩
  exact (Reads.finish _).ignore.bind fun _ _ => .pure (by simp [Node.bare, hx, hbody])

/-! ### Inheritance -/

/-- **A block**, with its name once more at its end or without it. -/
theorem reads_block (x : Name) (again : Bool) (h : Nested (.tied hosts depth) hosts ts ns)
    (rest : List Piece) :
    Reads (block (.tied hosts (depth + 1)))
      (word "block" :: word x.text :: closing ::
        (ts ++ (tag (word "endblock" :: if again then [word x.text] else []) ++ rest)))
      (fun n' => n'.bare = .block .start x.text (.sequence .start ns)) rest := by
  refine (Reads.expect _ rfl).bind fun token _ => ?_
  refine (Reads.expect _ rfl).bind fun name hname => ?_
  rw [show name.value = x.text from congrArg Piece.value hname]
  refine (Reads.blockEnd _).ignore.bind fun _ _ => ?_
  refine (reads_body h (by decide) (by decide)).bind ?_
  rintro ⟨body, _⟩ ⟨hbody, _⟩
  refine (Reads.expect (t := word "endblock") _ rfl).ignore.bind fun _ _ => ?_
  have hdone : Reads (do
      discard <| blockEnd "endblock"
      return Node.block token.position x.text body) (closing :: rest)
      (fun n' => n'.bare = .block .start x.text (.sequence .start ns)) rest :=
    (Reads.blockEnd _).ignore.bind fun _ _ => .pure (by simp [Node.bare, hbody])
  cases again with
  | true => exact (Reads.skipValue_true).ignore.bind fun _ _ => hdone
  | false => exact (Reads.skipValue_false (by simp [closing])).ignore.bind fun _ _ => hdone

/-- **The template that is extended.** -/
theorem reads_extend (h : Phrase (.tied hosts depth) .choice ts n) (rest : List Piece) :
    Reads (extend (.tied hosts (depth + 1))) (word "extends" :: (ts ++ closing :: rest))
      (fun n' => n'.bare = .extend .start n) rest := by
  refine (Reads.expect _ rfl).bind fun token _ => ?_
  exact h.closed _ fun template htemplate => .pure (by simp [Node.bare, htemplate])

/-- **A template that is rendered in place.** -/
theorem reads_embed (ignoreMissing : Bool) (h : Phrase (.tied hosts depth) .choice ts n)
    (rest : List Piece) :
    Reads (embed (.tied hosts (depth + 1)))
      (word "include" :: (ts ++ ((if ignoreMissing then [word "ignore", word "missing"] else []) ++
        closing :: rest)))
      (fun n' => n'.bare = .embed .start n ignoreMissing) rest := by
  refine (Reads.expect _ rfl).bind fun token _ => ?_
  cases ignoreMissing with
  | true =>
      refine (h _ (.cons_none rfl)).bind fun template htemplate => ?_
      refine Reads.skipValue_true.bindEq (Reads.skipValue_true.bindEq ?_)
      exact (Reads.blockEnd _).ignore.bind fun _ _ => .pure (by simp [Node.bare, htemplate])
  | false =>
      refine (h _ (.cons_none rfl)).bind fun template htemplate => ?_
      refine (Reads.skipValue_false (by simp [closing])).bindEq ?_
      exact (Reads.blockEnd _).ignore.bind fun _ _ => .pure (by simp [Node.bare, htemplate])

/-! ### Imports -/

/-- The choice of the context of an import, if it is there. -/
theorem reads_context (withContext : Bool)
    (hrest : ∀ t ∈ rest.head?, t ≠ word "with" ∧ t ≠ word "without") :
    Reads context? (contextPieces withContext ++ rest)
      (· = if withContext then some true else none) rest := by
  cases withContext with
  | true =>
      refine (Reads.peekIs_true rfl).bindEq ((Reads.peekIs_false (by simp [contextPieces, word])).bindEq ?_)
      refine .ifPos rfl ((Reads.known (some true)).bindEq (.ifPos rfl ?_))
      exact Reads.next.ignore.bind fun _ _ => Reads.skipValue_true.bindEq (.pure rfl)
  | false =>
      have hwith : rest[0]? ≠ some (word "with") := by
        rw [← List.head?_eq_getElem?]
        exact fun heq => (hrest _ heq).1 rfl
      have hwithout : rest[0]? ≠ some (word "without") := by
        rw [← List.head?_eq_getElem?]
        exact fun heq => (hrest _ heq).2 rfl
      refine (Reads.peekIs_false hwith).bindEq ((Reads.peekIs_false hwithout).bindEq ?_)
      exact (Reads.known none).bindEq (.pure rfl)

/-- **The import of a template under a name.** -/
theorem reads_importAll (x : Name) (withContext : Bool) (h : Phrase (.tied hosts depth) .choice ts n)
    (rest : List Piece) :
    Reads (importAll (.tied hosts (depth + 1)))
      (word "import" :: (ts ++ word "as" :: word x.text ::
        (contextPieces withContext ++ closing :: rest)))
      (fun n' => n'.bare = .importAll .start n x.text withContext) rest := by
  refine (Reads.expect _ rfl).bind fun token _ => ?_
  refine (h _ (.cons_none rfl)).bind fun template htemplate => ?_
  refine Reads.skipValue_true.bindEq ?_
  refine (Reads.expect _ rfl).bind fun name hname => ?_
  refine (reads_context withContext (by rintro _ ⟨⟩; decide)).bindEq ?_
  refine (Reads.blockEnd _).ignore.bind fun _ _ => .pure ?_
  rw [Node.bare, htemplate, show name.value = x.text from congrArg Piece.value hname]
  cases withContext <;> rfl

/-- A name that is imported. -/
theorem reads_importName (a : Import) (hrest : rest.head? ≠ some (word "as")) :
    Reads importName (a.pieces ++ rest) (· = a.imported) rest := by
  refine (Reads.expect _ rfl).bind fun token htoken => ?_
  have hvalue : token.value = a.name.text := congrArg Piece.value htoken
  rw [hvalue]
  refine .ifNeg a.name.isPublic ?_
  obtain ⟨name, newName⟩ := a
  cases newName with
  | none =>
      refine (Reads.skipValue_false hrest).bindEq ((Reads.known none).bindEq (.pure rfl))
  | some x =>
      refine Reads.skipValue_true.bindEq (.ifPos rfl ?_)
      refine (Reads.expect _ rfl).bind fun token htoken => ?_
      have hvalue : token.value = x.text := congrArg Piece.value htoken
      rw [hvalue]
      exact (Reads.known _).bindEq (.pure rfl)

/-- One more name that is imported, with the choice of the context after the last. -/
theorem reads_importStep (a : Import) (withContext : Bool) (read : List ImportName × Option Bool)
    (rest : List Piece) (hrest : ∀ t ∈ rest.head?, t ≠ word "as" ∧ t ≠ word "with" ∧ t ≠ word "without") :
    Reads (importStep read) ((if read.1.isEmpty then [] else [mark ","]) ++
        (a.pieces ++ (contextPieces withContext ++ rest)))
      (· = .inl (read.1 ++ [a.imported], if withContext then some true else read.2)) rest := by
  have has : (contextPieces withContext ++ rest).head? ≠ some (word "as") := by
    cases withContext with
    | true => simp [contextPieces, word]
    | false => exact fun heq => (hrest _ heq).1 rfl
  have hone : Reads (do
      let name ← importName
      let choice ← context?
      return .inl (read.1 ++ [name], choice.orElse fun _ => read.2))
      (a.pieces ++ (contextPieces withContext ++ rest))
      (· = (.inl (read.1 ++ [a.imported], if withContext then some true else read.2) :
        (List ImportName × Option Bool) ⊕ (List ImportName × Option Bool))) rest := by
    refine (reads_importName a has).bindEq ?_
    refine (reads_context withContext fun t ht => (hrest t ht).2).bindEq (.pure ?_)
    cases withContext <;> rfl
  cases hempty : read.1.isEmpty with
  | true =>
      refine (Reads.peekKind 0).bindEq (.ifNeg (by simp [Import.pieces, word]) ?_)
      rw [hempty]
      exact hone
  | false =>
      refine (Reads.peekKind 0).bindEq (.ifNeg (by simp [mark, Lexeme.punctuationKind]) ?_)
      rw [hempty]
      exact (Reads.expect (t := mark ",") _ rfl).ignore.bind fun _ _ => hone

/-- The names that are imported are read one by one. -/
theorem loops_imports (a : Import) (more : List Import) (withContext : Bool) (names : List ImportName)
    (rest : List Piece) :
    Loops importStep (names, none) ((if names.isEmpty then [] else [mark ","]) ++
        (importPieces a more ++ (contextPieces withContext ++ closing :: rest)))
      (· = (names ++ (a :: more).map Import.imported, if withContext then some true else none)) rest := by
  induction more generalizing a names with
  | nil =>
      rw [importPieces, List.flatMap_nil, List.append_nil]
      refine .again (closing :: rest)
        (P := (· = (names ++ [a.imported], if withContext then some true else none))) ?_
        ((reads_importStep a withContext (names, none) _ (by rintro _ ⟨⟩; decide)).mono ?_) ?_
      · simp [Import.pieces]
        omega
      · rintro _ rfl
        exact ⟨_, rfl, rfl⟩
      · rintro _ rfl
        have hne : (names ++ [a.imported]).isEmpty = false := by simp
        refine .done ((Reads.peekKind 0).bindEq (.ifPos rfl ?_))
        rw [hne]
        exact (Reads.blockEnd _).ignore.bind fun _ _ => .pure ⟨_, rfl, rfl⟩
  | cons b more ih =>
      have hread := ih b (names ++ [a.imported])
      rw [if_neg (by simp), List.append_assoc] at hread
      have hpieces : importPieces a (b :: more) = a.pieces ++ (mark "," :: importPieces b more) := by
        simp [importPieces]
      rw [hpieces, List.append_assoc, List.cons_append]
      have hstep := reads_importStep a false (names, none)
        (mark "," :: (importPieces b more ++ (contextPieces withContext ++ closing :: rest)))
        (by rintro _ ⟨⟩; decide)
      refine .again _ ?_ (hstep.mono fun r hr => ⟨(names ++ [a.imported], none), hr, rfl⟩) ?_
      · simp [Import.pieces]
        omega
      · rintro _ rfl
        exact hread

/-- **The import of names of a template.** -/
theorem reads_importNames (a : Import) (more : List Import) (withContext : Bool)
    (h : Phrase (.tied hosts depth) .choice ts n) (rest : List Piece) :
    Reads (importNames (.tied hosts (depth + 1)))
      (word "from" :: (ts ++ word "import" ::
        (importPieces a more ++ (contextPieces withContext ++ closing :: rest))))
      (fun n' => n'.bare = .importNames .start n ((a :: more).map Import.imported) withContext) rest := by
  rw [importNames_eq]
  refine (Reads.expect _ rfl).bind fun token _ => ?_
  refine (h _ (.cons_none rfl)).bind fun template htemplate => ?_
  refine Reads.skipValue_true.bindEq ?_
  refine (Reads.iterate (loops_imports a more withContext [] rest)).bindEq (.pure ?_)
  rw [Node.bare, htemplate]
  cases withContext <;> rfl

/-! ### Arguments and parameters -/

/-- Arguments are read as they are printed. -/
theorem Arguments.reads (a : Arguments) (hdepth : a.pieces.length ≤ depth + 2) (rest : List Piece) :
    Reads (signature (.tied hosts (depth + 1))) (a.pieces ++ rest)
      (fun k => k.bare = .sequence .start a.nodes) rest := by
  simp only [pieces, parenthesized, List.length_cons, List.length_append, List.length_nil] at hdepth
  exact reads_signature (addsArguments (fun e _ => e.isRead hosts) (fun e _ => e.2.isRead hosts)
    (by omega))

/-- Whether a node can be a parameter. -/
def isParameter : Node → Bool
  | .symbol _ _ | .group .keywords _ _ => true
  | _ => false

theorem parameters_eq (g : Grammar) : parameters g = (do
    let parameters ← signature g
    match parameters.members.find? fun n => !isParameter n with
    | some n => failAt .parameterShape n.position
    | none => return parameters) := rfl

theorem isParameter_bare (n : Node) : isParameter n.bare = isParameter n := by
  cases n with
  | group kind p ns => cases kind <;> rfl
  | _ => rfl

/-- Parameters are names, and names with defaults. -/
theorem Parameters.isParameter (a : Parameters) : ∀ n ∈ a.arguments.nodes, isParameter n = true := by
  intro n hn
  rcases List.mem_append.1 hn with hn | hn
  · rw [Expression.nodes_eq_map, Parameters.arguments, List.map_map] at hn
    obtain ⟨x, _, rfl⟩ := List.mem_map.1 hn
    rfl
  · unfold keywordGroup at hn
    split at hn
    · cases hn
    · obtain rfl := List.mem_singleton.1 hn
      rfl

/-- Parameters are read as they are printed. -/
theorem Parameters.reads (a : Parameters) (hdepth : a.arguments.pieces.length ≤ depth + 2)
    (rest : List Piece) :
    Reads (parameters (.tied hosts (depth + 1))) (a.arguments.pieces ++ rest)
      (fun k => k.bare = .sequence .start a.arguments.nodes) rest := by
  rw [parameters_eq]
  refine (a.arguments.reads hdepth rest).bind fun k hk => ?_
  have hall : k.members.find? (fun n => !Syntax.isParameter n) = none := by
    refine List.find?_eq_none.2 fun n hn => ?_
    have hbare : n.bare ∈ a.arguments.nodes := by
      have hmem := List.mem_map_of_mem (f := Node.bare) hn
      rwa [← Node.members_bare, hk] at hmem
    rw [← isParameter_bare, a.isParameter _ hbare]
    decide
  rw [hall]
  exact .pure hk

/-! ### Macros -/

/-- **A macro.** -/
theorem reads_definition (x : Name) (a : Parameters)
    (hdepth : a.arguments.pieces.length ≤ depth + 2) (h : Nested (.tied hosts depth) hosts ts ns)
    (rest : List Piece) :
    Reads (definition (.tied hosts (depth + 1)))
      (word "macro" :: word x.text :: (a.arguments.pieces ++ closing ::
        (ts ++ (tag [word "endmacro"] ++ rest))))
      (fun n' => n'.bare = .definition .start .named x.text (.sequence .start a.arguments.nodes)
        (.sequence .start ns)) rest := by
  refine (Reads.expect _ rfl).bind fun token _ => ?_
  refine (Reads.expect _ rfl).bind fun name hname => ?_
  rw [show name.value = x.text from congrArg Piece.value hname]
  refine (a.reads hdepth _).bind fun k hk => ?_
  refine (Reads.blockEnd _).ignore.bind fun _ _ => ?_
  refine (reads_body h (by decide) (by decide)).bind ?_
  rintro ⟨body, _⟩ ⟨hbody, _⟩
  exact (Reads.finish _).ignore.bind fun _ _ => .pure (by simp [Node.bare, hk, hbody])

/-! ### Filters -/

/-- Arguments that may be left out are read where none follow. -/
theorem Arguments.reads_optional {f : List Node → Parse Node} (a : Arguments)
    (hdepth : a.optional.length ≤ depth + 2) (hus : ∀ t ∈ us.head?, t.kind ≠ .leftParen)
    (hf : ∀ more : List Node, more.map Node.bare = a.nodes → Reads (f more) us Q rest) :
    Reads (do
      let more ←
        if (← peekKind 0) = some .leftParen then
          pure (← signature (.tied hosts (depth + 1))).members
        else pure []
      f more) (a.optional ++ us) Q rest := by
  unfold optional at hdepth ⊢
  split
  · next hempty =>
      have hempty : a.positional = [] ∧ a.keywords = [] := by simpa using hempty
      refine (Reads.peekKind 0).bindEq (.ifNeg (fun heq => ?_) ((Reads.known []).bindEq (hf [] ?_)))
      · obtain ⟨t, ht, hkind⟩ := Option.map_eq_some_iff.1 heq
        exact hus t (List.head?_eq_getElem? ▸ ht) hkind
      · simp [nodes, hempty, keywordGroup, Expression.keywordNodes]
  · next hempty =>
    rw [if_neg hempty] at hdepth
    refine (Reads.peekKind 0).bindEq (.ifPos rfl ((a.reads hdepth us).bind fun k hk => ?_))
    refine (Reads.known k.members).bindEq (hf k.members ?_)
    rw [← Node.members_bare, hk]
    rfl

/-- **A filter that is applied to a body.** -/
theorem reads_filterBlock (x : Word) (members : List Word) (a : Arguments)
    (hdepth : a.optional.length ≤ depth + 2) (h : Nested (.tied hosts depth) hosts ts ns)
    (rest : List Piece) :
    Reads (filterBlock (.tied hosts (depth + 1)))
      (word "filter" :: (dotted x members ++ (a.optional ++ closing ::
        (ts ++ (tag [word "endfilter"] ++ rest)))))
      (fun n' => n'.bare = .output .start (.filter .start (dottedName x members)
        (.sequence .start (.capture .start (.sequence .start ns) :: a.nodes)))) rest := by
  refine (Reads.expect _ rfl).bind fun token _ => ?_
  refine (reads_filterName x members ?_).bindEq ?_
  · unfold Arguments.optional
    split <;> exact fun heq => by cases heq
  refine a.reads_optional hdepth (by rintro _ ⟨⟩; decide) fun more hmore => ?_
  refine (Reads.blockEnd _).ignore.bind fun _ _ => ?_
  refine (reads_body h (by decide) (by decide)).bind ?_
  rintro ⟨body, _⟩ ⟨hbody, _⟩
  refine (Reads.finish _).ignore.bind fun _ _ => .pure ?_
  simp [Node.output, Node.sequence, Node.bare, hbody, hmore]

/-! ### Calls with a body -/

/-- No expression is a list of keywords. -/
theorem Expression.node_ne_keywords (a : Expression) (ns : List Node) :
    a.node ≠ .group .keywords .start ns := by
  cases a with
  | relate op negated a b => cases negated <;> simp [node]
  | _ => simp [node]

/-- The caller is the last of the keywords, which are the last of the arguments. -/
theorem bare_withCaller (p : Position) (caller : Node) {members : List Node} (a : Arguments)
    (h : members.map Node.bare = a.nodes) :
    (withCaller p caller members).map Node.bare = Expression.nodes a.positional ++
      [.group .keywords .start (Expression.keywordNodes a.keywords ++
        [.pair .start (.symbol .start "caller") caller.bare])] := by
  unfold Arguments.nodes keywordGroup at h
  split at h
  · next hempty =>
    rw [List.append_nil] at h
    rw [List.isEmpty_iff.1 hempty, List.nil_append, ← h]
    unfold withCaller
    split
    · next q keywords hlast =>
      have hmem : (Node.group .keywords q keywords).bare ∈ Expression.nodes a.positional :=
        h ▸ List.mem_map_of_mem (List.mem_of_getLast? hlast)
      rw [Expression.nodes_eq_map] at hmem
      obtain ⟨e, _, he⟩ := List.mem_map.1 hmem
      exact absurd he (e.node_ne_keywords _)
    · simp [Node.bare]
  · obtain ⟨before, last, rfl, hbefore, hlast⟩ := List.map_eq_append_iff.1 h
    obtain ⟨group, _, rfl, hgroup, hnil⟩ := List.map_eq_cons_iff.1 hlast
    obtain rfl := List.map_eq_nil_iff.1 hnil
    obtain ⟨q, keywords, rfl, hkeywords⟩ : ∃ q keywords, group = .group .keywords q keywords ∧
        keywords.map Node.bare = Expression.keywordNodes a.keywords := by
      cases group <;> simp [Node.bare] at hgroup
      exact ⟨_, _, by rw [hgroup.1], hgroup.2⟩
    simp [withCaller, Node.bare, hbefore, hkeywords]

/-- The parameters of a caller are read, or there are none. -/
theorem reads_callerPieces {f : Node → Parse Node} {p : Position} (a : Parameters)
    (hdepth : (callerPieces a ts).length ≤ depth + 2) (hne : ts ≠ [])
    (hf : ∀ k : Node, k.bare = .sequence .start a.arguments.nodes → Reads (f k) (ts ++ us) Q rest) :
    Reads (do
      let parameters ←
        if (← peekKind 0) = some .leftParen then parameters (.tied hosts (depth + 1))
        else pure (.sequence p [])
      f parameters) (callerPieces a ts ++ (ts ++ us)) Q rest := by
  have hwith (hdepth : a.arguments.pieces.length ≤ depth + 2) : Reads (do
      let parameters ←
        if (← peekKind 0) = some .leftParen then parameters (.tied hosts (depth + 1))
        else pure (.sequence p [])
      f parameters) (a.arguments.pieces ++ (ts ++ us)) Q rest :=
    (Reads.peekKind 0).bindEq (.ifPos rfl ((a.reads hdepth _).bind hf))
  unfold callerPieces at hdepth ⊢
  split
  · next hparen =>
    rw [if_pos hparen] at hdepth
    exact hwith hdepth
  · next hparen =>
    rw [if_neg hparen] at hdepth
    unfold Arguments.optional at hdepth ⊢
    split
    · next hempty =>
      have hempty : a.arguments.positional = [] ∧ a.arguments.keywords = [] := by simpa using hempty
      refine (Reads.peekKind 0).bindEq (.ifNeg (fun heq => hparen ?_)
        ((Reads.known _).bindEq (hf _ ?_)))
      · obtain ⟨t, ts, rfl⟩ := List.exists_cons_of_ne_nil hne
        exact heq
      · simp [Node.sequence, Node.bare, Arguments.nodes, hempty, keywordGroup,
          Expression.keywordNodes]
    · next hempty =>
      rw [if_neg hempty] at hdepth
      exact hwith hdepth

/-- **A call with a body.** -/
theorem reads_callBlock (a : Parameters) (callee : Expression) (arguments : Arguments)
    (hparameters : (callerPieces a (called callee arguments).pieces).length ≤ depth + 2)
    (hcall : (called callee arguments).pieces.length ≤ depth + 1)
    (h : Nested (.tied hosts depth) hosts ts ns) (rest : List Piece) :
    Reads (callBlock (.tied hosts (depth + 1)))
      (word "call" :: (callerPieces a (called callee arguments).pieces ++
        ((called callee arguments).pieces ++ closing :: (ts ++ (tag [word "endcall"] ++ rest)))))
      (fun n' => n'.bare = .output .start (.call .start callee.node (.sequence .start
        (Expression.nodes arguments.positional ++
          [.group .keywords .start (Expression.keywordNodes arguments.keywords ++
            [.pair .start (.symbol .start "caller") (.definition .start .caller "caller"
              (.sequence .start a.arguments.nodes) (.sequence .start ns))])])))) rest := by
  rw [callBlock_eq]
  refine (Reads.expect _ rfl).bind fun token _ => ?_
  refine reads_callerPieces a hparameters (Expression.pieces_ne_nil _) fun k hk => ?_
  have hphrase := ((called callee arguments).isRead hosts).phrase depth hcall
  refine Reads.bind (x := primary (.tied hosts (depth + 1)) false) (hphrase _ (.cons_none rfl)) fun n hn => ?_
  obtain ⟨p, m, k', rfl, hm, hk'⟩ : ∃ p m k', n = .call p m k' ∧ m.bare = callee.node ∧
      k'.bare = .sequence .start arguments.nodes := by
    cases n <;> simp [Node.bare, called, Expression.node] at hn
    exact ⟨_, _, _, rfl, hn.1, by simpa [Arguments.nodes] using hn.2⟩
  refine (Reads.blockEnd _).ignore.bind fun _ _ => ?_
  refine (reads_body h (by decide) (by decide)).bind ?_
  rintro ⟨body, _⟩ ⟨hbody, _⟩
  refine (Reads.finish _).ignore.bind fun _ _ => .pure ?_
  have hmembers : k'.members.map Node.bare = arguments.nodes := by
    rw [← Node.members_bare, hk']
    rfl
  have hcaller := bare_withCaller token.position
    (.definition token.position .caller "caller" k body) arguments hmembers
  simp only [Node.bare, hk, hbody] at hcaller
  simp [Node.output, Node.sequence, Node.bare, hm, hcaller]

/-! ### Statements by the name of their tag -/

/-- The readers of statements, by the names of the tags that call for them. -/
def readers : List (String × (Grammar → Parse Node)) :=
  [("if", branch), ("ifAsync", branch), ("for", loop), ("asyncEach", loop), ("asyncAll", loop),
    ("block", block), ("extends", extend), ("include", embed), ("set", assign),
    ("macro", definition), ("call", callBlock), ("import", importAll), ("from", importNames),
    ("filter", filterBlock)]

/-- A statement is read by the reader that its tag calls for. -/
theorem reads_statement {g : Grammar} {name : String} {reader : Grammar → Parse Node}
    (hreader : (name, reader) ∈ readers) (h : Reads (reader g) (word name :: ts) Q rest) :
    Reads (statement g hosts) (word name :: ts) Q rest := by
  refine Reads.peek_cons.bind ?_
  rintro _ ⟨⟨kind, value, p⟩, rfl, heq⟩
  obtain ⟨rfl, rfl⟩ := Piece.mk.inj heq
  simp only [readers, List.mem_cons, Prod.mk.injEq, List.not_mem_nil, or_false] at hreader
  rcases hreader with ⟨hvalue, rfl⟩ | ⟨hvalue, rfl⟩ | ⟨hvalue, rfl⟩ | ⟨hvalue, rfl⟩ | ⟨hvalue, rfl⟩ |
    ⟨hvalue, rfl⟩ | ⟨hvalue, rfl⟩ | ⟨hvalue, rfl⟩ | ⟨hvalue, rfl⟩ | ⟨hvalue, rfl⟩ | ⟨hvalue, rfl⟩ |
    ⟨hvalue, rfl⟩ | ⟨hvalue, rfl⟩ | ⟨hvalue, rfl⟩ <;> subst hvalue <;> exact h

/-- No tag that starts a statement ends a body. -/
theorem isClosingTag_of_mem {name : String} {reader : Grammar → Parse Node}
    (hreader : (name, reader) ∈ readers) : isClosingTag name = false := by
  have hall : ∀ name ∈ readers.map Prod.fst, isClosingTag name = false := by
    simp only [readers, List.map_cons, List.map_nil]
    decide
  exact hall _ (List.mem_map_of_mem (f := Prod.fst) hreader)

/-- A statement in a body. -/
theorem Opens.tagged {g : Grammar} {name : String} {names : List String}
    (reader : Grammar → Parse Node) (hreader : (name, reader) ∈ readers) (hnames : ∀ name ∈ names, isClosingTag name = true)
    (h : Reads (reader g) (word name :: (ts ++ rest)) (fun n' => n'.bare = n) rest) :
    Opens g hosts names (opening :: word name :: ts) n rest := by
  refine Opens.statement (fun hmem => ?_) (reads_statement hreader h)
  have hclosing := hnames name hmem
  rw [isClosingTag_of_mem hreader] at hclosing
  cases hclosing

end Tied

/-! ### All templates -/

/-- A body ends where no text goes on. -/
theorem Stops.noText {names : List String} {ts : List Piece} (h : Stops names ts) : NoText ts := by
  rcases h with rfl | ⟨name, us, rfl, _⟩
  · exact fun t ht => by cases ht
  · rintro _ ⟨⟩
    exact .inl rfl

/-- A text before nodes. -/
theorem Nested.text {g : Grammar} {hosts : List TagReader} {ts : List Piece} {ns : List Node}
    (h : Nested g hosts ts ns) (s : Option Plain)
    (hts : ∀ {names : List String} {rest : List Piece}, Stops names rest → NoText (ts ++ rest)) :
    Nested g hosts (textPieces s ++ ts) (textNodes s ++ ns) := by
  cases s with
  | none => exact h
  | some s =>
      exact h.cons (List.cons_ne_nil _ _) fun names rest _ hstops => .text s.ne_empty (hts hstops)

mutual

/-- **What is printed of a statement is read for its tree.** -/
theorem Statement.opens (hosts : List TagReader) (a : Statement) (depth : Nat)
    (hdepth : a.pieces.length ≤ depth + 1) {names : List String} {rest : List Piece}
    (hnames : ∀ name ∈ names, isClosingTag name = true) :
    Opens (.tied hosts (depth + 1)) hosts names a.pieces a.node rest := by
  -- In each case the pieces are first put into the order in which the statement's reader takes them.  The
  -- parts have fewer of them, so that one level less is deep enough for what is read inside of the tag.
  match a with
  | .output a =>
      refine Opens.output ((a.isRead hosts).whole ?_)
      simp only [Statement.pieces, printed, List.length_cons, List.length_append] at hdepth
      omega
  | .branch suspends a b c =>
      have hpieces : (Statement.branch suspends a b c).pieces = opening ::
          word (conditionTag suspends) :: (a.pieces ++ closing :: (b.pieces ++ c.pieces)) := by
        simp [Statement.pieces, tag]
      rw [hpieces] at hdepth ⊢
      simp only [List.length_cons, List.length_append] at hdepth
      have hb := b.nested hosts depth (by omega)
      have hc := c.ending hosts depth (by omega)
      have ha := (a.isRead hosts).whole (show a.pieces.length ≤ depth by omega)
      refine Opens.tagged branch (by cases suspends <;> simp [readers, conditionTag]) hnames ?_
      have hreads := reads_branch (conditionTag suspends) ha hb hc rest
      rw [show (conditionTag suspends == "ifAsync") = suspends by cases suspends <;> decide] at hreads
      simpa only [List.append_assoc, List.cons_append, List.nil_append, Statement.node] using hreads
  | .loop mode x more a b c =>
      have hpieces : (Statement.loop mode x more a b c).pieces = opening ::
          word (loopTags mode).1 :: (namePieces x more ++ word "in" :: (a.pieces ++ closing ::
            (b.pieces ++ (elsePieces c ++ tag [word (loopTags mode).2])))) := by
        simp [Statement.pieces, tag]
      rw [hpieces] at hdepth ⊢
      simp only [List.length_cons, List.length_append] at hdepth
      have hb := b.nested hosts depth (by omega)
      have ha := (a.isRead hosts).whole (show a.pieces.length ≤ depth by omega)
      have hc : LoopEnding (.tied hosts (depth + 1)) (loopTags mode).2
          (elsePieces c ++ tag [word (loopTags mode).2]) (bodyNode c) := by
        match c with
        | none => exact .nothing (by cases mode <;> decide)
        | some c =>
            have hnested := c.nested hosts depth (by
              simp only [elsePieces, List.length_append] at hdepth
              omega)
            rw [elsePieces, List.append_assoc]
            exact .last (by cases mode <;> decide) hnested
      refine Opens.tagged loop (by cases mode <;> simp [readers, loopTags]) hnames ?_
      simpa only [List.append_assoc, List.cons_append, List.nil_append, Statement.node] using
        reads_loop mode x more ha hb hc rest
  | .assign x more a =>
      have hpieces : (Statement.assign x more a).pieces = opening :: word "set" ::
          (namePieces x more ++ mark "=" :: (a.pieces ++ [closing])) := by
        simp [Statement.pieces, tag]
      rw [hpieces] at hdepth ⊢
      simp only [List.length_cons, List.length_append] at hdepth
      have ha := (a.isRead hosts).whole (show a.pieces.length ≤ depth by omega)
      refine Opens.tagged assign (by simp [readers]) hnames ?_
      simpa only [List.append_assoc, List.cons_append, List.nil_append, Statement.node] using reads_assign x more ha rest
  | .capture x more b =>
      have hpieces : (Statement.capture x more b).pieces = opening :: word "set" ::
          (namePieces x more ++ closing :: (b.pieces ++ tag [word "endset"])) := by
        simp [Statement.pieces, tag]
      rw [hpieces] at hdepth ⊢
      simp only [List.length_cons, List.length_append] at hdepth
      have hb := b.nested hosts depth (by omega)
      refine Opens.tagged assign (by simp [readers]) hnames ?_
      simpa only [List.append_assoc, List.cons_append, List.nil_append, Statement.node] using reads_capture x more hb rest
  | .definition x parameters b =>
      have hpieces : (Statement.definition x parameters b).pieces = opening :: word "macro" ::
          word x.text :: (parameters.arguments.pieces ++ closing ::
            (b.pieces ++ tag [word "endmacro"])) := by
        simp [Statement.pieces, tag]
      rw [hpieces] at hdepth ⊢
      simp only [List.length_cons, List.length_append] at hdepth
      have hb := b.nested hosts depth (by omega)
      refine Opens.tagged definition (by simp [readers]) hnames ?_
      simpa only [List.append_assoc, List.cons_append, List.nil_append, Statement.node] using
        reads_definition x parameters (by omega) hb rest
  | .call parameters a arguments b =>
      have hpieces : (Statement.call parameters a arguments b).pieces = opening :: word "call" ::
          (callerPieces parameters (called a arguments).pieces ++ ((called a arguments).pieces ++
            closing :: (b.pieces ++ tag [word "endcall"]))) := by
        simp [Statement.pieces, tag]
      rw [hpieces] at hdepth ⊢
      simp only [List.length_cons, List.length_append] at hdepth
      have hb := b.nested hosts depth (by omega)
      refine Opens.tagged callBlock (by simp [readers]) hnames ?_
      simpa only [List.append_assoc, List.cons_append, List.nil_append, Statement.node] using
        reads_callBlock parameters a arguments (by omega) (by omega) hb rest
  | .block x again b =>
      have hpieces : (Statement.block x again b).pieces = opening :: word "block" :: word x.text ::
          closing :: (b.pieces ++ tag (word "endblock" :: if again then [word x.text] else [])) := by
        simp [Statement.pieces, tag]
      rw [hpieces] at hdepth ⊢
      simp only [List.length_cons, List.length_append] at hdepth
      have hb := b.nested hosts depth (by omega)
      refine Opens.tagged block (by simp [readers]) hnames ?_
      simpa only [List.append_assoc, List.cons_append, List.nil_append, Statement.node] using
        reads_block x again hb rest
  | .filter x members arguments b =>
      have hpieces : (Statement.filter x members arguments b).pieces = opening :: word "filter" ::
          (dotted x members ++ (arguments.optional ++ closing ::
            (b.pieces ++ tag [word "endfilter"]))) := by
        simp [Statement.pieces, tag]
      rw [hpieces] at hdepth ⊢
      simp only [List.length_cons, List.length_append] at hdepth
      have hb := b.nested hosts depth (by omega)
      refine Opens.tagged filterBlock (by simp [readers]) hnames ?_
      simpa only [List.append_assoc, List.cons_append, List.nil_append, Statement.node] using
        reads_filterBlock x members arguments (by omega) hb rest
  | .embed a ignoreMissing =>
      have hpieces : (Statement.embed a ignoreMissing).pieces = opening :: word "include" ::
          (a.pieces ++ ((if ignoreMissing then [word "ignore", word "missing"] else []) ++
            [closing])) := by
        simp [Statement.pieces, tag]
      rw [hpieces] at hdepth ⊢
      simp only [List.length_cons, List.length_append] at hdepth
      have ha := (a.isRead hosts).whole (show a.pieces.length ≤ depth by omega)
      refine Opens.tagged embed (by simp [readers]) hnames ?_
      simpa only [List.append_assoc, List.cons_append, List.nil_append, Statement.node] using
        reads_embed ignoreMissing ha rest
  | .extend a =>
      have hpieces : (Statement.extend a).pieces = opening :: word "extends" ::
          (a.pieces ++ [closing]) := by
        simp [Statement.pieces, tag]
      rw [hpieces] at hdepth ⊢
      simp only [List.length_cons, List.length_append] at hdepth
      have ha := (a.isRead hosts).whole (show a.pieces.length ≤ depth by omega)
      refine Opens.tagged extend (by simp [readers]) hnames ?_
      simpa only [List.append_assoc, List.cons_append, List.nil_append, Statement.node] using
        reads_extend ha rest
  | .importAll a x withContext =>
      have hpieces : (Statement.importAll a x withContext).pieces = opening :: word "import" ::
          (a.pieces ++ word "as" :: word x.text :: (contextPieces withContext ++ [closing])) := by
        simp [Statement.pieces, tag]
      rw [hpieces] at hdepth ⊢
      simp only [List.length_cons, List.length_append] at hdepth
      have ha := (a.isRead hosts).whole (show a.pieces.length ≤ depth by omega)
      refine Opens.tagged importAll (by simp [readers]) hnames ?_
      simpa only [List.append_assoc, List.cons_append, List.nil_append, Statement.node] using
        reads_importAll x withContext ha rest
  | .importNames a x more withContext =>
      have hpieces : (Statement.importNames a x more withContext).pieces = opening :: word "from" ::
          (a.pieces ++ word "import" ::
            (importPieces x more ++ (contextPieces withContext ++ [closing]))) := by
        simp [Statement.pieces, tag]
      rw [hpieces] at hdepth ⊢
      simp only [List.length_cons, List.length_append] at hdepth
      have ha := (a.isRead hosts).whole (show a.pieces.length ≤ depth by omega)
      refine Opens.tagged importNames (by simp [readers]) hnames ?_
      simpa only [List.append_assoc, List.cons_append, List.nil_append, Statement.node] using
        reads_importNames x more withContext ha rest

/-- **What is printed of a body is read for its nodes.** -/
theorem Body.nested (hosts : List TagReader) (b : Body) (depth : Nat)
    (hdepth : b.pieces.length ≤ depth) : Nested (.tied hosts depth) hosts b.pieces b.nodes := by
  match b with
  | .done s =>
      have hnested := (Nested.nil (.tied hosts depth) hosts).text s fun hstops => hstops.noText
      simpa only [List.append_nil, Body.pieces, Body.nodes] using hnested
  | .more s a rest =>
      simp only [Body.pieces, List.length_append] at hdepth
      have hpos := List.length_pos_iff.2 a.pieces_ne_nil
      obtain ⟨depth, rfl⟩ : ∃ d, depth = d + 1 := ⟨depth - 1, by omega⟩
      have hrest := rest.nested hosts (depth + 1) (by omega)
      have hone := hrest.cons a.pieces_ne_nil fun names us hnames _ =>
        a.opens hosts depth (by omega) hnames
      refine hone.text s fun {_ us} _ => ?_
      rw [List.append_assoc]
      exact a.noText _

/-- What is printed of the rest of a condition is read for its tree. -/
theorem Otherwise.ending (hosts : List TagReader) (c : Otherwise) (depth : Nat)
    (hdepth : c.pieces.length ≤ depth + 1) :
    Ending (.tied hosts (depth + 1)) c.pieces c.node := by
  match c with
  | .nothing => exact .nothing
  | .last b =>
      simp only [Otherwise.pieces, tag, List.length_append, List.length_cons] at hdepth
      exact .last (b.nested hosts depth (by omega))
  | .elif a b c =>
      have hpieces : (Otherwise.elif a b c).pieces = opening :: word "elif" ::
          (a.pieces ++ closing :: (b.pieces ++ c.pieces)) := by
        simp [Otherwise.pieces, tag]
      rw [hpieces] at hdepth ⊢
      simp only [List.length_cons, List.length_append] at hdepth
      obtain ⟨depth, rfl⟩ : ∃ d, depth = d + 1 := ⟨depth - 1, by omega⟩
      have hb := b.nested hosts depth (by omega)
      have hc := c.ending hosts depth (by omega)
      have ha := (a.isRead hosts).whole (show a.pieces.length ≤ depth by omega)
      refine .elif fun rest => ?_
      have hreads := reads_branch "elif" ha hb hc rest
      rw [show ("elif" == "ifAsync") = false by decide] at hreads
      simpa only [List.append_assoc, List.cons_append] using hreads

end

/-- **Reading undoes printing.**  A template that is printed has the tree of its body: conditions
after `elif` stand in place of what is done otherwise, and the body of a call is the last of its
keywords. -/
theorem Body.ofSource_source (hosts : List TagReader) (b : Body) :
    (Node.ofSource .standard hosts b.source).map Node.bare = .ok (.group .root .start b.nodes) := by
  have hlexes : Piece.Lexes false (b.pieces ++ []) := b.lexes trivial fun t ht => by cases ht
  rw [List.append_nil] at hlexes
  exact ofSource_written hlexes fun depth hdepth => b.nested hosts (depth + 1) (by omega)

end Stencil.Syntax
