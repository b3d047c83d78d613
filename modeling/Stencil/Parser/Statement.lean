/-
**Reading statements.**

A template is a list of texts, comments, outputs and statements.  A statement with a body reads the
nodes up to one of the tags that may follow the body, the last of which ends the statement.

Main definitions:

* `Stencil.Parse.nodes` — nodes up to a tag with one of some names;
* `Stencil.Parse.body` — the body of a statement, up to the tag after it;
* `Stencil.Parse.statement` — a statement, by the name of its tag.
-/

import Stencil.Parser.Expression

set_option autoImplicit false

namespace Stencil.Parse

variable (g : Grammar)

/-! ### Ends of tags and bodies -/

/-- The end of a tag is taken; a `-` marker on it trims the text that follows. -/
def blockEnd (name : String) : Parse Token := do
  match ← next with
  | some token =>
    if token.kind = .blockEnd then
      modify fun p => { p with trimNext := token.startsDashed }
      return token
    else
      failAt (.wanted ("expected block end in " ++ name ++ " statement") token) token.position
  | none => endOfFile ("block end in " ++ name ++ " statement")

/-- The name that `body` leaves and the end of its tag are taken. -/
def finish (name : String) : Parse Token := do
  discard <| expect .symbol name
  blockEnd name

/-- The body of a statement, up to a tag with one of the given names, and the name of this tag.  The
start of the tag is taken, its name is not. -/
def body (opener : Token) (names : List String) : Parse (Node × String) := do
  let endTag := names.getLast?.getD "end"
  modify fun p => { p with opened := ⟨opener.value, endTag, opener.position.line⟩ :: p.opened }
  let answer ← tryCatch (Except.ok <$> g.nodes names) fun e => return .error e
  modify fun p => { p with opened := p.opened.drop 1 }
  let nodes ← liftExcept answer
  match ← next with
  | some token =>
    if token.kind = .blockStart then
      let name := ((← peek 0).map Token.value).getD ""
      return (.sequence opener.position nodes, name)
    else missing endTag
  | none => missing endTag
where
  /-- The error of a body that goes on to the end of the template. -/
  missing (endTag : String) : Parse (Node × String) :=
    failAt (.missingEnd endTag opener.value opener.position.line) opener.position
  /-- An answer that was kept is given again. -/
  liftExcept (answer : Except TemplateError (List Node)) : Parse (List Node) :=
    match answer with
    | .ok nodes => return nodes
    | .error e => throw e

/-! ### Conditions and loops -/

/-- A conditional statement or what follows `elif`, its tag name not taken yet. -/
def branch : Parse Node := do
  let tag ← expect .symbol "if"
  let condition ← g.expression
  discard <| blockEnd tag.value
  let (body, closing) ← body g tag ["elif", "elseif", "else", "endif"]
  let otherwise ←
    if closing = "elif" ∨ closing = "elseif" then some <$> g.branch
    else if closing = "else" then do
      discard <| finish "else"
      let (otherwise, _) ← Parse.body g tag ["endif"]
      discard <| finish "endif"
      pure (some otherwise)
    else do
      discard <| finish "endif"
      pure none
  return .branch tag.position (tag.value == "ifAsync") condition body otherwise

/-- The kind of loop that a tag names, and the tag that ends it. -/
def loopMode (tag : String) : LoopMode × String :=
  if tag = "asyncEach" then (.each, "endeach")
  else if tag = "asyncAll" then (.all, "endall")
  else (.plain, "endfor")

/-- Further names, each after a comma. -/
def moreNames (what : String) (first : Node) : Parse (List Node) :=
  iterate (fun names => do
    if ← skip .comma then return .inl (names ++ [← symbol what]) else return .inr names) [first]

/-- A loop. -/
def loop : Parse Node := do
  let tag ← expect .symbol "for"
  let (mode, endTag) := loopMode tag.value
  let target ←
    match ← moreNames "loop variable" (← symbol "loop variable") with
    | [one] => pure one
    | names => pure (.group .array tag.position names)
  if !(← skipSymbol "in") then failHere "expected \"in\" keyword for loop"
  let source ← g.expression
  discard <| blockEnd tag.value
  let (body, closing) ← body g tag ["else", endTag]
  let otherwise ←
    if closing = "else" then do
      discard <| finish "else"
      let (otherwise, _) ← Parse.body g tag [endTag]
      pure (some otherwise)
    else pure none
  discard <| finish endTag
  return .loop tag.position mode source target body otherwise

/-! ### Inheritance and imports -/

/-- A block.  Its name may be said again at its end. -/
def block : Parse Node := do
  let tag ← expect .symbol "block"
  let name := (← expect .symbol "block name").value
  discard <| blockEnd "block"
  let (body, _) ← body g tag ["endblock"]
  discard <| expect .symbol "endblock"
  discard <| skipSymbol name
  discard <| blockEnd "endblock"
  return .block tag.position name body

/-- The template that this one extends. -/
def extend : Parse Node := do
  let tag ← expect .symbol "extends"
  let template ← g.expression
  discard <| blockEnd "extends"
  return .extend tag.position template

/-- A template that is rendered in place. -/
def embed : Parse Node := do
  let tag ← expect .symbol "include"
  let template ← g.expression
  let ignoreMissing ← skipSymbol "ignore"
  if ignoreMissing then
    if !(← skipSymbol "missing") then failHere "expected \"missing\" after \"ignore\""
  discard <| blockEnd "include"
  return .embed tag.position template ignoreMissing

/-- `with context` or `without context`, if one of them is next. -/
def context? : Parse (Option Bool) := do
  let choice ←
    if ← peekIs 0 .symbol "with" then pure (some true)
    else if ← peekIs 0 .symbol "without" then pure (some false)
    else pure none
  if choice.isSome then
    discard next
    if !(← skipSymbol "context") then failHere "expected \"context\" after with/without"
  return choice

/-- The import of a template under a name. -/
def importAll : Parse Node := do
  let tag ← expect .symbol "import"
  let template ← g.expression
  if !(← skipSymbol "as") then failHere "expected \"as\" keyword in import"
  let target := (← expect .symbol "import target name").value
  let withContext := (← context?).getD false
  discard <| blockEnd "import"
  return .importAll tag.position template target withContext

/-- A name that is imported, and the name it gets. -/
def importName : Parse ImportName := do
  let name ← expect .symbol "name to import"
  if name.value.toList.head? = some '_' then failAt .privateImport name.position
  let newName ←
    if ← skipSymbol "as" then pure (some (← expect .symbol "import alias").value) else pure none
  return ⟨name.value, newName⟩

/-- The import of names of a template. -/
def importNames : Parse Node := do
  let tag ← expect .symbol "from"
  let template ← g.expression
  if !(← skipSymbol "import") then failHere "expected \"import\" keyword in from tag"
  let (names, withContext) ← iterate (fun (names, withContext) => do
    if (← peekKind 0) = some .blockEnd then
      if names.isEmpty then failHere "expected at least one import name"
      discard <| blockEnd "from"
      return .inr (names, withContext)
    if !names.isEmpty then
      discard <| expect .comma "`,` between import names"
    let name ← importName
    let choice ← context?
    return .inl (names ++ [name], choice.orElse fun _ => withContext))
    (([], none) : List ImportName × Option Bool)
  return .importNames tag.position template names (withContext.getD false)

/-! ### Assignments, macros and calls -/

/-- An assignment of a value or of a body. -/
def assign : Parse Node := do
  let tag ← expect .symbol "set"
  let targets ← moreNames "variable name" (← symbol "variable name")
  if ← skipValue .operator "=" then
    let value ← g.expression
    discard <| blockEnd "set"
    return .assign tag.position targets (some value) none
  if (← peekKind 0) = some .blockEnd then
    discard <| blockEnd "set"
    let (body, _) ← body g tag ["endset"]
    discard <| finish "endset"
    return .assign tag.position targets none (some (.capture tag.position body))
  failHere "expected = or block end in set tag"

/-- Parameters: names, and names with a default. -/
def parameters : Parse Node := do
  let parameters ← signature g
  let isParameter : Node → Bool
    | .symbol _ _ | .group .keywords _ _ => true
    | _ => false
  match parameters.members.find? fun n => !isParameter n with
  | some n => failAt .parameterShape n.position
  | none => return parameters

/-- A macro. -/
def definition : Parse Node := do
  let tag ← expect .symbol "macro"
  let name := (← expect .symbol "macro name").value
  let parameters ← parameters g
  discard <| blockEnd "macro"
  let (body, _) ← body g tag ["endmacro"]
  discard <| finish "endmacro"
  return .definition tag.position .named name parameters body

/-- Arguments with the body of a call as the last keyword. -/
def withCaller (p : Position) (caller : Node) (arguments : List Node) : List Node :=
  let pair := Node.pair p (.symbol p "caller") caller
  match arguments.getLast? with
  | some (.group .keywords q keywords) =>
    arguments.dropLast ++ [.group .keywords q (keywords ++ [pair])]
  | _ => arguments ++ [.group .keywords p [pair]]

/-- A call of a macro with a body, which the macro may render as `caller`. -/
def callBlock : Parse Node := do
  let tag ← expect .symbol "call"
  let parameters ←
    if (← peekKind 0) = some .leftParen then parameters g else pure (.sequence tag.position [])
  match ← primary g false with
  | .call p callee arguments =>
    discard <| blockEnd "call"
    let (body, _) ← body g tag ["endcall"]
    discard <| finish "endcall"
    let caller := Node.definition tag.position .caller "caller" parameters body
    let arguments' := withCaller tag.position caller arguments.members
    return .output tag.position (.call p callee (.sequence arguments.position arguments'))
  | _ => failAt .notMacroCall tag.position

/-- A filter applied to a body. -/
def filterBlock : Parse Node := do
  let tag ← expect .symbol "filter"
  let name ← filterName
  let more ←
    if (← peekKind 0) = some .leftParen then pure (← signature g).members else pure []
  discard <| blockEnd "filter"
  let (body, _) ← body g tag ["endfilter"]
  discard <| finish "endfilter"
  let arguments := Node.sequence tag.position (.capture tag.position body :: more)
  return .output tag.position (.filter tag.position name arguments)

/-! ### Raw text -/

/-- A text that is taken verbatim. -/
def raw : Parse Node := do
  let tag ← expect .symbol "raw"
  discard <| blockEnd tag.value
  let endTag := "end" ++ tag.value
  match (← get).buffer.head? with
  | some token => failAt (.tokenAfterRaw token tag.value) token.position
  | none =>
    match (← get).lexer.takeRaw endTag with
    | none => failAt (.missingEnd endTag tag.value tag.position.line) tag.position
    | some (text, lexer) =>
      let shown :=
        if (← get).trimNext then String.ofList (Text.trimStart text.text.toList) else text.text
      modify fun p => { p with lexer := lexer, trimNext := text.trimAfter }
      return .output tag.position (.text tag.position shown)

/-! ### Statements -/

/-- Whether a tag only goes on with or ends an open one. -/
def isClosingTag (name : String) : Bool :=
  Text.startsWith "end".toList name.toList || ["else", "elif", "elseif"].contains name

/-- A statement by a tag that a host added, or the error of a tag that no one knows. -/
def hostStatement (hosts : List TagReader) (tag : Token) : Parse Node := do
  match hosts.find? fun host => host.tags.contains tag.value with
  | some host =>
    discard next
    host.read g tag
  | none =>
    if isClosingTag tag.value then
      match (← get).opened.head? with
      | some opened =>
        failAt (.misplacedTag opened.endTag opened.name opened.line tag.value) tag.position
      | none => failAt (.strayTag tag.value) tag.position
    else failAt (.unknownTag tag.value) tag.position

/-- A statement; the start of its tag is taken. -/
def statement (hosts : List TagReader) : Parse Node := do
  match ← peek 0 with
  | none => endOfFile "tag name"
  | some tag =>
    if tag.kind ≠ .symbol then failAt (.wanted "tag name expected" tag) tag.position
    else
      match tag.value with
      | "raw" | "verbatim" => raw
      | "if" | "ifAsync" => branch g
      | "for" | "asyncEach" | "asyncAll" => loop g
      | "block" => block g
      | "extends" => extend g
      | "include" => embed g
      | "set" => assign g
      | "macro" => definition g
      | "call" => callBlock g
      | "import" => importAll g
      | "from" => importNames g
      | "filter" => filterBlock g
      | _ => hostStatement g hosts tag

/-! ### Nodes -/

/-- Whether the next tag or comment trims the text before it. -/
def nextTrims : Parse Bool := do
  let dashed := (← get).lexer.config.delimiters.commentStart ++ "-"
  match ← peek 0 with
  | none => return false
  | some token =>
    match token.kind with
    | .blockStart | .variableStart => return token.endsDashed
    | .comment => return Text.startsWith dashed.toList token.value.toList
    | _ => return false

/-- A text, without the white space that the tags next to it trim; none if nothing is left. -/
def text (token : Token) : Parse (List Node) := do
  discard next
  let shown := token.value.toList
  let shown := if (← get).trimNext then Text.trimStart shown else shown
  modify fun p => { p with trimNext := false }
  let shown := if ← nextTrims then Text.trimEnd shown else shown
  if shown.isEmpty then return []
  else return [.output token.position (.text token.position (String.ofList shown))]

/-- An output. -/
def output (token : Token) : Parse Node := do
  discard next
  let value ← g.expression
  modify fun p => { p with trimNext := false }
  let last ← expect .variableEnd "end of variable tag"
  if last.startsDashed then modify fun p => { p with trimNext := true }
  return .output token.position value

/-- A comment; a `-` marker on its end trims the text that follows. -/
def comment (token : Token) : Parse Unit := do
  discard next
  modify fun p =>
    let dashed := '-' :: p.lexer.config.delimiters.commentEnd.toList
    { p with trimNext := Text.startsWith dashed.reverse token.value.toList.reverse }

/-- Nodes up to a tag with one of the given names, or to the end of the template. -/
def nodes (hosts : List TagReader) (names : List String) : Parse (List Node) :=
  iterate (fun nodes => do
    match ← peek 0 with
    | none => return .inr nodes
    | some token =>
      match token.kind with
      | .blockStart =>
        modify fun p => { p with trimNext := false }
        let ends := (← peek 1).any fun t => t.kind = .symbol && names.contains t.value
        if ends then return .inr nodes
        discard next
        return .inl (nodes ++ [← statement g hosts])
      | .data => return .inl (nodes ++ (← text token))
      | .variableStart => return .inl (nodes ++ [← output g token])
      | .comment =>
        comment token
        return .inl nodes
      | _ => failAt (.strayToken token) token.position) []

end Stencil.Parse
