/-
**Templates.**

Main definitions:

* `Stencil.Template` — a named source, with what it was compiled to if it was;
* `Stencil.Compiled` — a tree ready to be rendered, with its blocks;
* `Stencil.Template.build` — compiles a source.
-/

import Stencil.Context
import Stencil.Node.Lifting
import Stencil.Parser.Template

set_option autoImplicit false

namespace Stencil

/-- A tree ready to be rendered, with the definitions of its blocks. -/
structure Compiled where
  root : Node
  blocks : List BlockDef
  deriving Inhabited

/-- A named source, with what it was compiled to if it was. -/
structure Template where
  name : String
  source : String
  compiled : Option Compiled
  deriving Inhabited

/-- The number of a template. -/
abbrev TemplateId := Nat

namespace Template

/-- The definitions of a list of blocks, numbered from `number` on.  A name may be defined
once. -/
def defineBlocks (template : String) (number : Nat) (known : List String) :
    List Node → Except TemplateError (List BlockDef)
  | [] => .ok []
  | .block p name body :: rest => do
    if known.contains name then throw (.atPosition (.repeatedBlock name) p)
    let blocks ← defineBlocks template (number + 1) (name :: known) rest
    return ⟨number, name, body, template⟩ :: blocks
  | _ :: rest => defineBlocks template number known rest

/-- Each block has the next number, and a name that is not known yet. -/
theorem defineBlocks_block_eq_ok_iff {template name : String} {number : Nat} {known : List String}
    {p : Position} {body : Node} {rest : List Node} {blocks : List BlockDef} :
    defineBlocks template number known (.block p name body :: rest) = .ok blocks ↔
      name ∉ known ∧ ∃ more, defineBlocks template (number + 1) (name :: known) rest = .ok more ∧
        blocks = ⟨number, name, body, template⟩ :: more := by
  simp only [defineBlocks]
  split
  · next hknown =>
      have hknown : name ∈ known := by simpa using hknown
      exact ⟨fun h => (nomatch h), fun h => absurd hknown h.1⟩
  · next hnew =>
      have hnew : name ∉ known := by simpa using hnew
      cases defineBlocks template (number + 1) (name :: known) rest with
      | error e => exact ⟨fun h => (nomatch h), fun ⟨_, _, h, _⟩ => nomatch h⟩
      | ok more =>
          constructor
          · rintro ⟨⟩
            exact ⟨hnew, more, rfl, rfl⟩
          · rintro ⟨-, _, ⟨⟩, rfl⟩
            rfl

/-- A source as a tree ready to be rendered; its blocks are numbered from `number` on. -/
def build (config : Config) (hosts : List TagReader) (asyncFilters : List String)
    (name source : String) (number : Nat) : Except TemplateError Compiled := do
  let root := (Node.prepared asyncFilters (← Node.ofSource config hosts source)).result
  let blocks ← defineBlocks name number [] (root.findAll Node.isBlock)
  return ⟨root, blocks⟩

/-- What a source is compiled to: the tree that it is read as, prepared, and the blocks in this. -/
theorem build_eq_ok_iff {config : Config} {hosts : List TagReader} {filters : List String}
    {name source : String} {number : Nat} {c : Compiled} :
    build config hosts filters name source number = .ok c ↔
      ∃ root, Node.ofSource config hosts source = .ok root ∧
        c.root = (Node.prepared filters root).result ∧
        defineBlocks name number [] (c.root.findAll Node.isBlock) = .ok c.blocks := by
  unfold build
  cases Node.ofSource config hosts source with
  | error e => exact ⟨fun h => (nomatch h), fun ⟨_, h, _⟩ => nomatch h⟩
  | ok root =>
      change Compiled.mk (Node.prepared filters root).result <$> defineBlocks name number []
        ((Node.prepared filters root).result.findAll Node.isBlock) = .ok c ↔ _
      constructor
      · intro h
        cases hblocks : defineBlocks name number []
            ((Node.prepared filters root).result.findAll Node.isBlock) with
        | error e =>
            rw [hblocks] at h
            cases h
        | ok blocks =>
            rw [hblocks] at h
            cases h
            exact ⟨root, rfl, rfl, hblocks⟩
      · rintro ⟨_, ⟨⟩, hroot, hblocks⟩
        obtain ⟨_, blocks⟩ := c
        subst hroot
        rw [hblocks]
        rfl

end Template

end Stencil
