/-
**Frames.**

Names are bound in frames.  A frame may lie inside another, and a name that it does not bind is
looked up there.  Frames are numbered in the order in which they are made; a frame lies inside one
with a smaller number, so following frames outwards comes to an end.

Main definitions:

* `Stencil.Frame`, `Stencil.Frames` — a frame, and all frames of a run;
* `Stencil.Frames.lookup` — the value of a name as a frame sees it;
* `Stencil.Frames.resolve` — the nearest frame that binds a name;
* `Stencil.Frames.set` — a name is bound, in the frame or in the one that binds it already;
* `Stencil.Frames.flatten` — everything that a frame sees.
-/

import Stencil.Value

set_option autoImplicit false

namespace Stencil

/-- The number of a frame. -/
abbrev FrameId := Nat

/-- Names bound at one place of a run. -/
structure Frame where
  bindings : Bindings
  /-- The frame that this one lies inside of. -/
  parent : Option FrameId
  /-- Whether frames further out keep their bindings when a name is set from here. -/
  isolated : Bool
  /-- Whether the names bound here are those of a template as a whole. -/
  topLevel : Bool
  deriving Inhabited

/-- All frames of a run, by number. -/
abbrev Frames := Array Frame

namespace Frames

variable (fs : Frames)

/-! ### Making frames -/

/-- A frame that lies inside of no other and holds the names of a template. -/
def root : Frame := ⟨[], none, false, true⟩

/-- A frame that lies inside of no other and holds the names of a macro. -/
def detached : Frame := ⟨[], none, false, false⟩

/-- A frame that lies inside of no other, with some names bound. -/
def ofBindings (bindings : Bindings) : Frame := ⟨bindings, none, false, false⟩

/-- A frame inside of another. -/
def inside (id : FrameId) (isolated : Bool) : Frame := ⟨[], some id, isolated, false⟩

/-- A frame inside of another that holds the names of a template. -/
def topLevelInside (id : FrameId) (isolated : Bool) : Frame := ⟨[], some id, isolated, true⟩

/-! ### Looking up -/

/-- The value of a name as a frame sees it, at most `fuel` frames being looked at. -/
def lookupWithin (name : String) : Nat → FrameId → Option Value
  | 0, _ => none
  | fuel + 1, id =>
    match fs[id]? with
    | none => none
    | some frame =>
      match frame.bindings.get? name with
      | some v => some v
      | none =>
        match frame.parent with
        | some parent => lookupWithin name fuel parent
        | none => none

/-- The value of a name as a frame sees it. -/
def lookup (id : FrameId) (name : String) : Option Value := fs.lookupWithin name (id + 1) id

/-- The nearest frame that binds a name, at most `fuel` frames being looked at. -/
def resolveWithin (name : String) (forWrite : Bool) : Nat → FrameId → Option FrameId
  | 0, _ => none
  | fuel + 1, id =>
    match fs[id]? with
    | none => none
    | some frame =>
      if frame.bindings.contains name then some id
      else if forWrite && frame.isolated then none
      else
        match frame.parent with
        | some parent => resolveWithin name forWrite fuel parent
        | none => none

/-- The nearest frame that binds a name.  A search for a write does not go past an isolated
frame. -/
def resolve (id : FrameId) (name : String) (forWrite : Bool) : Option FrameId :=
  fs.resolveWithin name forWrite (id + 1) id

/-- Everything that a frame sees, at most `fuel` frames being looked at. -/
def flattenWithin : Nat → FrameId → Bindings
  | 0, _ => []
  | fuel + 1, id =>
    match fs[id]? with
    | none => []
    | some frame =>
      match frame.parent with
      | some parent => (flattenWithin fuel parent).insertAll frame.bindings
      | none => Named.ofList frame.bindings

/-- Everything that a frame sees; what is bound further out comes first. -/
def flatten (id : FrameId) : Bindings := fs.flattenWithin (id + 1) id

/-! ### Binding -/

/-- A name is bound in a frame. -/
def bind (id : FrameId) (name : String) (v : Value) : Frames :=
  fs.modify id fun frame => { frame with bindings := frame.bindings.insert name v }

/-- A name is bound: with `up` where it is bound already, if a write may go there, and else in the
frame itself. -/
def set (id : FrameId) (name : String) (v : Value) (up : Bool) : Frames :=
  let target := if up then (fs.resolve id name true).getD id else id
  fs.bind target name v

/-- Whether a frame holds the names of a template as a whole. -/
def isTopLevel (id : FrameId) : Bool := (fs[id]?).any Frame.topLevel

end Frames

end Stencil
