/-
**Lists of named things.**

Each name occurs once, and the names are in the order in which they came first: a name that comes
again keeps its place.

Main definitions:

* `Stencil.Named` — things with names;
* `Stencil.Named.get?`, `Stencil.Named.insert`, `Stencil.Named.erase` — the thing of a name.

Main results:

* `Stencil.Named.get?_insert_self`, `Stencil.Named.get?_insert_of_ne` — a name has the thing it got
  last.
-/

set_option autoImplicit false

namespace Stencil

/-- Things with names, each name once. -/
abbrev Named (α : Type) := List (String × α)

namespace Named

variable {α : Type}

/-- The thing of a name. -/
def get? (b : Named α) (name : String) : Option α := b.lookup name

/-- A name gets a thing; if it had one before, it keeps its place. -/
def insert : Named α → String → α → Named α
  | [], name, a => [(name, a)]
  | (other, b) :: rest, name, a =>
    if other = name then (name, a) :: rest else (other, b) :: insert rest name a

/-- A name has nothing any more. -/
def erase (b : Named α) (name : String) : Named α := b.eraseP fun (other, _) => other == name

/-- The names of a list get their things one after the other. -/
def insertAll (b more : Named α) : Named α := more.foldl (fun b (name, a) => b.insert name a) b

/-- Names that get their things one after the other. -/
def ofList (more : List (String × α)) : Named α := insertAll [] more

/-- Whether a name has a thing. -/
def contains (b : Named α) (name : String) : Bool := (b.get? name).isSome

theorem get?_insert_self (b : Named α) (name : String) (a : α) :
    (b.insert name a).get? name = some a := by
  induction b with
  | nil => simp [insert, get?]
  | cons head rest ih =>
      obtain ⟨other, w⟩ := head
      by_cases h : other = name
      · subst h
        simp [insert, get?]
      · have h' : (name == other) = false := by simpa using Ne.symm h
        simpa [insert, h, get?, List.lookup_cons, h'] using ih

theorem get?_insert_of_ne (b : Named α) {name name' : String} (a : α) (h : name' ≠ name) :
    (b.insert name a).get? name' = b.get? name' := by
  induction b with
  | nil =>
      have h' : (name' == name) = false := by simpa using h
      simp [insert, get?, List.lookup_cons, h']
  | cons head rest ih =>
      obtain ⟨other, w⟩ := head
      by_cases ho : other = name
      · subst ho
        have h' : (name' == other) = false := by simpa using h
        simp [insert, get?, List.lookup_cons, h']
      · by_cases hn : name' = other
        · subst hn
          simp [insert, ho, get?]
        · have hn' : (name' == other) = false := by simpa using hn
          simpa [insert, ho, get?, List.lookup_cons, hn'] using ih

end Named

end Stencil
