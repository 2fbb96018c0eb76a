import CodeNav.Yaml.Event

/-!
# Linked documents

A document whose aliases are linked to the nodes that they stand for. Anchors are numbered, and an
alias stands for the number that its name has at its place. A number is the count of names so far.
So a name that is given again takes a number that the next new name takes too, and of the nodes with
one number the last in the document is the one linked. An alias of no anchor before it ends the
document.
-/

namespace CodeNav.Yaml

/-- An event, or an alias by its number. -/
inductive Entry where
  | event (e : Event)
  | alias (number : Nat)
deriving DecidableEq

/-- A document, with the place of the node for each number, the last place first. -/
structure Linked where
  entries : List Entry
  places : List (Nat × Nat)
  whole : Bool
deriving DecidableEq

def Event.anchor? : Event → Option String
  | scalar anchor .. => anchor
  | sequenceStart anchor _ => anchor
  | mappingStart anchor _ => anchor
  | _ => none

namespace Linked

/-- The names in use, the latest first, without repetitions. -/
abbrev Names := List (String × Nat)

def rename (names : Names) (name : String) : Names :=
  (name, names.length) :: names.filter fun n => n.1 ≠ name

/-- Links the events from place `k` on, with the names in use and the places so far. -/
def link (whole : Bool) : Nat → Names → List (Nat × Nat) → List Event → Linked
  | _, _, places, [] => ⟨[], places, whole⟩
  | k, names, places, .alias name :: rest =>
    match names.lookup name with
    | none => ⟨[], places, false⟩
    | some number =>
      let d := link whole (k + 1) names places rest
      { d with entries := .alias number :: d.entries }
  | k, names, places, e :: rest =>
    let d :=
      match e.anchor? with
      | none => link whole (k + 1) names places rest
      | some name => link whole (k + 1) (rename names name) ((names.length, k) :: places) rest
    { d with entries := .event e :: d.entries }

def ofDocument (d : Document) : Linked := link d.whole 0 [] [] d.events

def target (d : Linked) (number : Nat) : List Entry :=
  match d.places.lookup number with
  | some k => d.entries.drop k
  | none => []

end Linked

end CodeNav.Yaml
