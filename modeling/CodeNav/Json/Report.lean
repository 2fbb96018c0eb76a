import CodeNav.Fact.Basic
import CodeNav.Json.Position
import CodeNav.Walk

/-!
# Reports in JSON

The counts and summaries of passes and walks, and the names of kinds and signals, each as a text of
its own.
-/

namespace CodeNav

open Json (Shape)

namespace Counts

def toJson (c : Counts) : Json :=
  .ofFields [("definitions", .ofNat c.definitions), ("references", .ofNat c.references),
    ("hovers", .ofNat c.hovers), ("implementations", .ofNat c.implementations),
    ("duplicates_suppressed", .ofNat c.duplicatesSuppressed)]

def shape : Shape Counts :=
  Counts.mk <$> .required "definitions" Json.decodeCount
    <*> .required "references" Json.decodeCount <*> .required "hovers" Json.decodeCount
    <*> .required "implementations" Json.decodeCount
    <*> .required "duplicates_suppressed" Json.decodeCount

def ofJson : Json → Except Json.Fault Counts := shape.decode .alongText "struct FactCounts"

end Counts

namespace Summary

def toJson (s : Summary) : Json :=
  .ofFields [("nodes_visited", .ofNat s.nodesVisited),
    ("subtrees_pruned", .ofNat s.subtreesPruned), ("facts", s.facts.toJson)]

def shape : Shape Summary :=
  Summary.mk <$> .required "nodes_visited" Json.decodeCount
    <*> .required "subtrees_pruned" Json.decodeCount <*> .required "facts" Counts.ofJson

def ofJson : Json → Except Json.Fault Summary := shape.decode .alongText "struct IndexSummary"

end Summary

namespace WalkStats

def toJson (s : WalkStats) : Json :=
  .ofFields [("visited", .ofNat s.visited), ("pruned", .ofNat s.pruned)]

def shape : Shape WalkStats :=
  WalkStats.mk <$> .required "visited" Json.decodeCount <*> .required "pruned" Json.decodeCount

def ofJson : Json → Except Json.Fault WalkStats := shape.decode .alongText "struct WalkStats"

end WalkStats

/-- Reads the text of a name that one of a list of values has. -/
def Json.decodeNamed {α : Type} (all : List α) (name : α → String) (text : String) :
    Except Json.Fault α := do
  let s ← Json.decodeNameText (all.map name) text
  match all.find? fun a => name a = s with
  | some a => .ok a
  | none => .error .malformed

end CodeNav
