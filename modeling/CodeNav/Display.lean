import CodeNav.Pass
import CodeNav.Text.Display

/-!
# Displays of structures

How nodes, counts, contexts and files are shown to a programmer: the name of the structure and its
fields between braces. A structure that does not show all of its fields ends in two dots.
-/

namespace CodeNav

/-- A structure with its fields; `more` says that there are others. -/
def displayStructure (name : String) (fields : List (String × String)) (more : Bool) : String :=
  let shown := fields.map fun f => f.1 ++ ": " ++ f.2
  name ++ " \x7b " ++ ", ".intercalate (if more then shown ++ [".."] else shown) ++ " \x7d"

def displayOption {α : Type} (display : α → String) : Option α → String
  | none => "None"
  | some a => "Some(" ++ display a ++ ")"

def Node.display (d : Node) : String :=
  displayStructure "Node"
    [("id", s!"NodeId({d.id.toNat})"), ("kind", d.kind.constructorName),
      ("name", displayOption Text.display d.name)] false

def Counts.display (c : Counts) : String :=
  displayStructure "FactCounts"
    [("definitions", toString c.definitions), ("references", toString c.references),
      ("hovers", toString c.hovers), ("implementations", toString c.implementations),
      ("duplicates_suppressed", toString c.duplicatesSuppressed)] false

def Context.display {σ : Type} (c : Context σ) : String :=
  displayStructure "IndexContext"
    [("document", Text.display c.document), ("counts", c.counts.display)] true

def Toggles.display (c : Toggles) : String :=
  displayStructure "FactToggles"
    [("definitions", toString c.definitions), ("references", toString c.references),
      ("hover", toString c.hover), ("implementations", toString c.implementations)] false

def File.display (f : File) : String :=
  displayStructure "FileInput"
    [("document", Text.display f.document), ("nodes", toString f.tree.size)] true

/-- What directs a pass: its context, its extractors, whose state is not shown, and its toggles. -/
def Context.displayDispatcher {σ : Type} (c : Context σ) (config : Config) : String :=
  displayStructure "Dispatcher"
    [("context", c.display), ("extractors", "Extractors \x7b .. \x7d"),
      ("enabled", config.facts.display)] false

end CodeNav
