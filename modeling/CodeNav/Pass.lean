import CodeNav.Context
import CodeNav.Extraction
import CodeNav.Walk

/-!
# Passes

A pass collects the facts of one file: it walks the tree, performs the script of every node that it
enters, and at the end asks the destination to pass everything on. A fault ends the pass at once,
and then nothing is flushed.
-/

namespace CodeNav

/-- A file to index: its name, its tree, and what the names in it stand for. -/
structure File where
  document : String
  tree : Tree
  table : SymbolTable

namespace File

variable {σ : Type}

def visit (f : File) (config : Config) (d : Node) : Script Record Signal :=
  CodeNav.visit f.tree f.table config.facts (extraction f.tree f.table config.hover) d

def enter [Sink σ] (f : File) (config : Config) (c : Context σ) (d : Node) :
    Except Fault Signal × Context σ :=
  c.perform (f.visit config d)

/-- The last entry in the log of a successful pass. -/
def finishedEvent (s : Summary) : Event :=
  .finished s.nodesVisited s.subtreesPruned s.facts.total s.facts.duplicatesSuppressed

def conclude [Sink σ] (c : Context σ) (stats : WalkStats) : Except Fault Summary × Context σ :=
  match c.finish with
  | (.ok counts, c') =>
    let summary : Summary := ⟨stats.visited, stats.pruned, counts⟩
    (.ok summary, c'.note (finishedEvent summary))
  | (.error e, c') => (.error e, c')

/-- Indexes the file into a destination. The final context holds the destination and the log. -/
def index [Sink σ] (f : File) (config : Config) (sink : σ) : Except Fault Summary × Context σ :=
  let start := (Context.new f.document sink).note (.started f.document f.tree.size)
  match f.tree.walk (f.enter config) start with
  | (.ok stats, c) => conclude c stats
  | (.error e, c) => (.error e, c)

end File

end CodeNav
