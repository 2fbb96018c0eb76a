import CodeNav.Pass

/-!
# Batches

The files of a batch are indexed each on its own, with a context and a memory destination of its
own. There is one outcome per file, in the order of the files; a file that fails has no records.
-/

namespace CodeNav

structure FileIndex where
  records : List Record
  summary : Summary
deriving DecidableEq

/-- What became of one file of a batch. -/
structure Outcome where
  document : String
  result : Except Fault FileIndex

def File.outcome (config : Config) (f : File) : Outcome :=
  let (result, c) := f.index config MemorySink.empty
  ⟨f.document, result.map (⟨c.sink.records.toList, ·⟩)⟩

def indexFiles (files : List File) (config : Config) : List Outcome :=
  files.map (File.outcome config)

def Outcome.warning? (o : Outcome) : Option String :=
  match o.result with
  | .ok _ => none
  | .error e => some s!"Failed to index file: {o.document}: {e.message}"

/-- The warnings of a batch. Files may be indexed in any order, so they are put in the order of
their text. -/
def warnings (outcomes : List Outcome) : List String :=
  (outcomes.filterMap Outcome.warning?).mergeSort fun a b => decide (a ≤ b)

end CodeNav
