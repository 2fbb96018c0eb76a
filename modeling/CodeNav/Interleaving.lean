import CodeNav.Batch

/-!
# Interleaved batches

The files of a batch are indexed at the same time. A turn takes the pass over one file a step further:
the step enters one node, or ends the pass, or hands in the outcome. Which file has the next turn is
left open. The passes share nothing but the log, where a failed one leaves its warning as it hands in
its outcome.
-/

namespace CodeNav

/-- How far the pass over a file has come. -/
inductive Progress where
  /-- The pass has not begun. -/
  | waiting
  /-- The nodes `pending`, and what is below them, are still to be entered. -/
  | walking (pending : List Node) (stats : WalkStats) (c : Context MemorySink)
  /-- The pass has ended, and the outcome is not handed in yet. -/
  | ended (result : Except Fault FileIndex)
  /-- The outcome is handed in. -/
  | reported (outcome : Outcome)

structure Job where
  file : File
  progress : Progress

namespace Job

def start (f : File) : Context MemorySink :=
  (Context.new f.document MemorySink.empty).note (.started f.document f.tree.size)

def begin (f : File) : Progress := .walking f.tree.root?.toList .zero (start f)

/-- The pass enters a node; a fault ends it, and its records are dropped. -/
def enter (config : Config) (f : File) (d : Node) (pending : List Node) (stats : WalkStats)
    (c : Context MemorySink) : Progress :=
  match f.enter config c d with
  | (.ok signal, c') => .walking (f.tree.below d signal ++ pending) (stats.enter signal) c'
  | (.error e, _) => .ended (.error e)

def conclude (stats : WalkStats) (c : Context MemorySink) : Progress :=
  let (result, c') := File.conclude c stats
  .ended (result.map (⟨c'.sink.records.toList, ·⟩))

def step (config : Config) : Job → Job
  | ⟨f, .waiting⟩ => ⟨f, begin f⟩
  | ⟨f, .walking [] stats c⟩ => ⟨f, conclude stats c⟩
  | ⟨f, .walking (d :: pending) stats c⟩ => ⟨f, enter config f d pending stats c⟩
  | ⟨f, .ended result⟩ => ⟨f, .reported ⟨f.document, result⟩⟩
  | ⟨f, .reported outcome⟩ => ⟨f, .reported outcome⟩

/-- The warning that the next step leaves in the log. -/
def warning? : Job → Option String
  | ⟨f, .ended result⟩ => Outcome.warning? ⟨f.document, result⟩
  | _ => none

def outcome? : Job → Option Outcome
  | ⟨_, .reported outcome⟩ => some outcome
  | _ => none

end Job

/-- A batch on its way: the passes in the order of the files, and the log that they share. -/
structure Batch where
  jobs : List Job
  log : List String

namespace Batch

def opened (files : List File) : Batch := ⟨files.map (⟨·, .waiting⟩), []⟩

/-- Gives a turn to the pass over the `i`th file; there may be no such file. -/
def turn (config : Config) (b : Batch) (i : Nat) : Batch :=
  ⟨b.jobs.modify i (Job.step config), b.log ++ (b.jobs[i]?.bind Job.warning?).toList⟩

def run (config : Config) (b : Batch) (schedule : List Nat) : Batch :=
  schedule.foldl (turn config) b

def outcomes (b : Batch) : List Outcome := b.jobs.filterMap Job.outcome?

def Finished (b : Batch) : Prop := ∀ job ∈ b.jobs, job.outcome?.isSome = true

instance (b : Batch) : Decidable b.Finished := inferInstanceAs (Decidable (∀ _ ∈ _, _))

end Batch

/-- What has become of files, indexed at the same time, after the turns of a schedule. -/
def interleaved (files : List File) (config : Config) (schedule : List Nat) : Batch :=
  (Batch.opened files).run config schedule

end CodeNav
