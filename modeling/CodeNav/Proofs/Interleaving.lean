import CodeNav.Interleaving
import CodeNav.Proofs.Pass.Memory
import Mathlib.Logic.Function.Iterate

/-!
# Files of a batch do not interfere

Two things are proved of passes that take turns. A single pass, taken step by step, is on course to
the outcome that it has when it runs at once (`Job.OnCourse`), and each step brings it nearer to its
end (`Job.turnsLeft`). And a turn touches the pass whose turn it is and no other, so that after any
schedule a pass is where its own turns have brought it (`getElem?_jobs_run`), while the log holds the
warnings of the passes that have ended, in some order (`log_perm_run`). Hence every schedule that
finishes leads to the outcomes of the files indexed one after the other
(`interleavings_agree`).
-/

namespace CodeNav

/-! ## One pass, step by step -/

namespace Job

variable {config : Config} {job : Job}

/-- A pass is on course to the outcome of its file: what its walk has yet to do ends as the whole walk
does. -/
inductive OnCourse (config : Config) : Job → Prop
  | waiting (f : File) : OnCourse config ⟨f, .waiting⟩
  | walking (f : File) (steps : Nat) {pending : List Node} {stats : WalkStats}
      {c : Context MemorySink} (hmem : ∀ d ∈ pending, d ∈ f.tree.nodes)
      (hsteps : (f.tree.agenda f.prunes pending).length ≤ steps)
      (hwalk : f.tree.walkOn (f.enter config) steps pending stats c =
        f.tree.walk (f.enter config) (start f)) :
      OnCourse config ⟨f, .walking pending stats c⟩
  | ended (f : File) : OnCourse config ⟨f, .ended (f.outcome config).result⟩
  | reported (f : File) : OnCourse config ⟨f, .reported (f.outcome config)⟩

/-- A bound on the turns that a pass still needs. -/
def turnsLeft : Job → Nat
  | ⟨f, .waiting⟩ => f.tree.size + 3
  | ⟨f, .walking pending _ _⟩ => (f.tree.agenda f.prunes pending).length + 2
  | ⟨_, .ended _⟩ => 1
  | ⟨_, .reported _⟩ => 0

@[simp] theorem file_step (config : Config) (job : Job) : (job.step config).file = job.file := by
  unfold step
  split <;> rfl

theorem outcome_of_walk_error {f : File} {e : Fault} {c : Context MemorySink}
    (h : f.tree.walk (f.enter config) (start f) = (.error e, c)) :
    (f.outcome config).result = .error e := by
  rw [start] at h
  rw [File.outcome, File.index, h]
  rfl

theorem outcome_of_walk_ok {f : File} {stats : WalkStats} {c : Context MemorySink}
    (h : f.tree.walk (f.enter config) (start f) = (.ok stats, c)) :
    .ended (f.outcome config).result = conclude stats c := by
  rw [start] at h
  rw [File.outcome, File.index, h]
  rfl

theorem enter_of_ok {f : File} {d : Node} {c c' : Context MemorySink} {signal : Signal}
    (h : f.enter config c d = (.ok signal, c')) (pending : List Node) (stats : WalkStats) :
    enter config f d pending stats c =
      .walking (f.tree.below d signal ++ pending) (stats.enter signal) c' := by
  rw [enter, h]

theorem enter_of_error {f : File} {d : Node} {c c' : Context MemorySink} {e : Fault}
    (h : f.enter config c d = (.error e, c')) (pending : List Node) (stats : WalkStats) :
    enter config f d pending stats c = .ended (.error e) := by
  rw [enter, h]

theorem agenda_below {f : File} (hf : f.tree.Linked) {d : Node} {pending : List Node}
    {c c' : Context MemorySink} {signal : Signal} (hmem : ∀ x ∈ d :: pending, x ∈ f.tree.nodes)
    (henter : f.enter config c d = (.ok signal, c')) :
    (∀ x ∈ f.tree.below d signal ++ pending, x ∈ f.tree.nodes) ∧
      f.tree.agenda f.prunes (d :: pending) =
        d :: f.tree.agenda f.prunes (f.tree.below d signal ++ pending) := by
  obtain ⟨hd, hpending⟩ := List.forall_mem_cons.mp hmem
  have hsignal : signal = .ofStop (f.prunes d) :=
    f.answers_enter config c d hd signal (by rw [henter])
  rw [hsignal, Tree.below_ofStop]
  exact ⟨hf.belowUnless_append_mem hd hpending, hf.agenda_cons f.prunes hd pending⟩

/-- **One step of a pass.** -/
theorem OnCourse.step (h : OnCourse config job) (hf : job.file.tree.Linked) :
    OnCourse config (job.step config) := by
  cases h with
  | waiting f =>
      exact .walking f f.tree.size (fun _ => Tree.Linked.mem_of_mem_root?)
        (hf.length_agenda_root_le f.prunes) rfl
  | @walking f steps pending stats c hmem hsteps hwalk =>
      cases pending with
      | nil =>
          have hdone : f.tree.walkOn (f.enter config) steps [] stats c = (.ok stats, c) := by
            cases steps <;> rfl
          rw [Job.step, ← outcome_of_walk_ok (hwalk.symm.trans hdone)]
          exact .ended f
      | cons d pending =>
          cases steps with
          | zero =>
              rw [hf.agenda_cons f.prunes (hmem d List.mem_cons_self)] at hsteps
              exact absurd hsteps (Nat.not_succ_le_zero _)
          | succ steps =>
              rw [Tree.walkOn] at hwalk
              rw [Job.step]
              rcases henter : f.enter config c d with ⟨e | signal, c'⟩
              · rw [henter] at hwalk
                rw [enter_of_error henter, ← outcome_of_walk_error hwalk.symm]
                exact .ended f
              · rw [henter] at hwalk
                obtain ⟨hmem', hagenda⟩ := agenda_below hf hmem henter
                rw [hagenda] at hsteps
                rw [enter_of_ok henter]
                exact .walking f steps hmem' (Nat.le_of_succ_le_succ hsteps) hwalk
  | ended f => exact .reported f
  | reported f => exact .reported f

theorem turnsLeft_step (h : OnCourse config job) (hf : job.file.tree.Linked) :
    (job.step config).turnsLeft ≤ job.turnsLeft - 1 := by
  cases h with
  | waiting f =>
      have hagenda : (f.tree.agenda f.prunes f.tree.root?.toList).length ≤ f.tree.size :=
        hf.length_agenda_root_le f.prunes
      simp only [Job.step, begin, turnsLeft]
      omega
  | @walking f steps pending stats c hmem hsteps hwalk =>
      cases pending with
      | nil =>
          rw [Job.step, conclude]
          simp only [turnsLeft]
          omega
      | cons d pending =>
          rw [Job.step]
          rcases henter : f.enter config c d with ⟨e | signal, c'⟩
          · rw [enter_of_error henter]
            simp only [turnsLeft]
            omega
          · rw [enter_of_ok henter]
            simp only [turnsLeft, (agenda_below hf hmem henter).2, List.length_cons]
            omega
  | ended f => exact Nat.le_refl 0
  | reported f => exact Nat.le_refl 0

theorem file_iterate (config : Config) (job : Job) (n : Nat) :
    ((step config)^[n] job).file = job.file := by
  induction n with
  | zero => rfl
  | succ n ih => rw [Function.iterate_succ_apply', file_step, ih]

/-- **A pass stays on course**, however far it is taken, and its end comes nearer. -/
theorem OnCourse.iterate (h : OnCourse config job) (hf : job.file.tree.Linked) (n : Nat) :
    OnCourse config ((Job.step config)^[n] job) ∧
      ((Job.step config)^[n] job).turnsLeft ≤ job.turnsLeft - n := by
  induction n with
  | zero => exact ⟨h, Nat.le_refl _⟩
  | succ n ih =>
      obtain ⟨hn, hleft⟩ := ih
      have hfn : ((Job.step config)^[n] job).file.tree.Linked := by
        rw [file_iterate]
        exact hf
      rw [Function.iterate_succ_apply']
      refine ⟨hn.step hfn, ?_⟩
      have hstep := turnsLeft_step hn hfn
      omega

theorem OnCourse.outcome?_eq (h : OnCourse config job) (hdone : job.outcome?.isSome = true) :
    job = ⟨job.file, .reported (job.file.outcome config)⟩ := by
  cases h with
  | waiting f => cases hdone
  | walking f => cases hdone
  | ended f => cases hdone
  | reported f => rfl

theorem isSome_of_turnsLeft (h : job.turnsLeft = 0) : job.outcome?.isSome = true := by
  obtain ⟨f, _ | ⟨pending, stats, c⟩ | result | outcome⟩ := job
  · exact absurd h (Nat.succ_ne_zero _)
  · exact absurd h (Nat.succ_ne_zero _)
  · exact absurd h (Nat.succ_ne_zero _)
  · rfl

/-- What a job has left in the log: the warning of its outcome, once that is handed in. -/
def warned (job : Job) : List String := (job.outcome?.bind Outcome.warning?).toList

/-- A job that is done has left one warning if its file fails, and none otherwise. -/
theorem warned_reported (config : Config) (f : File) :
    Job.warned ⟨f, .reported (f.outcome config)⟩ =
      match f.result config with
      | .ok _ => []
      | .error e => ["Failed to index file: " ++ f.document ++ ": " ++ e.message] := by
  show (Outcome.warning? ⟨f.document, (f.result config).map _⟩).toList = _
  cases f.result config <;> rfl

theorem warned_step (config : Config) (job : Job) :
    (job.step config).warned = job.warned ++ job.warning?.toList := by
  obtain ⟨f, _ | ⟨_ | ⟨d, pending⟩, stats, c⟩ | result | outcome⟩ := job
  · rfl
  · rfl
  · rw [step, Job.enter]
    rcases f.enter config c d with ⟨e | signal, c'⟩ <;> rfl
  · rfl
  · exact (List.append_nil _).symm

end Job

/-! ## Turns -/

namespace Batch

variable {config : Config} {b : Batch}

/-- **A turn touches one pass**, so after a schedule each one has taken the steps of its own turns. -/
theorem getElem?_jobs_run (config : Config) (b : Batch) (schedule : List Nat) (i : Nat) :
    (b.run config schedule).jobs[i]? = b.jobs[i]?.map (Job.step config)^[schedule.count i] := by
  induction schedule generalizing b with
  | nil => exact Option.map_id_apply.symm
  | cons j schedule ih =>
      have hturn : (b.turn config j).jobs[i]? =
          b.jobs[i]?.map fun job => if j = i then job.step config else job := by
        rw [turn, List.getElem?_modify]
        rfl
      rw [run, List.foldl_cons, ← run, ih, hturn, Option.map_map, List.count_cons]
      congr 1
      funext job
      by_cases hj : j = i
      · simp [hj]
      · simp [hj]

theorem log_perm_opened (files : List File) :
    (opened files).log.Perm ((opened files).jobs.flatMap Job.warned) := by
  rw [opened, List.flatMap_map, List.flatMap_eq_nil_iff.mpr]
  intro f _
  rfl

/-- A turn leaves what the step of the pass has to say in the log. -/
theorem log_perm_turn (h : b.log.Perm (b.jobs.flatMap Job.warned)) (config : Config) (i : Nat) :
    (b.turn config i).log.Perm ((b.turn config i).jobs.flatMap Job.warned) := by
  rw [turn]
  by_cases hi : i < b.jobs.length
  · obtain ⟨before, job, after, hjobs, hlength, hmodify⟩ :=
      List.exists_of_modify (Job.step config) hi
    have hjob : b.jobs[i]? = some job := by
      rw [hjobs, ← hlength, List.getElem?_append_right (Nat.le_refl _), Nat.sub_self]
      rfl
    rw [hjobs, List.flatMap_append, List.flatMap_cons] at h
    rw [hmodify, hjob, List.flatMap_append, List.flatMap_cons, Job.warned_step, Option.bind_some]
    -- the warning moves from the end of the log to its place among the files
    refine (h.append_right job.warning?.toList).trans ?_
    rw [List.append_assoc, List.append_assoc, List.append_assoc]
    exact (List.perm_append_comm.append_left job.warned).append_left (before.flatMap Job.warned)
  · have hi := Nat.le_of_not_lt hi
    rw [List.modify_eq_self hi, List.getElem?_eq_none hi]
    simpa using h

theorem log_perm_run (h : b.log.Perm (b.jobs.flatMap Job.warned)) (config : Config)
    (schedule : List Nat) :
    (b.run config schedule).log.Perm ((b.run config schedule).jobs.flatMap Job.warned) := by
  induction schedule generalizing b with
  | nil => exact h
  | cons i schedule ih => exact ih (log_perm_turn h config i)

end Batch

/-! ## Any schedule -/

section Schedules

variable {files : List File} {config : Config} {schedule : List Nat}

theorem getElem?_jobs_interleaved (files : List File) (config : Config) (schedule : List Nat)
    (i : Nat) :
    (interleaved files config schedule).jobs[i]? =
      files[i]?.map fun f => (Job.step config)^[schedule.count i] ⟨f, .waiting⟩ := by
  rw [interleaved, Batch.getElem?_jobs_run, Batch.opened, List.getElem?_map, Option.map_map]
  rfl

variable (hfiles : ∀ f ∈ files, f.tree.Linked)

include hfiles

theorem jobs_of_finished (h : (interleaved files config schedule).Finished) :
    (interleaved files config schedule).jobs =
      files.map fun f => ⟨f, .reported (f.outcome config)⟩ := by
  apply List.ext_getElem?
  intro i
  have hi := getElem?_jobs_interleaved files config schedule i
  rw [hi, List.getElem?_map]
  cases hf : files[i]? with
  | none => rfl
  | some f =>
      rw [hf] at hi
      have hdone := h _ (List.mem_of_getElem? hi)
      have hlinked := hfiles f (List.mem_of_getElem? hf)
      have hcourse : Job.OnCourse config ⟨f, .waiting⟩ := .waiting f
      have hjob := (hcourse.iterate hlinked _).1.outcome?_eq hdone
      rw [Job.file_iterate] at hjob
      exact congrArg some hjob

/-- **Enough turns for each file finish the batch.** -/
theorem finished_of_count
    (hturns : ∀ i f, files[i]? = some f → f.tree.size + 3 ≤ schedule.count i) :
    (interleaved files config schedule).Finished := by
  intro job hjob
  obtain ⟨i, hi⟩ := List.mem_iff_getElem?.mp hjob
  rw [getElem?_jobs_interleaved, Option.map_eq_some_iff] at hi
  obtain ⟨f, hf, rfl⟩ := hi
  apply Job.isSome_of_turnsLeft
  have hlinked := hfiles f (List.mem_of_getElem? hf)
  have hcourse : Job.OnCourse config ⟨f, .waiting⟩ := .waiting f
  have hleft := (hcourse.iterate hlinked (schedule.count i)).2
  have hcount := hturns i f hf
  have hstart : (⟨f, .waiting⟩ : Job).turnsLeft = f.tree.size + 3 := rfl
  omega

end Schedules

/-- **Files of a batch do not interfere.** Let files be indexed at the same time, in any order of
turns. Once the last outcome is handed in, there is one for each file, in the order of the files: its
document, and the records and the summary of a pass over the file alone, or the fault of that pass and
no records. The log then holds one warning for each file that failed, in some order. And the last
outcome is handed in as soon as each file has had its turns. -/
theorem interleavings_agree {files : List File} (hfiles : ∀ f ∈ files, f.tree.Grown)
    (config : Config) (schedule : List Nat) :
    ((interleaved files config schedule).Finished →
      (interleaved files config schedule).outcomes = indexFiles files config ∧
      (∀ (i : Nat) (f : File), files[i]? = some f →
        (interleaved files config schedule).outcomes[i]? = some
          ⟨f.document, (f.result config).map fun summary => ⟨f.delivered config, summary⟩⟩) ∧
      (interleaved files config schedule).log.Perm (files.flatMap fun f =>
        match f.result config with
        | .ok _ => []
        | .error e => ["Failed to index file: " ++ f.document ++ ": " ++ e.message])) ∧
    ((∀ (i : Nat) (f : File), files[i]? = some f → f.tree.size + 3 ≤ schedule.count i) →
      (interleaved files config schedule).Finished) := by
  have hlinked : ∀ f ∈ files, f.tree.Linked := fun f hf => (hfiles f hf).linked
  refine ⟨?_, finished_of_count hlinked⟩
  intro hfinished
  have hjobs := jobs_of_finished hlinked hfinished
  have houtcomes : (interleaved files config schedule).outcomes = indexFiles files config := by
    rw [Batch.outcomes, hjobs, List.filterMap_map, indexFiles, ← List.filterMap_eq_map]
    rfl
  refine ⟨houtcomes, ?_, ?_⟩
  · intro i f hf
    rw [houtcomes, indexFiles, List.getElem?_map, hf]
    rfl
  · have hlog : (interleaved files config schedule).log.Perm
        ((interleaved files config schedule).jobs.flatMap Job.warned) :=
      Batch.log_perm_run (Batch.log_perm_opened files) config schedule
    rw [hjobs, List.flatMap_map] at hlog
    simpa only [Job.warned_reported] using hlog

set_option maxRecDepth 10000 in
/-- The small file and the one with the nameless type take turns: the first is indexed, the second
leaves the only warning. -/
theorem demo_interleaved :
    (interleaved [File.demo, File.brokenDemo] .default ((List.range 24).map (· % 2))).outcomes =
        indexFiles [File.demo, File.brokenDemo] .default ∧
      (interleaved [File.demo, File.brokenDemo] .default ((List.range 24).map (· % 2))).log =
        ["Failed to index file: Foo.java: type_decl node #8 has no identifier"] := by
  have hgrown : ∀ f ∈ [File.demo, File.brokenDemo], f.tree.Grown := by
    intro f hf
    rcases List.mem_pair.mp hf with rfl | rfl
    · exact File.demo_grown
    · exact File.brokenDemo_grown
  have hturns : ∀ (i : Nat) (f : File), [File.demo, File.brokenDemo][i]? = some f →
      f.tree.size + 3 ≤ ((List.range 24).map (· % 2)).count i := by
    intro i f hf
    rcases i with _ | _ | i
    · cases hf
      decide
    · cases hf
      decide
    · cases hf
  obtain ⟨hagree, hfinish⟩ :=
    interleavings_agree hgrown .default ((List.range 24).map (· % 2))
  obtain ⟨houtcomes, -, hlog⟩ := hagree (hfinish hturns)
  refine ⟨houtcomes, List.perm_singleton.mp (hlog.trans ?_)⟩
  decide +kernel

end CodeNav
