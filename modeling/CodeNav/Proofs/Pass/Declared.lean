import CodeNav.Pass
import CodeNav.Proofs.Delivery
import CodeNav.Proofs.Walk

/-!
# What a pass delivers

A pass streams: it walks, routes, extracts and delivers at once. Yet what it delivers has a plain
description in two phases. First come the visible nodes, in pre-order; then, for each of them, the
collections that its route asks for and that are switched on. `index_eq` reduces a pass to performing
one script, the one that goes through the visible nodes, whatever the destination does;
`index_delivers_declared` compares the outcome for a destination that never fails with the
description.
-/

namespace CodeNav

namespace File

variable {σ : Type}

/-! ## The description -/

def prunes (f : File) (d : Node) : Bool := (route f.tree f.table d).signal = .prune

/-- The nodes in pre-order of which no proper ancestor is pruned. -/
def visible (f : File) : List Node :=
  (f.tree.root?.toList.flatMap f.tree.preorder).filter fun d =>
    (f.tree.ancestors d).all fun a => !f.prunes a

/-- What is collected at a node: the facts of its route that are switched on. -/
def factsAt (f : File) (config : Config) (d : Node) : List FactKind :=
  (route f.tree f.table d).facts.filter config.facts.enabled

/-- The collections of a pass, in order: each visible node with each fact to collect there. -/
def tasks (f : File) (config : Config) : List (Node × FactKind) :=
  f.visible.flatMap fun d => (f.factsAt config d).map (d, ·)

def collection (f : File) (config : Config) (task : Node × FactKind) : Script Record Unit :=
  extraction f.tree f.table config.hover task.2 task.1

def offered (f : File) (config : Config) (tasks : List (Node × FactKind)) : List Record :=
  tasks.flatMap fun task => (f.collection config task).offers

/-! ## A pass is one script -/

def work (f : File) (config : Config) (d : Node) : Script Record Unit := do
  .notes (route f.tree f.table d).notice.toList
  forM (f.factsAt config d) fun k => f.collection config (d, k)

def script (f : File) (config : Config) : Script Record Unit := forM f.visible (f.work config)

theorem collect_eq_forM {ρ : Type} (enabled : FactKind → Bool)
    (extract : FactKind → Script ρ Unit) (ks : List FactKind) :
    collect enabled extract ks = forM (ks.filter enabled) extract := by
  induction ks with
  | nil => rfl
  | cons k ks ih =>
      rw [collect, ih]
      cases hk : enabled k with
      | false => simp [hk]
      | true => simp [hk]

theorem visit_eq (f : File) (config : Config) (d : Node) :
    f.visit config d = f.work config d >>= fun _ => pure (route f.tree f.table d).signal := by
  rw [visit, CodeNav.visit, work, factsAt, bind_assoc, collect_eq_forM]
  rfl

theorem enter_eq [Sink σ] (f : File) (config : Config) (c : Context σ) (d : Node) :
    f.enter config c d =
      match c.perform (f.work config d) with
      | (.ok (), c') => (.ok (route f.tree f.table d).signal, c')
      | (.error e, c') => (.error e, c') := by
  have hvisit : f.enter config c d =
      c.perform (f.work config d >>= fun _ => pure (route f.tree f.table d).signal) :=
    congrArg c.perform (f.visit_eq config d)
  rw [hvisit, Context.perform_bind]
  rcases c.perform (f.work config d) with ⟨_ | _, _⟩ <;> rfl

theorem answers_enter [Sink σ] (f : File) (config : Config) :
    f.tree.Answers f.prunes (f.enter (σ := σ) config) := by
  intro c d _ signal h
  have hsignal : signal = (route f.tree f.table d).signal := by
    rw [enter_eq] at h
    split at h
    · exact (Except.ok.inj h).symm
    · cases h
  rw [hsignal, prunes]
  cases (route f.tree f.table d).signal <;> rfl

theorem enterAll_enter [Sink σ] (f : File) (config : Config) (ds : List Node) (c : Context σ) :
    Tree.enterAll (f.enter config) ds c = c.perform (forM ds (f.work config)) := by
  induction ds generalizing c with
  | nil => rfl
  | cons d ds ih =>
      rw [List.forM_cons, Context.perform_bind, Tree.enterAll, enter_eq]
      rcases c.perform (f.work config d) with ⟨e | u, c'⟩
      · rfl
      · exact ih c'

theorem visible_eq_toEnter {f : File} (hf : f.tree.Linked) :
    f.visible = f.tree.toEnter f.prunes :=
  (hf.toEnter_eq_filter f.prunes).symm

theorem mem_tasks {f : File} {config : Config} {task : Node × FactKind} :
    task ∈ f.tasks config ↔ task.1 ∈ f.visible ∧ task.2 ∈ f.factsAt config task.1 := by
  constructor
  · intro h
    obtain ⟨d, hd, h⟩ := List.mem_flatMap.mp h
    obtain ⟨k, hk, rfl⟩ := List.mem_map.mp h
    exact ⟨hd, hk⟩
  · rintro ⟨hd, hk⟩
    exact List.mem_flatMap.mpr ⟨task.1, hd, List.mem_map.mpr ⟨task.2, hk, rfl⟩⟩

theorem mem_visible_iff {f : File} (hf : f.tree.Linked) {d : Node} :
    d ∈ f.visible ↔ d ∈ f.tree.nodes ∧ ∀ a ∈ f.tree.ancestors d, f.prunes a = false := by
  rw [visible, List.mem_filter, hf.mem_preorder_root_iff]
  simp only [List.all_eq_true, Bool.not_eq_true']

theorem mem_nodes_of_visible {f : File} (hf : f.tree.Linked) {d : Node} (hd : d ∈ f.visible) :
    d ∈ f.tree.nodes :=
  ((mem_visible_iff hf).mp hd).1

/-- **A pass is one script.** It performs the script of the visible nodes, and concludes if that
succeeded. -/
theorem index_eq [Sink σ] {f : File} (hf : f.tree.Linked) (config : Config) (s : σ) :
    f.index config s =
      match ((Context.new f.document s).note (.started f.document f.tree.size)).perform
          (f.script config) with
      | (.ok (), c) => conclude c (.ofNodes f.prunes f.visible)
      | (.error e, c) => (.error e, c) := by
  rw [index, Tree.walk_eq_enterAll hf (f.answers_enter config), enterAll_enter,
    ← visible_eq_toEnter hf, ← script]
  rcases ((Context.new f.document s).note (.started f.document f.tree.size)).perform
    (f.script config) with ⟨e | u, c⟩ <;> rfl

theorem quiet_script (f : File) (config : Config) :
    (f.script config).quiet = (forM (f.tasks config) (f.collection config)).quiet := by
  have hwork : ∀ d, (f.work config d).quiet =
      (forM (f.factsAt config d) fun k => f.collection config (d, k)).quiet := by
    intro d
    rw [work, Script.quiet_bind, Script.quiet_notes, pure_bind]
  rw [script, Script.quiet_forM, tasks, Script.forM_flatMap, Script.quiet_forM]
  refine Script.forM_congr fun d _ => ?_
  rw [hwork, Script.forM_map]

theorem offers_script (f : File) (config : Config) :
    (f.script config).offers = (forM (f.tasks config) (f.collection config)).offers ∧
      (f.script config).result = (forM (f.tasks config) (f.collection config)).result :=
  ⟨by rw [← Script.offers_quiet, quiet_script, Script.offers_quiet],
    by rw [← Script.result_quiet, quiet_script, Script.result_quiet]⟩

/-! ## A small file -/

def demoSpan (line column : Nat) : Span :=
  ⟨.ofNat line, .ofNat column, .ofNat line, .ofNat (column + 3)⟩

/-- A type with a method, which calls a method that stands for nothing and then names a variable;
the call names that variable too. -/
def demoSteps : List Tree.Growth :=
  [.root .compilationUnit (demoSpan 1 1),
   .child ⟨0⟩ .typeDecl none (demoSpan 1 2),
   .child ⟨1⟩ .simpleName (some "Foo") (demoSpan 1 7),
   .child ⟨1⟩ .methodDecl none (demoSpan 2 1),
   .child ⟨3⟩ .simpleName (some "run") (demoSpan 2 6),
   .child ⟨3⟩ .methodInvocation none (demoSpan 3 1),
   .child ⟨5⟩ .simpleName (some "x") (demoSpan 3 5),
   .child ⟨3⟩ .simpleName (some "x") (demoSpan 4 5)]

def demoTable : SymbolTable where
  symbols :=
    #[.type ⟨"demo.Foo", .classType, some ⟨3⟩, [], some (demoSpan 1 7)⟩,
      .method ⟨"run", some ⟨0⟩, "void run()", some (demoSpan 2 6)⟩,
      .var ⟨"x", "int", none, none⟩,
      .type ⟨"demo.Base", .classType, none, [], none⟩]
  bindings := [(⟨2⟩, ⟨0⟩), (⟨4⟩, ⟨1⟩), (⟨6⟩, ⟨2⟩), (⟨7⟩, ⟨2⟩)]

def demo : File := ⟨"Foo.java", demoSteps.foldl Tree.attempt .empty, demoTable⟩

theorem demo_grown : demo.tree.Grown := ⟨demoSteps, rfl⟩

/-- The small file with another type at its end, which lacks its name. -/
def brokenDemo : File :=
  { demo with tree := demo.tree.attempt (.child ⟨0⟩ .typeDecl none (demoSpan 5 1)) }

theorem brokenDemo_grown : brokenDemo.tree.Grown :=
  demo_grown.attempt (.child ⟨0⟩ .typeDecl none (demoSpan 5 1))

/-! ## The outcome -/

/-- A pass into a destination that never fails: it ends as the script ends, and the destination was
handed the first occurrences of what the script offers. -/
theorem index_hasTaken [Sink σ] {f : File} (hf : f.tree.Linked) (config : Config) {s : σ}
    (hs : Sink.NeverFails s) :
    ∃ c, Context.HasTaken s (f.script config).offers c ∧
      f.index config s =
        match (f.script config).result with
        | .ok () => conclude c (.ofNodes f.prunes f.visible)
        | .error e => (.error e, c) := by
  obtain ⟨c, hperform, hc⟩ :=
    ((Context.hasTaken_new f.document s).note (.started f.document f.tree.size)).perform hs
      (f.script config)
  refine ⟨c, hc, ?_⟩
  rw [index_eq hf, hperform]
  rcases (f.script config).result with e | u <;> rfl

theorem conclude_of_hasTaken [Sink σ] {s : σ} (hs : Sink.NeverFails s) {rs : List Record}
    {c : Context σ} (hc : Context.HasTaken s rs c) (stats : WalkStats) :
    ∃ c', conclude c stats = (.ok ⟨stats.visited, stats.pruned, c.counts⟩, c') ∧
      c'.sink = (Sink.flush (Sink.after s rs.eraseDups)).2 := by
  have hflush : Sink.flush c.sink = (.ok (), (Sink.flush (Sink.after s rs.eraseDups)).2) := by
    rw [hc.sink_eq]
    exact Prod.ext (hs.flush_ok _) rfl
  rw [conclude, Context.finish, hflush]
  exact ⟨_, rfl, rfl⟩

/-- **A pass delivers what its description says.** For a destination that never fails: a pass that
succeeds has handed over the first occurrences of all that its collections offer, and its summary
counts the visible nodes, those pruned, the records of each kind, and the repetitions left out. A
pass that fails has handed over the first occurrences of what was offered up to the first collection
with a fault, and fails with that fault. -/
theorem index_delivers_declared [Sink σ] {f : File} (hf : f.tree.Grown) (config : Config) {s : σ}
    (hs : Sink.NeverFails s) :
    (∀ summary c, f.index config s = (.ok summary, c) →
      (∀ task ∈ f.tasks config, (f.collection config task).result = .ok ()) ∧
      c.sink = (Sink.flush (Sink.after s (f.offered config (f.tasks config)).eraseDups)).2 ∧
      summary.nodesVisited = f.visible.length ∧
      summary.subtreesPruned = (f.visible.filter f.prunes).length ∧
      (∀ k, summary.facts.of k =
        ((f.offered config (f.tasks config)).eraseDups.filter (·.kind = k)).length) ∧
      summary.facts.duplicatesSuppressed =
        (f.offered config (f.tasks config)).length -
          (f.offered config (f.tasks config)).eraseDups.length) ∧
    ∀ e c, f.index config s = (.error e, c) →
      ∃ before task rest, f.tasks config = before ++ task :: rest ∧
        (∀ x ∈ before, (f.collection config x).result = .ok ()) ∧
        (f.collection config task).result = .error e ∧
        c.sink = Sink.after s (f.offered config (before ++ [task])).eraseDups := by
  obtain ⟨c₀, hc₀, hindex⟩ := index_hasTaken hf.linked config hs
  obtain ⟨hoffers, hresult⟩ := f.offers_script config
  rw [hoffers] at hc₀
  rw [hresult] at hindex
  rcases Script.ok_or_first_fault (f.collection config) (f.tasks config) with
    hok | ⟨before, task, rest, e, hsplit, hbefore, htask⟩
  · -- every collection succeeds
    rw [Script.forM_of_ok hok] at hindex
    rw [Script.offers_forM_of_ok hok] at hc₀
    obtain ⟨c₁, hconclude, hsink⟩ :=
      conclude_of_hasTaken hs hc₀ (.ofNodes f.prunes f.visible)
    have hrun := hindex.trans hconclude
    constructor
    · intro summary c h
      obtain ⟨hsummary, rfl⟩ := Prod.mk.inj (h.symm.trans hrun)
      obtain rfl := Except.ok.inj hsummary
      have hsuppressed := hc₀.suppressed
      refine ⟨hok, hsink, rfl, List.countP_eq_length_filter, hc₀.of_counts, ?_⟩
      change c₀.counts.duplicatesSuppressed = _
      rw [offered]
      omega
    · intro e c h
      cases h.symm.trans hrun
  · -- the first fault ends the pass
    rw [hsplit, Script.forM_of_fault hbefore htask] at hindex
    rw [hsplit, Script.offers_forM_of_fault hbefore htask] at hc₀
    constructor
    · intro summary c h
      cases h.symm.trans hindex
    · intro e' c h
      cases h.symm.trans hindex
      exact ⟨before, task, rest, hsplit, hbefore, htask, hc₀.sink_eq⟩

set_option maxRecDepth 10000 in
/-- The small file keeps five of six offers; the one with the nameless type fails there, with the
same five kept. -/
theorem demo_delivers :
    (∃ summary c, demo.index .default MemorySink.empty = (.ok summary, c) ∧
      c.sink = (Sink.flush (Sink.after MemorySink.empty
        (demo.offered .default (demo.tasks .default)).eraseDups)).2 ∧
      summary.nodesVisited = demo.visible.length ∧
      summary.subtreesPruned = (demo.visible.filter demo.prunes).length ∧
      summary.facts.duplicatesSuppressed = 1) ∧
    ∃ before task rest, brokenDemo.tasks .default = before ++ task :: rest ∧
      (brokenDemo.collection .default task).result = .error (.missingName (.ofNat 8) .typeDecl) ∧
      (brokenDemo.index .default MemorySink.empty).2.sink =
        Sink.after MemorySink.empty (brokenDemo.offered .default (before ++ [task])).eraseDups := by
  have hnever := MemorySink.neverFails_empty
  constructor
  · have hrun : (demo.index .default MemorySink.empty).1 = .ok ⟨7, 2, ⟨1, 2, 1, 1, 1⟩⟩ := by
      rfl
    obtain ⟨-, hsink, hvisited, hpruned, -⟩ :=
      (index_delivers_declared demo_grown .default hnever).1 _ _ (Prod.ext hrun rfl)
    exact ⟨_, _, Prod.ext hrun rfl, hsink, hvisited, hpruned, rfl⟩
  · have hrun : (brokenDemo.index .default MemorySink.empty).1 =
        .error (.missingName (.ofNat 8) .typeDecl) := by
      rfl
    obtain ⟨before, task, rest, hsplit, -, htask, hsink⟩ :=
      (index_delivers_declared brokenDemo_grown .default hnever).2 _ _ (Prod.ext hrun rfl)
    exact ⟨before, task, rest, hsplit, htask, hsink⟩

end File

end CodeNav
