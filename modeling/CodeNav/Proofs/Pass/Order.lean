import CodeNav.Proofs.Extraction
import CodeNav.Proofs.Pass.Memory

/-!
# Visits in any order

A context is shared by all the visits of a session, and each of them changes it. Still, neither what
a visit offers nor how it answers depends on that context: both are read off the script of the node.
So a session answers node by node (`enterEach_of_hasTaken`), and the records in memory at its end
are the first occurrences of what the scripts offer. Order and repetitions of the visits decide
nothing but the order of those records and how many repetitions are held back
(`visit_order_irrelevant`).
-/

namespace CodeNav

open Extraction

namespace File

variable {σ : Type}

/-! ## Sessions -/

/-- Enters nodes one after the other, and goes on after an error. -/
def enterEach [Sink σ] (f : File) (config : Config) :
    List Node → Context σ → List (Except Fault Signal) × Context σ
  | [], c => ([], c)
  | d :: ds, c =>
      match f.enter config c d with
      | (answer, c₁) =>
        match f.enterEach config ds c₁ with
        | (answers, c₂) => (answer :: answers, c₂)

/-- The answers to a list of visits into memory, and the context at the end. -/
def session (f : File) (config : Config) (ds : List Node) :
    List (Except Fault Signal) × Context MemorySink :=
  f.enterEach config ds (Context.new f.document MemorySink.empty)

def gathered (f : File) (config : Config) (ds : List Node) : List Record :=
  (f.session config ds).2.sink.records.toList

/-- The answer to a visit: a property of the node. -/
def answer (f : File) (config : Config) (d : Node) : Except Fault Signal :=
  (f.visit config d).result

variable {f : File} {config : Config} {d : Node} {ds ds' : List Node} {r : Record}

/-! ## What a session comes to -/

theorem enterEach_of_hasTaken [Sink σ] (f : File) (config : Config) {s : σ} (hs : Sink.NeverFails s)
    {offered : List Record} {c : Context σ} (hc : Context.HasTaken s offered c) (ds : List Node) :
    ∃ c', f.enterEach config ds c = (ds.map (f.answer config), c') ∧
      Context.HasTaken s (offered ++ ds.flatMap fun d => (f.visit config d).offers) c' := by
  -- one visit appends the offers of its script, whether or not it has a fault
  induction ds generalizing offered c with
  | nil =>
      refine ⟨c, rfl, ?_⟩
      rw [List.flatMap_nil, List.append_nil]
      exact hc
  | cons d ds ih =>
      obtain ⟨c₁, hperform, hc₁⟩ := hc.perform hs (f.visit config d)
      obtain ⟨c₂, heach, hc₂⟩ := ih hc₁
      have henter : f.enter config c d = (f.answer config d, c₁) := hperform
      refine ⟨c₂, ?_, ?_⟩
      · rw [enterEach, henter]
        simp only [heach, List.map_cons]
      · rw [List.flatMap_cons, ← List.append_assoc]
        exact hc₂

/-- What a session offers, over all of its visits. -/
def offeredAt (f : File) (config : Config) (ds : List Node) : List Record :=
  ds.flatMap fun d => (f.visit config d).offers

theorem session_spec (f : File) (config : Config) (ds : List Node) :
    (f.session config ds).1 = ds.map (f.answer config) ∧
      Context.HasTaken MemorySink.empty (f.offeredAt config ds) (f.session config ds).2 := by
  obtain ⟨c, heach, hc⟩ := enterEach_of_hasTaken f config MemorySink.neverFails_empty
    (Context.hasTaken_new f.document MemorySink.empty) ds
  rw [session, heach]
  exact ⟨rfl, hc⟩

theorem gathered_eq (f : File) (config : Config) (ds : List Node) :
    f.gathered config ds = (f.offeredAt config ds).eraseDups := by
  rw [gathered, (f.session_spec config ds).2.sink_eq, MemorySink.after_empty]

theorem mem_offeredAt : r ∈ f.offeredAt config ds ↔ ∃ d ∈ ds, r ∈ (f.visit config d).offers :=
  List.mem_flatMap

theorem mem_gathered_iff :
    r ∈ f.gathered config ds ↔ ∃ d ∈ ds, r ∈ (f.visit config d).offers := by
  rw [gathered_eq, List.mem_eraseDups]
  exact mem_offeredAt

theorem mem_offeredAt_congr (f : File) (config : Config) (h : ∀ d, d ∈ ds ↔ d ∈ ds') (r : Record) :
    r ∈ f.offeredAt config ds ↔ r ∈ f.offeredAt config ds' := by
  simp only [mem_offeredAt, h]

/-- The answer to a visit is the signal of the node's route, or the fault of a collection at the
node. -/
theorem answer_cases (hf : f.tree.Linked) (config : Config) (hd : d ∈ f.tree.nodes) :
    f.answer config d = .ok (route f.tree f.table d).signal ∨
      ∃ n ∈ f.tree.nodes, f.answer config d = .error (.missingName n.id n.kind) := by
  rw [answer, visit_eq]
  rcases hwork : (f.work config d).result with e | u
  · right
    have hfault := (f.result_work config d).symm.trans hwork
    obtain ⟨k, -, hk⟩ := Script.exists_of_result_forM_eq_error hfault
    obtain ⟨n, hn, rfl⟩ := missingName_of_extraction hf hd hk
    refine ⟨n, hn, ?_⟩
    rw [Script.bind_of_error hwork]
  · left
    rw [Script.bind_of_ok hwork]
    rfl

/-! ## The theorem -/

/-- **The order of visits carries no information.** A visit is answered alike in every session and
at every place in it, by the signal of the node's route or by the name that is missing; what a
session leaves are the records that the scripts of its nodes offer. Sessions that visit the same
nodes, in whatever order and however often, end with the same records and with as many of each kind;
if they visit each node equally often, they also hold back as many repetitions. Visiting a node
again adds no record. -/
theorem visit_order_irrelevant (hf : f.tree.Grown) (config : Config) :
    ((∀ d ∈ f.tree.nodes, f.answer config d = .ok (route f.tree f.table d).signal ∨
        ∃ n ∈ f.tree.nodes, f.answer config d = .error (.missingName n.id n.kind)) ∧
      ∀ ds, (f.session config ds).1 = ds.map (f.answer config) ∧
        ∀ r, r ∈ f.gathered config ds ↔ ∃ d ∈ ds, r ∈ (f.visit config d).offers) ∧
    (∀ ds ds', (∀ d, d ∈ ds ↔ d ∈ ds') →
      (∀ r, r ∈ f.gathered config ds ↔ r ∈ f.gathered config ds') ∧
      ∀ k, (f.session config ds).2.counts.of k = (f.session config ds').2.counts.of k) ∧
    (∀ ds ds', ds.Perm ds' →
      (f.session config ds).2.counts.duplicatesSuppressed =
        (f.session config ds').2.counts.duplicatesSuppressed) ∧
    ∀ ds, ∀ d ∈ ds, f.gathered config (ds ++ [d]) = f.gathered config ds := by
  refine ⟨⟨?_, ?_⟩, ?_, ?_, ?_⟩
  · intro d hd
    exact answer_cases hf.linked config hd
  · intro ds
    exact ⟨(f.session_spec config ds).1, fun r => mem_gathered_iff⟩
  · intro ds ds' h
    have hperm := eraseDups_perm (mem_offeredAt_congr f config h)
    constructor
    · intro r
      rw [gathered_eq, gathered_eq]
      exact hperm.mem_iff
    · intro k
      rw [(f.session_spec config ds).2.of_counts, (f.session_spec config ds').2.of_counts]
      exact (hperm.filter _).length_eq
  · intro ds ds' h
    have hperm := eraseDups_perm (mem_offeredAt_congr f config fun _ => h.mem_iff)
    have hoffered : (f.offeredAt config ds).length = (f.offeredAt config ds').length :=
      (h.flatMap_right _).length_eq
    -- what is held back is what was offered, less the first occurrences
    have hsuppressed := (f.session_spec config ds).2.suppressed
    have hsuppressed' := (f.session_spec config ds').2.suppressed
    have hfirst := hperm.length_eq
    omega
  · intro ds d hd
    have hsub : (f.visit config d).offers ⊆ f.offeredAt config ds :=
      fun r hr => mem_offeredAt.mpr ⟨d, hd, hr⟩
    have hsplit : f.offeredAt config (ds ++ [d]) =
        f.offeredAt config ds ++ (f.visit config d).offers := by
      simp [offeredAt]
    rw [gathered_eq, gathered_eq, hsplit, eraseDups_append_of_subset hsub]

set_option maxRecDepth 10000 in
/-- The nameless type answers with its fault before the method and after it; the method leaves its
two references whether it is visited once or twice. -/
theorem brokenDemo_visit_order :
    ∃ t m : Node, brokenDemo.answer .default t = .error (.missingName ⟨8⟩ .typeDecl) ∧
      (brokenDemo.session .default [t, m]).1 =
        [.error (.missingName ⟨8⟩ .typeDecl), brokenDemo.answer .default m] ∧
      (∀ r, r ∈ brokenDemo.gathered .default [t, m] ↔ r ∈ brokenDemo.gathered .default [m, t, m]) ∧
      (brokenDemo.session .default [t, m]).2.counts.of .reference = 2 ∧
      (brokenDemo.session .default [m, t, m]).2.counts.of .reference = 2 ∧
      (brokenDemo.session .default [m, t, m]).2.counts.duplicatesSuppressed =
        (brokenDemo.session .default [t, m, m]).2.counts.duplicatesSuppressed ∧
      brokenDemo.gathered .default [t, m, m] = brokenDemo.gathered .default [t, m] := by
  let t : Node := ⟨⟨8⟩, .typeDecl, some ⟨0⟩, [], none, demoSpan 5 1⟩
  let m : Node := ⟨⟨3⟩, .methodDecl, some ⟨1⟩, [⟨4⟩, ⟨5⟩, ⟨7⟩], none, demoSpan 2 1⟩
  have ht : brokenDemo.answer .default t = .error (.missingName ⟨8⟩ .typeDecl) := by
    rfl
  have hcount : (brokenDemo.session .default [t, m]).2.counts.of .reference = 2 := by
    rfl
  have hsame : ∀ d, d ∈ [t, m] ↔ d ∈ [m, t, m] := by
    intro d
    simp [or_comm]
  obtain ⟨⟨-, hanswers⟩, hset, hperm, hagain⟩ := visit_order_irrelevant brokenDemo_grown .default
  obtain ⟨hrecords, hcounts⟩ := hset [t, m] [m, t, m] hsame
  refine ⟨t, m, ht, ?_, hrecords, hcount, ?_, ?_, ?_⟩
  · rw [(hanswers _).1, List.map_cons, List.map_cons, List.map_nil, ht]
  · rw [← hcounts]
    exact hcount
  · exact hperm _ _ (List.Perm.swap t m [m])
  · exact hagain [t, m] m (List.mem_cons_of_mem t (List.mem_singleton_self m))

end File

end CodeNav
