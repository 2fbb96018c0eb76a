import CodeNav.Proofs.Pass.Taken

/-!
# Passes into memory

A pass into memory keeps all that it is handed, so it ends as its collections do: with the fault of
the first one that has a fault (`failing?`), or else with a summary of what it went through. What it
has delivered and which nodes it has entered are read off the same description. How a pass ends, and
where, is the same for every other destination that never fails.
-/

namespace CodeNav

namespace File

/-! ## How it ends and what it keeps -/

def result (f : File) (config : Config) : Except Fault Summary :=
  (f.index config MemorySink.empty).1

/-- The records that a pass leaves in memory. -/
def delivered (f : File) (config : Config) : List Record :=
  (f.index config MemorySink.empty).2.sink.records.toList

def entered (f : File) (config : Config) : List Node :=
  f.tree.entered (f.enter config)
    ((Context.new f.document MemorySink.empty).note (.started f.document f.tree.size))

def isFaulty (f : File) (config : Config) (task : Node × FactKind) : Bool :=
  match (f.collection config task).result with
  | .ok _ => false
  | .error _ => true

/-- The collection that a pass fails in: the first one with a fault. -/
def failing? (f : File) (config : Config) : Option (Node × FactKind) :=
  (f.tasks config).find? (f.isFaulty config)

variable {σ : Type} [Sink σ] {s : σ}
variable {f : File} {config : Config} {task : Node × FactKind} {d : Node} {k : FactKind}

theorem isFaulty_eq_false_iff :
    f.isFaulty config task = false ↔ (f.collection config task).result = .ok () := by
  unfold isFaulty
  cases (f.collection config task).result with
  | error e => simp
  | ok u => simp

theorem exists_of_isFaulty (h : f.isFaulty config task = true) :
    ∃ e, (f.collection config task).result = .error e := by
  unfold isFaulty at h
  split at h
  · cases h
  · exact ⟨_, ‹_›⟩

theorem failing?_eq_none_iff :
    f.failing? config = none ↔ ∀ x ∈ f.tasks config, (f.collection config x).result = .ok () := by
  rw [failing?, List.find?_eq_none]
  constructor
  · intro h x hx
    exact isFaulty_eq_false_iff.mp (Bool.eq_false_iff.mpr (h x hx))
  · intro h x hx
    rw [isFaulty_eq_false_iff.mpr (h x hx)]
    exact Bool.false_ne_true

theorem split_of_failing? (h : f.failing? config = some task) :
    ∃ before rest e, f.tasks config = before ++ task :: rest ∧
      (∀ x ∈ before, (f.collection config x).result = .ok ()) ∧
      (f.collection config task).result = .error e := by
  rw [failing?, List.find?_eq_some_iff_append] at h
  obtain ⟨hfault, before, rest, hsplit, hbefore⟩ := h
  obtain ⟨e, he⟩ := exists_of_isFaulty hfault
  refine ⟨before, rest, e, hsplit, ?_, he⟩
  intro x hx
  apply isFaulty_eq_false_iff.mp
  simpa using hbefore x hx

theorem failing?_of_split {before rest : List (Node × FactKind)} {e : Fault}
    (hsplit : f.tasks config = before ++ task :: rest)
    (hbefore : ∀ x ∈ before, (f.collection config x).result = .ok ())
    (he : (f.collection config task).result = .error e) : f.failing? config = some task := by
  unfold failing?
  rw [hsplit, List.find?_eq_some_iff_append]
  refine ⟨?_, before, rest, rfl, ?_⟩
  · unfold isFaulty
    rw [he]
  · intro x hx
    rw [isFaulty_eq_false_iff.mpr (hbefore x hx)]
    rfl

theorem delivered_eq (hf : f.tree.Linked) (config : Config) :
    f.delivered config =
      (forM (f.tasks config) (f.collection config)).offers.eraseDups := by
  obtain ⟨c, hc, hindex⟩ := index_hasTaken hf config MemorySink.neverFails_empty
  rw [(f.offers_script config).1] at hc
  unfold delivered
  rcases hres : (f.script config).result with e | u
  · rw [hres] at hindex
    rw [hindex]
    show c.sink.records.toList = _
    rw [hc.sink_eq, MemorySink.after_empty]
  · obtain ⟨c₁, hconclude, hsink⟩ := conclude_of_hasTaken MemorySink.neverFails_empty hc
      (.ofNodes f.prunes f.visible)
    rw [hres] at hindex
    rw [hindex.trans hconclude]
    show c₁.sink.records.toList = _
    rw [hsink, MemorySink.after_empty]
    rfl

theorem delivered_of_split (hf : f.tree.Linked) {before rest : List (Node × FactKind)} {e : Fault}
    (hsplit : f.tasks config = before ++ task :: rest)
    (hbefore : ∀ x ∈ before, (f.collection config x).result = .ok ())
    (he : (f.collection config task).result = .error e) :
    f.delivered config = (f.offered config (before ++ [task])).eraseDups := by
  rw [delivered_eq hf, hsplit, Script.offers_forM_of_fault hbefore he]
  rfl

theorem result_script (h : f.failing? config = none) : (f.script config).result = .ok () := by
  rw [(f.offers_script config).2]
  exact Script.result_forM_eq_ok_iff.mpr (failing?_eq_none_iff.mp h)

theorem index_of_failing?_eq_none (hf : f.tree.Linked) (hs : Sink.NeverFails s)
    (h : f.failing? config = none) :
    ∃ summary, (f.index config s).1 = .ok summary ∧
      summary.nodesVisited = f.visible.length ∧
      summary.subtreesPruned = f.visible.countP f.prunes ∧
      ∀ k, summary.facts.of k = ((f.delivered config).filter (·.kind = k)).length := by
  obtain ⟨c, hc, hindex⟩ := index_hasTaken hf config hs
  obtain ⟨c₁, hconclude, -⟩ := conclude_of_hasTaken hs hc (.ofNodes f.prunes f.visible)
  rw [result_script h] at hindex
  refine ⟨_, congrArg Prod.fst (hindex.trans hconclude), rfl, rfl, ?_⟩
  intro k
  rw [delivered_eq hf, ← (f.offers_script config).1]
  exact hc.of_counts k

theorem result_of_failing?_eq_none (hf : f.tree.Linked) (h : f.failing? config = none) :
    ∃ summary, f.result config = .ok summary ∧
      summary.nodesVisited = f.visible.length ∧
      summary.subtreesPruned = f.visible.countP f.prunes ∧
      ∀ k, summary.facts.of k = ((f.delivered config).filter (·.kind = k)).length :=
  index_of_failing?_eq_none hf MemorySink.neverFails_empty h

theorem index_of_failing? (hf : f.tree.Linked) (hs : Sink.NeverFails s)
    (h : f.failing? config = some task) {e : Fault}
    (he : (f.collection config task).result = .error e) : (f.index config s).1 = .error e := by
  obtain ⟨before, rest, e', hsplit, hbefore, he'⟩ := split_of_failing? h
  obtain rfl := Except.error.inj (he'.symm.trans he)
  obtain ⟨c, -, hindex⟩ := index_hasTaken hf config hs
  rw [(f.offers_script config).2, hsplit, Script.forM_of_fault hbefore he] at hindex
  exact congrArg Prod.fst hindex

theorem result_of_failing? (hf : f.tree.Linked) (h : f.failing? config = some task) {e : Fault}
    (he : (f.collection config task).result = .error e) : f.result config = .error e :=
  index_of_failing? hf MemorySink.neverFails_empty h he

theorem failing?_eq_none_of_result (hf : f.tree.Linked) {summary : Summary}
    (h : f.result config = .ok summary) : f.failing? config = none := by
  cases hfailing : f.failing? config with
  | none => rfl
  | some task =>
      obtain ⟨before, rest, e, -, -, he⟩ := split_of_failing? hfailing
      rw [result_of_failing? hf hfailing he] at h
      cases h

/-! ## Where a pass is when it ends -/

theorem result_work (f : File) (config : Config) (d : Node) :
    (f.work config d).result =
      (forM (f.factsAt config d) fun k => f.collection config (d, k)).result := by
  rw [work, Script.bind_of_ok (Script.result_notes _)]

theorem visible_split_of_failing? (h : f.failing? config = some (d, k)) :
    ∃ pre post e, f.visible = pre ++ d :: post ∧
      (∀ x ∈ pre, (f.work config x).result = .ok ()) ∧ (f.work config d).result = .error e := by
  unfold failing? tasks at h
  rw [List.find?_flatMap, List.findSome?_eq_some_iff] at h
  obtain ⟨pre, x, post, hsplit, hx, hpre⟩ := h
  rw [List.find?_map, Option.map_eq_some_iff] at hx
  obtain ⟨k', hfind, hpair⟩ := hx
  obtain ⟨rfl, rfl⟩ := Prod.mk.inj hpair
  obtain ⟨hfault, ks, ks', hks, hbefore⟩ := List.find?_eq_some_iff_append.mp hfind
  obtain ⟨e, he⟩ := exists_of_isFaulty hfault
  refine ⟨pre, post, e, hsplit, ?_, ?_⟩
  · intro y hy
    rw [result_work, Script.result_forM_eq_ok_iff]
    intro j hj
    have hnone := List.find?_eq_none.mp (hpre y hy) (y, j) (List.mem_map.mpr ⟨j, hj, rfl⟩)
    exact isFaulty_eq_false_iff.mp (Bool.eq_false_iff.mpr hnone)
  · have hok : ∀ j ∈ ks, (f.collection config (x, j)).result = .ok () := by
      intro j hj
      apply isFaulty_eq_false_iff.mp
      simpa using hbefore j hj
    rw [result_work, hks,
      Script.forM_of_fault (f := fun k => f.collection config (x, k)) hok he]

/-- Where the destination never fails, entering nodes fails where their work does. -/
theorem enterAll_of_neverFails (f : File) (config : Config) (hs : Sink.NeverFails s)
    (ds : List Node) :
    ∃ c, Tree.enterAll (f.enter config)
        ds ((Context.new f.document s).note (.started f.document f.tree.size)) =
        ((forM ds (f.work config)).result, c) ∧
      Context.HasTaken s (forM ds (f.work config)).offers c := by
  rw [enterAll_enter]
  exact ((Context.hasTaken_new f.document s).note
    (.started f.document f.tree.size)).perform hs _

theorem entered_of_failing?_eq_none (hf : f.tree.Linked) (h : f.failing? config = none) :
    f.entered config = f.visible := by
  obtain ⟨c, hall, -⟩ := f.enterAll_of_neverFails config MemorySink.neverFails_empty f.visible
  rw [visible_eq_toEnter hf] at hall ⊢
  apply Tree.entered_of_ok hf (f.answers_enter config)
  rw [hall, ← visible_eq_toEnter hf]
  exact result_script h

theorem getLast?_enteredInto (hf : f.tree.Linked) (hs : Sink.NeverFails s)
    (h : f.failing? config = some (d, k)) : (f.enteredInto config s).getLast? = some d := by
  obtain ⟨pre, post, e, hsplit, hpre, he⟩ := visible_split_of_failing? h
  obtain ⟨c, hall, hc⟩ := f.enterAll_of_neverFails config hs pre
  rw [Script.result_forM_eq_ok_iff.mpr hpre] at hall
  rw [visible_eq_toEnter hf] at hsplit
  have hfail : (f.enter config c d).1 = .error e := by
    obtain ⟨c', hperform, -⟩ := hc.perform hs (f.work config d)
    rw [enter_eq, hperform, he]
  have hentered : f.enteredInto config s = pre ++ [d] := by
    apply Tree.entered_of_error hf (f.answers_enter config) hsplit
    · rw [hall]
    · rw [hall]
      exact hfail
  rw [hentered, List.getLast?_concat]

theorem getLast?_entered (hf : f.tree.Linked) (h : f.failing? config = some (d, k)) :
    (f.entered config).getLast? = some d :=
  getLast?_enteredInto hf MemorySink.neverFails_empty h

end File

end CodeNav
