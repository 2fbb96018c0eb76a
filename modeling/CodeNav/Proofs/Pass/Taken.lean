import CodeNav.Proofs.Pass.Declared

/-!
# What a destination takes

A destination may refuse records, and a refusal ends the pass. Whatever it does, the records that it
took differ from one another, and each was offered at a node that the pass has entered
(`kept_entered`). If the pass succeeds, nothing that was offered is missing (`taken_of_ok`). The
records that a destination took are read off a ledger around it, which changes nothing about the
pass (`index_opened`).
-/

namespace CodeNav

namespace File

variable {σ : Type} [Sink σ] {f : File} {config : Config} {d : Node} {k : FactKind} {r : Record}

/-! ## What is offered at a node -/

theorem mem_offers_work (hr : r ∈ (f.work config d).offers) :
    ∃ k ∈ f.factsAt config d, r ∈ (f.collection config (d, k)).offers := by
  rw [work] at hr
  rcases Script.mem_offers_bind.mp hr with hr | ⟨_, -, hr⟩
  · simp at hr
  · exact Script.mem_offers_forM hr

theorem mem_offers_script (hr : r ∈ (f.script config).offers) :
    ∃ d ∈ f.visible, ∃ k, r ∈ (extraction f.tree f.table config.hover k d).offers := by
  obtain ⟨d, hd, hr⟩ := Script.mem_offers_forM hr
  obtain ⟨k, -, hr⟩ := mem_offers_work hr
  exact ⟨d, hd, k, hr⟩

theorem mem_offers_script_of_ok (hok : (f.script config).result = .ok ()) (hd : d ∈ f.visible)
    (hk : k ∈ f.factsAt config d) :
    (f.collection config (d, k)).result = .ok () ∧
      (f.collection config (d, k)).offers ⊆ (f.script config).offers := by
  have htask : (d, k) ∈ f.tasks config := mem_tasks.mpr ⟨hd, hk⟩
  obtain ⟨hoffers, hresult⟩ := f.offers_script config
  rw [hresult, Script.result_forM_eq_ok_iff] at hok
  refine ⟨hok _ htask, fun r hr => ?_⟩
  rw [hoffers, Script.offers_forM_of_ok hok]
  exact List.mem_flatMap.mpr ⟨(d, k), htask, hr⟩

/-! ## The nodes of a pass -/

/-- The nodes that a pass enters, in order, until it ends or the destination refuses a record. -/
def enteredInto (f : File) (config : Config) (s : σ) : List Node :=
  f.tree.entered (f.enter config)
    ((Context.new f.document s).note (.started f.document f.tree.size))

theorem enteredInto_prefix_visible (hf : f.tree.Linked) (config : Config) (s : σ) :
    f.enteredInto config s <+: f.visible := by
  rw [visible_eq_toEnter hf]
  exact Tree.entered_prefix_toEnter hf (f.answers_enter config) _

theorem visible_of_entered (hf : f.tree.Linked) {s : σ} (hd : d ∈ f.enteredInto config s) :
    d ∈ f.visible :=
  (enteredInto_prefix_visible hf config s).subset hd

omit [Sink σ] in
theorem visible_of_mem_ancestors (hf : f.tree.Linked) {a : Node} (hd : d ∈ f.visible)
    (ha : a ∈ f.tree.ancestors d) : a ∈ f.visible := by
  obtain ⟨hmem, hopen⟩ := (mem_visible_iff hf).mp hd
  refine (mem_visible_iff hf).mpr ⟨(hf.ancestor_lt hmem a ha).1, fun b hb => ?_⟩
  exact hopen b (hf.ancestors_trans hmem ha hb)

theorem mem_of_prefix_enteredInto (hf : f.tree.Linked) {s : σ} {a : Node} {ds : List Node}
    (hpre : ds <+: f.enteredInto config s) (hd : d ∈ ds) (ha : a ∈ f.tree.ancestors d) : a ∈ ds := by
  have hpre := hpre.trans (enteredInto_prefix_visible hf config s)
  have hvisible := visible_of_mem_ancestors hf (hpre.subset hd) ha
  cases hroot : f.tree.root? with
  | none => simp [visible, hroot] at hvisible
  | some root =>
      have hsub : f.visible.Sublist (f.tree.preorder root) := by
        rw [visible, hroot, Option.toList_some, List.flatMap_singleton]
        exact List.filter_sublist
      exact hf.mem_of_prefix_of_mem_ancestors (Tree.Linked.mem_of_root? hroot) hsub hpre hd
        hvisible ha

/-- The nodes that a pass enters, each with the context in which it is entered. -/
def entriesInto (f : File) (config : Config) (s : σ) : List (Context σ × Node) :=
  f.tree.entries (f.enter config)
    ((Context.new f.document s).note (.started f.document f.tree.size))

theorem map_entriesInto (f : File) (config : Config) (s : σ) :
    (f.entriesInto config s).map (·.2) = f.enteredInto config s :=
  Tree.map_entries f.tree (f.enter config) _

/-- When a node is entered, the nodes in front of it have all succeeded, and what they offer was
taken. -/
theorem hasTaken_of_entry (hf : f.tree.Linked) {s : σ} (hs : Sink.NeverFails s)
    {before after : List (Context σ × Node)} {c : Context σ} {d : Node}
    (hentry : f.entriesInto config s = before ++ (c, d) :: after) :
    (∀ x ∈ before.map (·.2), (f.work config x).result = .ok ()) ∧
      Context.HasTaken s ((before.map (·.2)).flatMap fun x => (f.work config x).offers) c := by
  have hrun := Tree.enterAll_of_entry hf (f.answers_enter config) hentry
  rw [enterAll_enter] at hrun
  obtain ⟨c', hperform, hc'⟩ :=
    ((Context.hasTaken_new f.document s).note (.started f.document f.tree.size)).perform hs
      (forM (before.map (·.2)) (f.work config))
  obtain ⟨hresult, rfl⟩ := Prod.mk.inj (hperform.symm.trans hrun)
  have hok := Script.result_forM_eq_ok_iff.mp hresult
  refine ⟨hok, ?_⟩
  rw [Script.offers_forM_of_ok hok] at hc'
  exact hc'

theorem enteredInto_of_ok (hf : f.tree.Linked) {s : σ} {summary : Summary}
    (hok : (f.index config s).1 = .ok summary) : f.enteredInto config s = f.visible := by
  rw [enteredInto, visible_eq_toEnter hf]
  apply Tree.entered_of_ok hf (f.answers_enter config)
  rw [enterAll_enter, ← visible_eq_toEnter hf, ← script]
  rw [index_eq hf] at hok
  split at hok
  · rename_i heq
    rw [heq]
  · cases hok

/-! ## A ledger around the destination -/

/-- A pass into a destination around another one is a pass into that other one. -/
theorem index_mapSink {τ : Type} [Sink τ] {φ : τ → σ} (hφ : Sink.Hom φ) (f : File)
    (config : Config) (s : τ) :
    f.index config (φ s) = ((f.index config s).1, (f.index config s).2.mapSink φ) := by
  have henter : ∀ (c : Context τ) d, f.enter config (c.mapSink φ) d =
      ((f.enter config c d).1, (f.enter config c d).2.mapSink φ) := fun c d =>
    Context.perform_mapSink hφ c (f.visit config d)
  have hconclude : ∀ (c : Context τ) stats,
      conclude (c.mapSink φ) stats = ((conclude c stats).1, (conclude c stats).2.mapSink φ) := by
    intro c stats
    rw [conclude, conclude, Context.finish_mapSink hφ]
    rcases c.finish with ⟨e | counts, c'⟩ <;> rfl
  have hwalk := Tree.walk_map (t := f.tree) (Context.mapSink φ) henter
    ((Context.new f.document s).note (.started f.document f.tree.size))
  have hstart : ((Context.new f.document s).note (.started f.document f.tree.size)).mapSink φ =
      (Context.new f.document (φ s)).note (.started f.document f.tree.size) := rfl
  rw [hstart] at hwalk
  rw [index, index, hwalk]
  rcases f.tree.walk (f.enter config)
    ((Context.new f.document s).note (.started f.document f.tree.size)) with ⟨e | stats, c⟩
  · rfl
  · exact hconclude c stats

/-- A ledger changes nothing about a pass. -/
theorem index_opened (f : File) (config : Config) (s : σ) :
    f.index config s = ((f.index config (Ledger.opened s)).1,
      (f.index config (Ledger.opened s)).2.mapSink Ledger.inner) :=
  index_mapSink Ledger.hom_inner f config (Ledger.opened s)

theorem kept_conclude {rs : List Record} {c : Context (Ledger σ)} (h : Context.Kept rs c)
    (stats : WalkStats) : Context.Kept rs (conclude c stats).2 := by
  have hflush : (Sink.flush c.sink).2.taken = c.sink.taken := rfl
  rw [conclude, Context.finish]
  rcases hs : Sink.flush c.sink with ⟨e | u, s⟩
  · rw [hs] at hflush
    exact ⟨hflush.trans h.taken_eq, h.nodup, h.subset⟩
  · rw [hs] at hflush
    exact ⟨hflush.trans h.taken_eq, h.nodup, h.subset⟩

theorem accepted_conclude (c : Context σ) (stats : WalkStats) :
    (conclude c stats).2.accepted = c.accepted := by
  rw [conclude, Context.finish]
  rcases Sink.flush c.sink with ⟨e | u, s⟩ <;> rfl

omit [Sink σ] in
theorem kept_start (f : File) (s : σ) (rs : List Record) :
    Context.Kept rs
      ((Context.new f.document (Ledger.opened s)).note (.started f.document f.tree.size)) :=
  ⟨rfl, List.nodup_nil, List.nil_subset rs⟩

/-- What any destination takes in a pass, it takes once, and it was offered by the script. -/
theorem kept_index (hf : f.tree.Linked) (config : Config) (s : σ) :
    Context.Kept (f.script config).offers (f.index config (Ledger.opened s)).2 := by
  have hperform := (kept_start f s (f.script config).offers).perform
    (List.Subset.refl (f.script config).offers)
  rw [index_eq hf]
  split
  · rename_i c heq
    rw [heq] at hperform
    exact kept_conclude hperform _
  · rename_i heq
    rw [heq] at hperform
    exact hperform

/-- A visit keeps the ledger in step: what is taken is offered at the nodes entered. -/
theorem kept_enter {ds : List Node} {c : Context (Ledger σ)}
    (h : Context.Kept (ds.flatMap fun d => (f.work config d).offers) c) (d : Node) :
    Context.Kept ((ds ++ [d]).flatMap fun d => (f.work config d).offers) (f.enter config c d).2 := by
  have hmono : Context.Kept ((ds ++ [d]).flatMap fun d => (f.work config d).offers) c := by
    apply h.mono
    rw [List.flatMap_append]
    exact List.subset_append_left _ _
  have hperform : Context.Kept ((ds ++ [d]).flatMap fun d => (f.work config d).offers)
      (c.perform (f.work config d)).2 := hmono.perform (by simp)
  rw [enter_eq]
  rcases hrun : c.perform (f.work config d) with ⟨e | u, c'⟩
  · rw [hrun] at hperform
    exact hperform
  · rw [hrun] at hperform
    exact hperform

/-- **Nothing comes from nowhere.** What any destination takes in a pass was offered at a node that
the pass has entered by then. -/
theorem kept_entered (f : File) (config : Config) (s : σ) :
    Context.Kept
      ((f.enteredInto config (Ledger.opened s)).flatMap fun d => (f.work config d).offers)
      (f.index config (Ledger.opened s)).2 := by
  have hstep : ∀ ds (c : Context (Ledger σ)) d,
      Context.Kept (ds.flatMap fun d => (f.work config d).offers) c →
        Context.Kept ((ds ++ [d]).flatMap fun d => (f.work config d).offers) (f.enter config c d).2 :=
    fun _ _ d h => kept_enter h d
  have hwalk := Tree.entered_invariant (t := f.tree) hstep (kept_start f s [])
  rw [index]
  split
  · rename_i stats c heq
    rw [heq] at hwalk
    exact kept_conclude hwalk stats
  · rename_i e c heq
    rw [heq] at hwalk
    exact hwalk

/-- **Nothing is lost.** In a pass that succeeds, the destination takes all that is offered. -/
theorem taken_of_ok (hf : f.tree.Linked) {s : σ} {summary : Summary}
    (hok : (f.index config (Ledger.opened s)).1 = .ok summary) :
    (f.script config).result = .ok () ∧
      (f.script config).offers ⊆ (f.index config (Ledger.opened s)).2.sink.taken := by
  have hkept := kept_index hf config s
  have haccepted : (f.script config).result = .ok () ∧
      (f.script config).offers ⊆ (f.index config (Ledger.opened s)).2.accepted := by
    rw [index_eq hf] at hok ⊢
    split at hok
    · rename_i c hrun
      rw [accepted_conclude]
      exact Context.accepted_of_perform_ok hrun
    · cases hok
  refine ⟨haccepted.1, fun r hr => ?_⟩
  rw [hkept.taken_eq, List.mem_reverse]
  exact haccepted.2 hr

end File

end CodeNav
