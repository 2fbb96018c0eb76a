import CodeNav.Proofs.Pass.Memory
import CodeNav.Proofs.Pass.Taken
import CodeNav.Proofs.Refusal
import Mathlib.Order.Bounds.Defs

/-!
# What a refusal does to a pass

A pass into any destination hands over what a pass into memory keeps, in the same order, and stops
at the first refusal (`index_eq_outcomeInto`). A refusal therefore cuts the index off and does
nothing else (`refusals_truncate`): nothing is handed over after it, the destination is not flushed,
and the fault of the pass is that of the refused call.
-/

namespace CodeNav

theorem Counts.eq_of_of_eq {c c' : Counts} (h : ∀ k, c.of k = c'.of k)
    (hsuppressed : c.duplicatesSuppressed = c'.duplicatesSuppressed) : c = c' := by
  obtain ⟨definitions, references, hovers, implementations, suppressed⟩ := c
  obtain rfl : definitions = _ := h .definition
  obtain rfl : references = _ := h .reference
  obtain rfl : hovers = _ := h .hover
  obtain rfl : implementations = _ := h .implementation
  obtain rfl : suppressed = _ := hsuppressed
  rfl

/-- The counts of a context are known from what was offered to it, whatever its destination, and do
not change under a map that keeps kinds and tells the records apart. -/
theorem Context.HasTaken.counts_eq_of_map {σ τ : Type} [Sink σ] [Sink τ] {s : σ} {s' : τ}
    {offered : List Record} {g : Record → Record} {c : Context σ} {c' : Context τ}
    (h : HasTaken s offered c) (h' : HasTaken s' (offered.map g) c')
    (hkind : ∀ r, (g r).kind = r.kind)
    (hinj : ∀ r ∈ offered, ∀ r' ∈ offered, g r = g r' → r = r') : c.counts = c'.counts := by
  have hsuppressed := h.suppressed
  have hsuppressed' := h'.suppressed
  rw [eraseDups_map hinj, List.length_map, List.length_map] at hsuppressed'
  apply Counts.eq_of_of_eq
  · intro k
    rw [h.of_counts, h'.of_counts, eraseDups_map hinj, List.filter_map, List.length_map]
    simp only [Function.comp_def, hkind]
  · omega

theorem Context.HasTaken.counts_eq {σ τ : Type} [Sink σ] [Sink τ] {s : σ} {s' : τ}
    {offered : List Record} {c : Context σ} {c' : Context τ} (h : HasTaken s offered c)
    (h' : HasTaken s' offered c') : c.counts = c'.counts := by
  rw [← List.map_id offered] at h'
  exact h.counts_eq_of_map h' (fun _ => rfl) fun _ _ _ _ => id

namespace File

variable {σ : Type} [Sink σ] {f : File} {config : Config} {s : σ}

/-! ## A pass is a delivery -/

/-- What becomes of a destination, and how the pass ends, if the records that a pass keeps in memory
are delivered to it: it is flushed if none is refused and the pass into memory succeeds. -/
def outcomeInto (f : File) (config : Config) (s : σ) : Except Fault Summary × σ :=
  match Sink.deliver s (f.delivered config) with
  | (.error e, s') => (.error e, s')
  | (.ok (), s') =>
      match f.result config with
      | .error e => (.error e, s')
      | .ok summary => ((Sink.flush s').1.map fun _ => summary, (Sink.flush s').2)

theorem conclude_fst_sink (c : Context σ) (stats : WalkStats) :
    ((conclude c stats).1, (conclude c stats).2.sink) =
      ((Sink.flush c.sink).1.map fun _ => ⟨stats.visited, stats.pruned, c.counts⟩,
        (Sink.flush c.sink).2) := by
  rw [conclude, Context.finish]
  rcases Sink.flush c.sink with ⟨e | u, s⟩ <;> rfl

/-- **Every pass delivers what a pass into memory keeps.** -/
theorem index_eq_outcomeInto (hf : f.tree.Linked) (config : Config) (s : σ) :
    ((f.index config s).1, (f.index config s).2.sink) = f.outcomeInto config s := by
  have hdelivered : (f.script config).offers.eraseDups = f.delivered config := by
    rw [delivered_eq hf, (f.offers_script config).1]
  -- the pass into memory goes through the same script
  obtain ⟨m, hm, hmemory⟩ := index_hasTaken hf config MemorySink.neverFails_empty
  have hstart : Context.HasTaken s []
      ((Context.new f.document s).note (.started f.document f.tree.size)) :=
    (Context.hasTaken_new f.document s).note _
  rw [outcomeInto, index_eq hf]
  rcases hstart.perform_deliver rfl (f.script config) with
    ⟨c, hperform, hc, hdeliver⟩ | ⟨e, c, hperform, hdeliver⟩
  · rw [List.nil_append, hdelivered] at hdeliver
    rw [hperform, hdeliver, result]
    rcases hscript : (f.script config).result with e | u
    · rw [hscript] at hmemory
      rw [hmemory]
    · obtain ⟨m', hconclude, -⟩ := conclude_of_hasTaken MemorySink.neverFails_empty hm
        (.ofNodes f.prunes f.visible)
      rw [hscript] at hmemory
      rw [hmemory, hconclude, ← hc.counts_eq hm]
      exact conclude_fst_sink c (.ofNodes f.prunes f.visible)
  · rw [List.nil_append, hdelivered] at hdeliver
    rw [hperform, hdeliver]

theorem taken_prefix_delivered (hf : f.tree.Linked) (config : Config) (s : σ) :
    (f.index config (Ledger.opened s)).2.sink.taken <+: f.delivered config := by
  have hsink : (f.index config (Ledger.opened s)).2.sink =
      (f.outcomeInto config (Ledger.opened s)).2 :=
    congrArg Prod.snd (index_eq_outcomeInto hf config (Ledger.opened s))
  obtain ⟨pre, hpre, htaken⟩ :=
    (Ledger.opened s).exists_prefix_of_deliver (f.delivered config)
  have htaken : (Sink.deliver (Ledger.opened s) (f.delivered config)).2.taken = pre := htaken
  rw [hsink, outcomeInto]
  rcases hdeliver : Sink.deliver (Ledger.opened s) (f.delivered config) with ⟨e | u, l⟩
  · rw [hdeliver] at htaken
    exact htaken ▸ hpre
  · -- a flush takes nothing
    rw [hdeliver] at htaken
    rcases f.result config with e | summary
    · exact htaken ▸ hpre
    · exact htaken ▸ hpre

/-! ## Refusals -/

def callsTo (f : File) (config : Config) (s : σ) : List Sink.Call :=
  (f.index config (Audited.opened s)).2.sink.calls

/-- An audit changes nothing about a pass: how it ends and which calls it makes are read off the
same delivery. -/
theorem result_callsTo (hf : f.tree.Linked) (config : Config) (s : σ) :
    (f.index config s).1 = (f.outcomeInto config (Audited.opened s)).1 ∧
      f.callsTo config s = (f.outcomeInto config (Audited.opened s)).2.calls := by
  rw [← index_eq_outcomeInto hf]
  refine ⟨?_, rfl⟩
  exact congrArg Prod.fst (index_mapSink Audited.hom_inner f config (Audited.opened s))

theorem calls_of_refused (hf : f.tree.Linked) (config : Config) {F : Set ℕ}
    (hs : Sink.RefusesAt F s) {n : ℕ} (hleast : IsLeast F n) (hn : n < (f.delivered config).length) :
    ∃ e, (f.index config s).1 = .error e ∧
      f.callsTo config s =
        ((f.delivered config).take n).map (Sink.Call.emit · (.ok ())) ++
          [.emit (f.delivered config)[n] (.error e)] := by
  have hlength : ((f.delivered config).take n).length = n :=
    List.length_take_of_le (Nat.le_of_lt hn)
  have hsplit : f.delivered config =
      (f.delivered config).take n ++ (f.delivered config)[n] :: (f.delivered config).drop (n + 1) := by
    rw [List.getElem_cons_drop, List.take_append_drop]
  obtain ⟨e, hdeliver⟩ := Audited.deliver_of_refused hs (by rw [hlength]; exact hleast.1)
    (by rw [hlength]; exact fun m hm => hleast.2 hm) (f.delivered config)[n]
    ((f.delivered config).drop (n + 1))
  rw [← hsplit] at hdeliver
  obtain ⟨hresult, hcalls⟩ := result_callsTo hf config s
  rw [hresult, hcalls, outcomeInto, hdeliver]
  exact ⟨e, rfl, rfl⟩

theorem calls_of_taken (hf : f.tree.Linked) (config : Config) {F : Set ℕ}
    (hs : Sink.RefusesAt F s) (hF : ∀ n ∈ F, (f.delivered config).length ≤ n) :
    (∀ e, f.result config = .error e →
      (f.index config s).1 = .error e ∧
      f.callsTo config s = (f.delivered config).map (Sink.Call.emit · (.ok ()))) ∧
    ∀ summary, f.result config = .ok summary → ∃ answer,
      (f.index config s).1 = answer.map (fun _ => summary) ∧
      f.callsTo config s =
        (f.delivered config).map (Sink.Call.emit · (.ok ())) ++ [.flush answer] := by
  obtain ⟨hresult, hcalls⟩ := result_callsTo hf config s
  rw [hresult, hcalls, outcomeInto, Audited.deliver_of_refusesAt hs hF]
  constructor
  · intro e he
    rw [he]
    exact ⟨rfl, rfl⟩
  · intro summary hsummary
    rw [hsummary]
    exact ⟨_, rfl, rfl⟩

/-- **A refusal cuts the index off.** Let a destination refuse the calls in `F`. If the first of them
is the handing over of a record, then that is the last call: the records before it are taken, and
the pass ends with the fault of the call. Otherwise all records are taken; if the pass into memory
fails, so does this one, without a flush, and if it succeeds, there is one flush, which decides
between its own fault and the same summary. -/
theorem refusals_truncate (hf : f.tree.Grown) (config : Config) {F : Set ℕ}
    (hs : Sink.RefusesAt F s) :
    (∀ n, IsLeast F n → ∀ hn : n < (f.delivered config).length,
      (f.callsTo config s).filterMap Sink.Call.taken? = (f.delivered config).take n ∧
      ∃ e, (f.index config s).1 = .error e ∧
        f.callsTo config s =
          ((f.delivered config).take n).map (Sink.Call.emit · (.ok ())) ++
            [.emit (f.delivered config)[n] (.error e)]) ∧
    ((∀ n ∈ F, (f.delivered config).length ≤ n) →
      (f.callsTo config s).filterMap Sink.Call.taken? = f.delivered config ∧
      (∀ e, f.result config = .error e →
        (f.index config s).1 = .error e ∧
        f.callsTo config s = (f.delivered config).map (Sink.Call.emit · (.ok ()))) ∧
      ∀ summary, f.result config = .ok summary → ∃ answer,
        (f.index config s).1 = answer.map (fun _ => summary) ∧
        f.callsTo config s =
          (f.delivered config).map (Sink.Call.emit · (.ok ())) ++ [.flush answer]) := by
  constructor
  · intro n hleast hn
    obtain ⟨e, hresult, hcalls⟩ := calls_of_refused hf.linked config hs hleast hn
    refine ⟨?_, e, hresult, hcalls⟩
    rw [hcalls, List.filterMap_append, Sink.filterMap_taken?_emit_ok]
    simp [Sink.Call.taken?]
  · intro hF
    obtain ⟨hfault, hsummary⟩ := calls_of_taken hf.linked config hs hF
    refine ⟨?_, hfault, hsummary⟩
    rcases hmemory : f.result config with e | summary
    · rw [(hfault e hmemory).2, Sink.filterMap_taken?_emit_ok]
    · obtain ⟨answer, -, hcalls⟩ := hsummary summary hmemory
      rw [hcalls, List.filterMap_append, Sink.filterMap_taken?_emit_ok]
      simp [Sink.Call.taken?]

set_option maxRecDepth 10000 in
/-- The small file has five records. A destination that refuses its third call and the one after it
gets three calls and keeps two records; one that refuses its tenth call keeps what the file with the
nameless type has, and is not flushed. -/
theorem demo_refusals_truncate :
    (∃ e, (demo.index .default (MemorySink.refusing (fun n => n = 2 || n = 3) false)).1 =
        .error e ∧
      (demo.callsTo .default (MemorySink.refusing (fun n => n = 2 || n = 3) false)).length = 3 ∧
      (demo.callsTo .default (MemorySink.refusing (fun n => n = 2 || n = 3) false)).filterMap
        Sink.Call.taken? = (demo.delivered .default).take 2) ∧
    (brokenDemo.index .default (MemorySink.refusing (· = 9) true)).1 =
        .error (.missingName (.ofNat 8) .typeDecl) ∧
    brokenDemo.callsTo .default (MemorySink.refusing (· = 9) true) =
        (brokenDemo.delivered .default).map (Sink.Call.emit · (.ok ())) := by
  constructor
  · have hs := MemorySink.refusesAt_refusing (fun n => n = 2 || n = 3) false
    have hleast : IsLeast {n : ℕ | (decide (n = 2) || decide (n = 3)) = true} 2 := by
      refine ⟨rfl, ?_⟩
      intro n hn
      have hn : (decide (n = 2) || decide (n = 3)) = true := hn
      rw [Bool.or_eq_true, decide_eq_true_eq, decide_eq_true_eq] at hn
      omega
    have hlength : (demo.delivered .default).length = 5 := by rfl
    obtain ⟨htaken, e, hresult, hcalls⟩ :=
      (refusals_truncate demo_grown .default hs).1 2 hleast (by rw [hlength]; decide)
    refine ⟨e, hresult, ?_, htaken⟩
    rw [hcalls]
    simp [hlength]
  · have hs := MemorySink.refusesAt_refusing (· = 9) true
    have hF : ∀ n ∈ {n : ℕ | decide (n = 9) = true}, (brokenDemo.delivered .default).length ≤ n := by
      intro n hn
      have hn : n = 9 := of_decide_eq_true hn
      have hlength : (brokenDemo.delivered .default).length = 5 := by rfl
      omega
    have hfails : brokenDemo.result .default = .error (.missingName (.ofNat 8) .typeDecl) := by
      rfl
    exact ((refusals_truncate brokenDemo_grown .default hs).2 hF).2.1 _ hfails

end File

end CodeNav
