import CodeNav.Proofs.Traversal

/-!
# What a walk covers

A walk that succeeds enters a node once or not at all, and if it does not, then on account of one
pruned node above it. The visitor may answer as it likes: once the walk is over, its answers are
known, and the nodes entered are those of the pre-order that stops where the answer was `prune`
(`Traverses.calls_eq`). What a stopped pre-order leaves out are the subtrees below its stops, and
they do not overlap, so that the nodes entered and the nodes left out add up (`length_preorder_eq`).
-/

namespace CodeNav

namespace Tree

variable {σ ε : Type} {t : Tree} {enter : σ → Node → Except ε Signal × σ} {d : Node}
  {ds : List Node} {s s' : σ} {calls : List (Node × Except ε Signal)} {result : Except ε Unit}
  {stop : Node → Bool}

/-! ## What stops leave out -/

/-- How many nodes there are below the nodes of a list, added up. -/
def sizeBelow (t : Tree) : List Node → Nat
  | [] => 0
  | d :: ds => (t.descendants d).length + t.sizeBelow ds

theorem sizeBelow_append (t : Tree) (ds es : List Node) :
    t.sizeBelow (ds ++ es) = t.sizeBelow ds + t.sizeBelow es := by
  induction ds with
  | nil => exact (Nat.zero_add _).symm
  | cons d ds ih => rw [List.cons_append, sizeBelow, sizeBelow, ih, Nat.add_assoc]

/-- Subtrees one after the other: if each of them is gone through but for what is below its stops,
so are they all. -/
theorem length_flatMap_preorder (hds : ∀ c ∈ ds, (t.preorder c).length =
      (t.preorderUntil stop c).length + t.sizeBelow ((t.preorderUntil stop c).filter stop)) :
    (ds.flatMap t.preorder).length =
      (t.agenda stop ds).length + t.sizeBelow ((t.agenda stop ds).filter stop) := by
  induction ds with
  | nil => rfl
  | cons c ds ih =>
      obtain ⟨hc, hds⟩ := List.forall_mem_cons.mp hds
      have hagenda : t.agenda stop (c :: ds) = t.preorderUntil stop c ++ t.agenda stop ds := rfl
      rw [hagenda, List.flatMap_cons, List.filter_append, sizeBelow_append, List.length_append,
        List.length_append, hc, ih hds]
      omega

/-- **What a stopped pre-order leaves out.** These are the subtrees below its stops. -/
theorem Linked.length_preorder_eq (h : t.Linked) (stop : Node → Bool) (hd : d ∈ t.nodes) :
    (t.preorder d).length =
      (t.preorderUntil stop d).length + t.sizeBelow ((t.preorderUntil stop d).filter stop) := by
  refine h.induction_down (P := fun d => (t.preorder d).length =
    (t.preorderUntil stop d).length + t.sizeBelow ((t.preorderUntil stop d).filter stop)) ?_ d hd
  intro d hd ih
  rw [h.preorder_eq hd, h.preorderUntil_eq stop hd]
  cases hstop : stop d with
  | true =>
      rw [if_pos rfl, List.filter_cons_of_pos hstop, ← h.descendants_eq hd]
      simp [sizeBelow, Nat.add_comm]
  | false =>
      rw [if_neg Bool.false_ne_true, List.filter_cons_of_neg (by simp [hstop]), List.length_cons,
        List.length_cons, length_flatMap_preorder ih]
      exact Nat.add_right_comm _ _ _

/-! ## Answers that are known afterwards -/

/-- The nodes at which the visitor answered `prune`. -/
def prunedNodes (calls : List (Node × Except ε Signal)) : List Node :=
  (calls.filter isPruned).map Prod.fst

theorem isPruned_iff {c : Node × Except ε Signal} : isPruned c = true ↔ c.2 = .ok .prune := by
  rcases c with ⟨d, _ | _ | _⟩ <;> simp [isPruned]

theorem mem_prunedNodes_iff : d ∈ prunedNodes calls ↔ (d, .ok .prune) ∈ calls := by
  constructor
  · intro hd
    obtain ⟨⟨d', answer⟩, hc, rfl⟩ := List.mem_map.mp hd
    obtain ⟨hc, hpruned⟩ := List.mem_filter.mp hc
    obtain rfl := isPruned_iff.mp hpruned
    exact hc
  · intro hd
    exact List.mem_map.mpr ⟨_, List.mem_filter.mpr ⟨hd, rfl⟩, rfl⟩

/-- **A traversal to its end goes through a stopped pre-order.** The stops are the nodes at which
the visitor has turned out to answer `prune`. -/
theorem Traverses.calls_eq (htrav : Traverses t enter ds s calls result s') (h : t.Linked)
    (hok : result = .ok ()) (hmem : ∀ d ∈ ds, d ∈ t.nodes)
    (hstop : ∀ c ∈ calls, stop c.1 = isPruned c) : calls.map Prod.fst = t.agenda stop ds := by
  induction htrav with
  | done => rfl
  | stop => cases hok
  | stopBelow => cases hok
  | @prune d ds _ _ after _ _ _ _ ih =>
      obtain ⟨hd, hds⟩ := List.forall_mem_cons.mp hmem
      obtain ⟨hpruned, hafter⟩ := List.forall_mem_cons.mp hstop
      have hbelow : t.belowUnless stop d = [] := if_pos hpruned
      rw [h.agenda_cons stop hd, hbelow, List.nil_append, List.map_cons, ih hok hds hafter]
  | @descend d ds _ _ below _ after _ _ _ _ _ ihbelow ihafter =>
      obtain ⟨hd, hds⟩ := List.forall_mem_cons.mp hmem
      obtain ⟨hopen, hrest⟩ := List.forall_mem_cons.mp hstop
      obtain ⟨hbelow, hafter⟩ := List.forall_mem_append.mp hrest
      have hchildren : t.belowUnless stop d = t.children d := if_neg (by simp [hopen, isPruned])
      rw [h.agenda_cons stop hd, hchildren, List.map_cons, List.map_append,
        ihbelow rfl (fun c hc => h.mem_of_mem_children hd hc) hbelow, ihafter hok hds hafter]
      exact congrArg (d :: ·) List.flatMap_append.symm

theorem Linked.traverses_of_walk_ok (h : t.Linked) {stats : WalkStats}
    (hok : (t.walk enter s).1 = .ok stats) :
    Traverses t enter t.root?.toList s (t.transcript enter s) (.ok ()) (t.walk enter s).2 ∧
      stats = .ofCalls (t.transcript enter s) := by
  obtain ⟨calls, result, s', htrav⟩ := h.canTraverse enter (fun _ => Linked.mem_of_mem_root?) s
  have hwalk : t.walk enter s = (result.map fun _ => .ofCalls calls, s') := htrav.walkOn_root h 0
  have hcalls : t.transcript enter s = calls :=
    congrArg (fun x => x.2.2) ((htrav.transcribing []).walkOn_root h 0)
  rw [hwalk] at hok ⊢
  rw [hcalls]
  cases result with
  | error e => cases hok
  | ok u => exact ⟨htrav, (Except.ok.inj hok).symm⟩

theorem Linked.transcript_nodup (h : t.Linked) {stats : WalkStats}
    (hok : (t.walk enter s).1 = .ok stats) : ((t.transcript enter s).map Prod.fst).Nodup :=
  h.preorder_root_nodup.sublist
    ((h.traverses_of_walk_ok hok).1.sublist h fun _ => Linked.mem_of_mem_root?)

theorem Linked.decide_mem_prunedNodes (h : t.Linked) {stats : WalkStats}
    (hok : (t.walk enter s).1 = .ok stats) {c : Node × Except ε Signal}
    (hc : c ∈ t.transcript enter s) :
    decide (c.1 ∈ prunedNodes (t.transcript enter s)) = isPruned c := by
  rw [Bool.eq_iff_iff, decide_eq_true_eq, mem_prunedNodes_iff]
  constructor
  · intro hpruned
    have hsame := List.inj_on_of_nodup_map (h.transcript_nodup hok) hc hpruned rfl
    rw [hsame]
    rfl
  · intro hpruned
    rw [← isPruned_iff.mp hpruned]
    exact hc

/-- **A walk that succeeds goes through a stopped pre-order.** -/
theorem Linked.map_transcript_eq (h : t.Linked) {stats : WalkStats}
    (hok : (t.walk enter s).1 = .ok stats) :
    (t.transcript enter s).map Prod.fst =
      t.toEnter fun d => decide (d ∈ prunedNodes (t.transcript enter s)) :=
  (h.traverses_of_walk_ok hok).1.calls_eq h rfl (fun _ => Linked.mem_of_mem_root?)
    fun _ => h.decide_mem_prunedNodes hok

/-! ## The theorem -/

/-- At most one node above another answers `prune`: what is below a pruned node is not entered. -/
theorem Linked.pruned_ancestor_unique (h : t.Linked) {stats : WalkStats}
    (hok : (t.walk enter s).1 = .ok stats) (hd : d ∈ t.nodes) {a b : Node}
    (ha : a ∈ t.ancestors d) (hapruned : (a, .ok .prune) ∈ t.transcript enter s)
    (hb : b ∈ t.ancestors d) (hbpruned : (b, .ok .prune) ∈ t.transcript enter s) : a = b := by
  have hopen : ∀ {a b : Node}, (a, .ok .prune) ∈ t.transcript enter s →
      (b, .ok .prune) ∈ t.transcript enter s → b ∉ t.ancestors a := by
    intro a b ha hb hba
    have hentered : a ∈ (t.transcript enter s).map Prod.fst := List.mem_map_of_mem ha
    rw [h.map_transcript_eq hok, h.toEnter_eq_filter] at hentered
    have hshows := shows_iff.mp (List.mem_filter.mp hentered).2 b hba
    exact of_decide_eq_false hshows (mem_prunedNodes_iff.mpr hb)
  rcases h.ancestors_chain hd ha hb with hab | hab | hba
  · exact hab
  · exact absurd hab (hopen hbpruned hapruned)
  · exact absurd hba (hopen hapruned hbpruned)

theorem Linked.not_mem_transcript_iff (h : t.Linked) {stats : WalkStats}
    (hok : (t.walk enter s).1 = .ok stats) (hd : d ∈ t.nodes) :
    d ∉ (t.transcript enter s).map Prod.fst ↔
      ∃ a ∈ t.ancestors d, (a, .ok .prune) ∈ t.transcript enter s := by
  rw [h.map_transcript_eq hok, h.toEnter_eq_filter, List.mem_filter, h.mem_preorder_root_iff,
    shows_iff]
  simp [hd, mem_prunedNodes_iff]

/-- The nodes entered and the nodes below the pruned ones add up to the tree. -/
theorem Linked.length_transcript_add (h : t.Linked) {stats : WalkStats}
    (hok : (t.walk enter s).1 = .ok stats) :
    (t.transcript enter s).length + t.sizeBelow (prunedNodes (t.transcript enter s)) = t.size := by
  let stop : Node → Bool := fun d => decide (d ∈ prunedNodes (t.transcript enter s))
  have hentered : (t.transcript enter s).map Prod.fst = t.agenda stop t.root?.toList :=
    h.map_transcript_eq hok
  have hstops : (t.agenda stop t.root?.toList).filter stop =
      prunedNodes (t.transcript enter s) := by
    rw [← hentered, List.filter_map, prunedNodes]
    exact congrArg _ (List.filter_congr fun c hc => h.decide_mem_prunedNodes hok hc)
  calc (t.transcript enter s).length + t.sizeBelow (prunedNodes (t.transcript enter s))
      = (t.agenda stop t.root?.toList).length +
          t.sizeBelow ((t.agenda stop t.root?.toList).filter stop) := by
        rw [hstops, ← hentered, List.length_map]
    _ = (t.root?.toList.flatMap t.preorder).length :=
        (length_flatMap_preorder fun r hr =>
          h.length_preorder_eq stop (Linked.mem_of_mem_root? hr)).symm
    _ = t.size := h.preorder_root_perm.length_eq

theorem Linked.map_transcript_of_no_prune (h : t.Linked) {stats : WalkStats}
    (hok : (t.walk enter s).1 = .ok stats)
    (hnone : ∀ d, (d, .ok .prune) ∉ t.transcript enter s) :
    (t.transcript enter s).map Prod.fst = t.documentOrder := by
  have hopen : (fun d => decide (d ∈ prunedNodes (t.transcript enter s))) = fun _ => false := by
    funext d
    exact decide_eq_false fun hd => hnone d (mem_prunedNodes_iff.mp hd)
  rw [h.map_transcript_eq hok, hopen, h.documentOrder_eq]
  rfl

/-- **A walk that succeeds covers the tree.** It enters no node twice. A node is not entered if and
only if a node above it was entered and answered `prune`, and there is one such node only. So the
nodes entered and, for every pruned node, the nodes below it add up to the size of the tree. A walk
that prunes nothing enters the root and then what is below it, in the order of `descendants`. -/
theorem walk_covers (h : t.Grown) (enter : σ → Node → Except ε Signal × σ) (s : σ)
    {stats : WalkStats} (hok : (t.walk enter s).1 = .ok stats) :
    ((t.transcript enter s).map Prod.fst).Nodup ∧
    (∀ d ∈ (t.transcript enter s).map Prod.fst, d ∈ t.nodes) ∧
    (∀ d ∈ t.nodes,
      (d ∉ (t.transcript enter s).map Prod.fst ↔
        ∃ a ∈ t.ancestors d, (a, .ok .prune) ∈ t.transcript enter s) ∧
      ∀ a ∈ t.ancestors d, ∀ b ∈ t.ancestors d, (a, .ok .prune) ∈ t.transcript enter s →
        (b, .ok .prune) ∈ t.transcript enter s → a = b) ∧
    stats.visited = (t.transcript enter s).length ∧
    stats.visited + t.sizeBelow (prunedNodes (t.transcript enter s)) = t.size ∧
    ((∀ d, (d, .ok .prune) ∉ t.transcript enter s) →
      (t.transcript enter s).map Prod.fst = t.documentOrder) := by
  obtain ⟨htrav, hstats⟩ := h.linked.traverses_of_walk_ok hok
  have hvisited : stats.visited = (t.transcript enter s).length := by
    rw [hstats]
    rfl
  refine ⟨h.linked.transcript_nodup hok, ?_, fun d hd => ⟨?_, ?_⟩, hvisited, ?_, ?_⟩
  · intro d hd
    have hsub := htrav.sublist h.linked fun _ => Linked.mem_of_mem_root?
    exact h.linked.mem_preorder_root_iff.mp (hsub.subset hd)
  · exact h.linked.not_mem_transcript_iff hok hd
  · intro a ha b hb hapruned hbpruned
    exact h.linked.pruned_ancestor_unique hok hd ha hapruned hb hbpruned
  · rw [hvisited]
    exact h.linked.length_transcript_add hok
  · exact h.linked.map_transcript_of_no_prune hok

/-- A visitor that prunes nothing. -/
def descending (n : Nat) (_ : Node) : Except Nat Signal × Nat := (.ok .descend, n + 1)

/-- In the small tree, a visitor that prunes the node `1` enters three nodes, and the three others
are below that node. The node `5` is two levels further down. A visitor that prunes nothing enters
all six nodes. -/
theorem sapling_covered :
    (sapling.transcript (fickle 6) 1).map (·.1.id) = [⟨0⟩, ⟨1⟩, ⟨2⟩] ∧
    3 + sapling.sizeBelow (prunedNodes (sapling.transcript (fickle 6) 1)) = 6 ∧
    (∃ d ∈ sapling.nodes, d.id = ⟨5⟩ ∧
      ∃ a ∈ sapling.ancestors d, (a, .ok .prune) ∈ sapling.transcript (fickle 6) 1) ∧
    (sapling.transcript descending 0).map Prod.fst = sapling.documentOrder := by
  have hpruning : (sapling.walk (fickle 6) 1).1 = .ok ⟨3, 1⟩ := rfl
  have hdescending : (sapling.walk descending 0).1 = .ok ⟨6, 0⟩ := rfl
  obtain ⟨-, -, hcovers, -, hsize, -⟩ := walk_covers sapling_grown (fickle 6) 1 hpruning
  refine ⟨by decide, hsize, ?_, ?_⟩
  · obtain ⟨d, hd, hid, hmissed⟩ : ∃ d ∈ sapling.nodes, d.id = ⟨5⟩ ∧
        d ∉ (sapling.transcript (fickle 6) 1).map Prod.fst := by decide
    exact ⟨d, hd, hid, (hcovers d hd).1.mp hmissed⟩
  · obtain ⟨-, -, -, -, -, hall⟩ := walk_covers sapling_grown descending 0 hdescending
    have hanswers : ∀ c ∈ sapling.transcript descending 0, c.2 = .ok .descend := by decide
    exact hall fun d hd => nomatch hanswers _ hd

end Tree

end CodeNav
