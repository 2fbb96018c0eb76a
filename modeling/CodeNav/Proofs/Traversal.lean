import CodeNav.Proofs.Syntax.Growth
import CodeNav.Proofs.Walk

/-!
# Walks as recursion

A walk keeps the nodes to come in one list. `Traverses` says what it amounts to, by recursion on the
tree: a node is entered; an error stops everything, `prune` leaves out what is below the node, and
otherwise the children follow from left to right, each with all that is below it before the next
one. The visitor may answer as it likes: its state goes through the calls in their order, so an
answer can depend on all the calls before.

`walk_traverses` is the theorem: the calls of a walk (`transcript`), its outcome and the visitor's
last state are those of the recursion, which has no others. The list of a walk holds the subtrees
still to come, the innermost ones in front; `Traverses.walkOn_eq` is that invariant.
-/

namespace CodeNav

def isPruned {ε : Type} : Node × Except ε Signal → Bool
  | (_, .ok .prune) => true
  | _ => false

namespace WalkStats

variable {ε : Type}

def ofCalls (calls : List (Node × Except ε Signal)) : WalkStats :=
  ⟨calls.length, calls.countP isPruned⟩

theorem ofCalls_concat (calls : List (Node × Except ε Signal)) (d : Node) (signal : Signal) :
    ofCalls (calls ++ [(d, .ok signal)]) = (ofCalls calls).enter signal := by
  cases signal <;> simp [ofCalls, enter, isPruned]

end WalkStats

namespace Tree

variable {σ ε : Type} {t : Tree} {enter : σ → Node → Except ε Signal × σ}

/-! ## The recursion -/

/-- A visitor in the state `s` goes through subtrees, from left to right: the calls with their
answers, the outcome, and the visitor's last state. -/
inductive Traverses (t : Tree) (enter : σ → Node → Except ε Signal × σ) :
    List Node → σ → List (Node × Except ε Signal) → Except ε Unit → σ → Prop
  | done {s} : Traverses t enter [] s [] (.ok ()) s
  /-- An error stops everything. -/
  | stop {d ds s e s'} : enter s d = (.error e, s') →
      Traverses t enter (d :: ds) s [(d, .error e)] (.error e) s'
  /-- What is below a pruned node is left out. -/
  | prune {d ds s s₁ after result s'} : enter s d = (.ok .prune, s₁) →
      Traverses t enter ds s₁ after result s' →
      Traverses t enter (d :: ds) s ((d, .ok .prune) :: after) result s'
  /-- All that is below a node comes before the next subtree. -/
  | descend {d ds s s₁ below s₂ after result s'} : enter s d = (.ok .descend, s₁) →
      Traverses t enter (t.children d) s₁ below (.ok ()) s₂ →
      Traverses t enter ds s₂ after result s' →
      Traverses t enter (d :: ds) s ((d, .ok .descend) :: (below ++ after)) result s'
  /-- An error below a node stops everything, too. -/
  | stopBelow {d ds s s₁ below e s'} : enter s d = (.ok .descend, s₁) →
      Traverses t enter (t.children d) s₁ below (.error e) s' →
      Traverses t enter (d :: ds) s ((d, .ok .descend) :: below) (.error e) s'

variable {d : Node} {ds : List Node} {s s' : σ} {calls : List (Node × Except ε Signal)}
  {result : Except ε Unit}

/-- The subtrees have a traversal, whatever state the visitor is in. -/
def CanTraverse (t : Tree) (enter : σ → Node → Except ε Signal × σ) (ds : List Node) : Prop :=
  ∀ s, ∃ calls result s', Traverses t enter ds s calls result s'

theorem CanTraverse.cons (hbelow : CanTraverse t enter (t.children d))
    (hds : CanTraverse t enter ds) : CanTraverse t enter (d :: ds) := by
  intro s
  rcases henter : enter s d with ⟨e | _ | _, s₁⟩
  · exact ⟨_, _, _, .stop henter⟩
  · obtain ⟨below, _ | _, s₂, hchildren⟩ := hbelow s₁
    · exact ⟨_, _, _, .stopBelow henter hchildren⟩
    · obtain ⟨after, result, s', hafter⟩ := hds s₂
      exact ⟨_, _, _, .descend henter hchildren hafter⟩
  · obtain ⟨after, result, s', hafter⟩ := hds s₁
    exact ⟨_, _, _, .prune henter hafter⟩

theorem canTraverse_of_forall (h : ∀ d ∈ ds, CanTraverse t enter (t.children d)) :
    CanTraverse t enter ds := by
  induction ds with
  | nil => exact fun s => ⟨_, _, _, .done⟩
  | cons d ds ih =>
      obtain ⟨hd, hds⟩ := List.forall_mem_cons.mp h
      exact CanTraverse.cons hd (ih hds)

theorem Linked.canTraverse (h : t.Linked) (enter : σ → Node → Except ε Signal × σ)
    (hmem : ∀ d ∈ ds, d ∈ t.nodes) : CanTraverse t enter ds := by
  apply canTraverse_of_forall
  intro d hd
  -- from the leaves up: below a node there are the subtrees of its children
  refine h.induction_down (P := fun d => CanTraverse t enter (t.children d)) ?_ d (hmem d hd)
  intro d _ ih
  exact canTraverse_of_forall ih

/-- A traversal calls the visitor at nodes of the subtrees only, in pre-order. -/
theorem Traverses.sublist (htrav : Traverses t enter ds s calls result s') (h : t.Linked)
    (hmem : ∀ d ∈ ds, d ∈ t.nodes) : (calls.map Prod.fst).Sublist (ds.flatMap t.preorder) := by
  induction htrav with
  | done => exact List.Sublist.refl _
  | stop =>
      obtain ⟨hd, -⟩ := List.forall_mem_cons.mp hmem
      rw [List.flatMap_cons, h.preorder_eq hd, List.cons_append]
      exact (List.nil_sublist _).cons_cons _
  | prune _ _ ih =>
      obtain ⟨hd, hds⟩ := List.forall_mem_cons.mp hmem
      rw [List.flatMap_cons, h.preorder_eq hd, List.cons_append]
      exact ((ih hds).trans (List.sublist_append_right _ _)).cons_cons _
  | descend _ _ _ ihbelow ihafter =>
      obtain ⟨hd, hds⟩ := List.forall_mem_cons.mp hmem
      rw [List.flatMap_cons, h.preorder_eq hd, List.cons_append, List.map_cons, List.map_append]
      exact ((ihbelow fun c hc => h.mem_of_mem_children hd hc).append (ihafter hds)).cons_cons _
  | stopBelow _ _ ih =>
      obtain ⟨hd, hds⟩ := List.forall_mem_cons.mp hmem
      rw [List.flatMap_cons, h.preorder_eq hd, List.cons_append]
      exact ((ih fun c hc => h.mem_of_mem_children hd hc).trans
        (List.sublist_append_left _ _)).cons_cons _

/-! ## The loop -/

theorem walkOn_succ_of_ok {signal : Signal} (henter : enter s d = (.ok signal, s'))
    (made : List (Node × Except ε Signal)) (steps : Nat) (pending : List Node) :
    t.walkOn enter (steps + 1) (d :: pending) (.ofCalls made) s =
      t.walkOn enter steps (t.below d signal ++ pending) (.ofCalls (made ++ [(d, .ok signal)])) s' := by
  rw [walkOn, henter]
  simp only [WalkStats.ofCalls_concat]

/-- **The invariant of the loop.** With subtrees in front of `pending`, it makes the calls of their
traversal, and is then left with `pending` alone. -/
theorem Traverses.walkOn_eq :
    Traverses t enter ds s calls result s' →
    ∀ (made : List (Node × Except ε Signal)) (pending : List Node) (more : Nat),
      t.walkOn enter (calls.length + more) (ds ++ pending) (.ofCalls made) s =
        match result with
        | .ok () => t.walkOn enter more pending (.ofCalls (made ++ calls)) s'
        | .error e => (.error e, s') := by
  intro htrav
  induction htrav with
  | done => simp
  | stop henter =>
      intro made pending more
      rw [List.length_singleton, Nat.add_comm 1, List.cons_append, walkOn, henter]
  | @prune d ds _ s₁ after _ _ henter _ ih =>
      intro made pending more
      rw [List.length_cons, Nat.succ_add, List.cons_append, walkOn_succ_of_ok henter, Tree.below,
        List.nil_append, ih, List.append_assoc, List.singleton_append]
  | @descend d ds _ s₁ below _ after _ _ henter _ _ ihbelow ihafter =>
      intro made pending more
      rw [List.length_cons, Nat.succ_add, List.cons_append, walkOn_succ_of_ok henter, Tree.below,
        List.length_append, Nat.add_assoc, ihbelow]
      simp only
      rw [ihafter]
      simp
  | @stopBelow d ds _ s₁ below _ _ henter _ ih =>
      intro made pending more
      rw [List.length_cons, Nat.succ_add, List.cons_append, walkOn_succ_of_ok henter, Tree.below,
        ih]

theorem Traverses.walkOn_root (htrav : Traverses t enter t.root?.toList s calls result s')
    (h : t.Linked) (more : Nat) :
    t.walkOn enter (t.size + more) t.root?.toList .zero s =
      (result.map fun _ => .ofCalls calls, s') := by
  have hlen : calls.length ≤ t.size := by
    have hsub := (htrav.sublist h fun _ => Linked.mem_of_mem_root?).length_le
    have hroot := h.length_agenda_root_le fun _ => false
    rw [List.length_map] at hsub
    exact Nat.le_trans hsub hroot
  have hloop := htrav.walkOn_eq [] [] (t.size - calls.length + more)
  rw [← Nat.add_assoc, Nat.add_sub_cancel' hlen, List.append_nil, List.nil_append] at hloop
  rw [show WalkStats.zero = .ofCalls ([] : List (Node × Except ε Signal)) from rfl, hloop]
  cases result with
  | error e => rfl
  | ok u => cases t.size - calls.length + more <;> rfl

/-! ## The calls of a walk -/

/-- The visitor that also keeps the calls made to it, with its answers. -/
def transcribing (enter : σ → Node → Except ε Signal × σ)
    (s : σ × List (Node × Except ε Signal)) (d : Node) :
    Except ε Signal × (σ × List (Node × Except ε Signal)) :=
  ((enter s.1 d).1, ((enter s.1 d).2, s.2 ++ [(d, (enter s.1 d).1)]))

/-- The calls that a walk makes to the visitor, in order, with the answers. -/
def transcript (t : Tree) (enter : σ → Node → Except ε Signal × σ) (s : σ) :
    List (Node × Except ε Signal) :=
  (t.walk (transcribing enter) (s, [])).2.2

theorem transcribing_of_enter {answer : Except ε Signal} (henter : enter s d = (answer, s'))
    (made : List (Node × Except ε Signal)) :
    transcribing enter (s, made) d = (answer, (s', made ++ [(d, answer)])) := by
  rw [transcribing, henter]

/-- A visitor that keeps its calls is taken through the same traversal. -/
theorem Traverses.transcribing (htrav : Traverses t enter ds s calls result s') :
    ∀ made, Traverses t (transcribing enter) ds (s, made) calls result (s', made ++ calls) := by
  induction htrav with
  | done =>
      intro made
      rw [List.append_nil]
      exact .done
  | stop henter => exact fun made => .stop (transcribing_of_enter henter made)
  | prune henter _ ih =>
      intro made
      rw [List.append_cons]
      exact .prune (transcribing_of_enter henter made) (ih _)
  | descend henter _ _ ihbelow ihafter =>
      intro made
      rw [List.append_cons, ← List.append_assoc]
      exact .descend (transcribing_of_enter henter made) (ihbelow _) (ihafter _)
  | stopBelow henter _ ih =>
      intro made
      rw [List.append_cons]
      exact .stopBelow (transcribing_of_enter henter made) (ih _)

/-! ## The theorem -/

/-- **A walk is a recursive traversal.** Whatever the visitor answers: the calls of a walk, its
outcome and the visitor's last state are those of the recursion from the root, and the recursion has
no others. A walk that succeeds counts its calls, and those answered with `prune`. It comes to its
end by itself: the bound on its steps is never what ends it. -/
theorem walk_traverses (h : t.Grown) (enter : σ → Node → Except ε Signal × σ) (s : σ) :
    (∃ result,
      Traverses t enter t.root?.toList s (t.transcript enter s) result (t.walk enter s).2 ∧
      (t.walk enter s).1 = result.map fun _ =>
        ⟨(t.transcript enter s).length, (t.transcript enter s).countP isPruned⟩) ∧
    (∀ calls result s', Traverses t enter t.root?.toList s calls result s' →
      calls = t.transcript enter s ∧ s' = (t.walk enter s).2 ∧
      (t.walk enter s).1 = result.map fun _ => ⟨calls.length, calls.countP isPruned⟩) ∧
    ∀ more, t.walkOn enter (t.size + more) t.root?.toList .zero s = t.walk enter s := by
  have hwalk : ∀ calls result s', Traverses t enter t.root?.toList s calls result s' →
      calls = t.transcript enter s ∧
        ∀ more, t.walkOn enter (t.size + more) t.root?.toList .zero s =
          (result.map fun _ => .ofCalls calls, s') := by
    intro calls result s' htrav
    have hcalls := (htrav.transcribing []).walkOn_root h.linked 0
    rw [List.nil_append] at hcalls
    refine ⟨?_, htrav.walkOn_root h.linked⟩
    rw [transcript, walk, ← Nat.add_zero t.size, hcalls]
  obtain ⟨calls, result, s', htrav⟩ :=
    h.linked.canTraverse enter (fun _ => Linked.mem_of_mem_root?) s
  obtain ⟨hcalls, hmore⟩ := hwalk calls result s' htrav
  have hend : t.walk enter s = (result.map fun _ => .ofCalls calls, s') := hmore 0
  refine ⟨⟨result, ?_, ?_⟩, ?_, ?_⟩
  · rw [← hcalls, hend]
    exact htrav
  · rw [← hcalls, hend]
    rfl
  · intro calls' result' s'' htrav'
    obtain ⟨hcalls', hmore'⟩ := hwalk calls' result' s'' htrav'
    have hend' : t.walk enter s = (result'.map fun _ => .ofCalls calls', s'') := hmore' 0
    rw [hend']
    exact ⟨hcalls', rfl, rfl⟩
  · intro more
    rw [hmore, hend]

/-- A visitor that counts its calls, prunes at every third one, and fails at a given one. -/
def fickle (failsAt : Nat) (n : Nat) (_ : Node) : Except Nat Signal × Nat :=
  (if n = failsAt then .error n else if n % 3 = 2 then .ok .prune else .ok .descend, n + 1)

/-- In the small tree, the visitor that is to fail at its seventh call is pruned at the node `3`, and
comes to `2` after all that is below `1`. The one that fails at its fifth call ends there. -/
theorem sapling_walk :
    (sapling.transcript (fickle 6) 0).map (·.1.id) = [⟨0⟩, ⟨1⟩, ⟨3⟩, ⟨4⟩, ⟨5⟩, ⟨2⟩] ∧
    (∃ result, Traverses sapling (fickle 6) sapling.root?.toList 0
        (sapling.transcript (fickle 6) 0) result 6 ∧
      (sapling.walk (fickle 6) 0).1 = result.map fun _ => ⟨6, 2⟩) ∧
    (sapling.walk (fickle 6) 0).1 = .ok ⟨6, 2⟩ ∧
    (∃ result, Traverses sapling (fickle 4) sapling.root?.toList 0
        (sapling.transcript (fickle 4) 0) result 5 ∧
      (sapling.walk (fickle 4) 0).1 = result.map fun _ => ⟨5, 1⟩) ∧
    (sapling.walk (fickle 4) 0).1 = .error 4 := by
  refine ⟨by decide, ?_, by rfl, ?_, by rfl⟩
  · exact (walk_traverses sapling_grown (fickle 6) 0).1
  · exact (walk_traverses sapling_grown (fickle 4) 0).1

end Tree

end CodeNav
