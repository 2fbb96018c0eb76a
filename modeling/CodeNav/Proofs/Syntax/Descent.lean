import CodeNav.Proofs.Syntax.Growth
import Mathlib.Logic.Relation

/-!
# Descents

A descent hands out the nodes below a node one at a time. It keeps the ids still to come on one
stack and no record of where it has been: a call takes the last id off and puts that node's children
in its place, the leftmost one last.

`descent_enumerates` says what the calls answer, however many are made: the descendants in document
order, once each, and then nothing for ever. The stack of a descent is the list of subtrees still to
come, backwards; a call takes one node off their agenda (`Linked.next_toCome`), which is why the end
comes. What is below a node is also said through chains of parent links alone (`Above`).
-/

namespace CodeNav

namespace Tree

variable {t : Tree} {a b c d p x : Node}

/-! ## Chains of parent links -/

/-- Parent links lead from `d` up to `a`, by one step or more. -/
def Above (t : Tree) (a d : Node) : Prop :=
  Relation.TransGen (fun c p => t.parent? c = some p) d a

theorem above_iff : t.Above a d ↔ ∃ p, t.parent? d = some p ∧ (a = p ∨ t.Above a p) := by
  rw [Above, Relation.TransGen.head'_iff]
  exact exists_congr fun p => and_congr_right fun _ => Relation.reflTransGen_iff_eq_or_transGen

theorem Linked.mem_ancestors_iff_above (h : t.Linked) (hd : d ∈ t.nodes) :
    a ∈ t.ancestors d ↔ t.Above a d := by
  refine h.induction_up (P := fun d => a ∈ t.ancestors d ↔ t.Above a d) ?_ d hd
  intro d hd ih
  rw [above_iff]
  cases hp : t.parent? d with
  | none => simp [h.ancestors_eq hd, hp]
  | some p => simp [h.mem_ancestors_iff hd hp, ih p hp]

/-! ## One call at a time -/

/-- A descent under way: the ids still to come, the next one last. -/
structure Descent where
  stack : Array NodeId
deriving DecidableEq

namespace Descent

def below (d : Node) : Descent := ⟨d.children.reverse.toArray⟩

/-- One call: the next node, if any is left, and the descent from there on. An id that is not in the
tree is a fault. -/
def next (t : Tree) (i : Descent) : Except Fault (Option Node × Descent) :=
  match i.stack.back? with
  | none => .ok (none, i)
  | some n => do
    let d ← t.node n
    return (some d, ⟨i.stack.pop ++ d.children.reverse⟩)

def answers (t : Tree) : Nat → Descent → Except Fault (List (Option Node))
  | 0, _ => .ok []
  | calls + 1, i => do
    let (answer, rest) ← i.next t
    return answer :: (← answers t calls rest)

/-- The descent that has the subtrees of the given nodes still to come, the topmost one first. -/
def toCome (pending : List Node) : Descent := ⟨(pending.map (·.id)).reverse.toArray⟩

theorem next_toCome_nil : (toCome []).next t = .ok (none, toCome []) := rfl

theorem answers_succ {i rest : Descent} {answer : Option Node} {more : List (Option Node)}
    {calls : Nat} (hnext : i.next t = .ok (answer, rest))
    (hmore : rest.answers t calls = .ok more) :
    i.answers t (calls + 1) = .ok (answer :: more) := by
  rw [answers, hnext]
  simp only [bind, Except.bind, hmore]
  rfl

end Descent

theorem Linked.map_id_children (h : t.Linked) (hd : d ∈ t.nodes) :
    (t.children d).map (·.id) = d.children := by
  rw [h.children_eq_filter hd, h.children_eq hd, row, links]
  simp [List.filter_map, Function.comp_def]

theorem Linked.below_eq_toCome (h : t.Linked) (hd : d ∈ t.nodes) :
    Descent.below d = Descent.toCome (t.children d) := by
  rw [Descent.below, Descent.toCome, h.map_id_children hd]

/-- **One call.** It answers with the topmost node to come, and puts the children of that node in
its place. -/
theorem Linked.next_toCome (h : t.Linked) (hd : d ∈ t.nodes) (pending : List Node) :
    (Descent.toCome (d :: pending)).next t =
      .ok (some d, Descent.toCome (t.children d ++ pending)) := by
  have hnode : t.node d.id = .ok d := by rw [node, h.get?_id hd]
  have hback : (Descent.toCome (d :: pending)).stack.back? = some d.id := by
    simp [Descent.toCome]
  have hpop : (Descent.toCome (d :: pending)).stack.pop = (Descent.toCome pending).stack := by
    simp [Descent.toCome]
  rw [Descent.next, hback]
  simp only [hnode, hpop, bind, Except.bind]
  rw [← h.map_id_children hd]
  simp [Descent.toCome, pure, Except.pure]

/-- **So many calls.** They answer with the nodes of the subtrees to come, in order, and when these
are used up, with nothing. -/
theorem Linked.answers_toCome (h : t.Linked) (calls : Nat) {pending : List Node}
    (hmem : ∀ d ∈ pending, d ∈ t.nodes) :
    (Descent.toCome pending).answers t calls =
      .ok ((List.range calls).map ((t.agenda (fun _ => false) pending)[·]?)) := by
  induction calls generalizing pending with
  | zero => rfl
  | succ calls ih =>
      cases pending with
      | nil =>
          -- nothing is left, and a further call leaves it at that
          rw [Descent.answers_succ Descent.next_toCome_nil (ih hmem)]
          simp [agenda_nil, List.range_succ_eq_map, Function.comp_def]
      | cons d pending =>
          obtain ⟨hd, hpending⟩ := List.forall_mem_cons.mp hmem
          have hbelow : ∀ c ∈ t.belowUnless (fun _ => false) d ++ pending, c ∈ t.nodes :=
            h.belowUnless_append_mem hd hpending
          have hagenda := h.agenda_cons (fun _ => false) hd pending
          have hchildren : t.belowUnless (fun _ => false) d = t.children d := rfl
          rw [hchildren] at hbelow hagenda
          rw [Descent.answers_succ (h.next_toCome hd pending) (ih hbelow), hagenda]
          simp [List.range_succ_eq_map, Function.comp_def]

/-! ## What is below a node -/

theorem Linked.descendants_eq_flatMap (h : t.Linked) (hd : d ∈ t.nodes) :
    t.descendants d = (t.children d).flatMap fun c => c :: t.descendants c := by
  rw [h.descendants_eq hd]
  exact List.flatMap_congr fun c hc => h.preorder_eq_cons (h.mem_of_mem_children hd hc)

theorem Linked.descendants_nodup (h : t.Linked) (hd : d ∈ t.nodes) : (t.descendants d).Nodup := by
  have hnodup := h.preorder_nodup hd
  rw [h.preorder_eq_cons hd] at hnodup
  exact hnodup.of_cons

theorem Linked.length_descendants_lt (h : t.Linked) (hd : d ∈ t.nodes) :
    (t.descendants d).length < t.size := by
  have hlen := h.length_preorder_le hd
  rwa [h.preorder_eq_cons hd] at hlen

/-- **When two subtrees share nothing.** What is below two nodes has no node in common, unless the
nodes are the same or one is above the other, and the lower one is no leaf. -/
theorem Linked.disjoint_descendants_iff (h : t.Linked) (hb : b ∈ t.nodes) (hc : c ∈ t.nodes) :
    (t.descendants b).Disjoint (t.descendants c) ↔
      (b ≠ c ∧ b ∉ t.ancestors c ∧ c ∉ t.ancestors b) ∨
        t.descendants b = [] ∨ t.descendants c = [] := by
  constructor
  · intro hdis
    by_cases hunrelated : b ≠ c ∧ b ∉ t.ancestors c ∧ c ∉ t.ancestors b
    · exact Or.inl hunrelated
    · -- otherwise one of the two lists is part of the other, so it has to be empty
      have hsub : t.descendants b ⊆ t.descendants c ∨ t.descendants c ⊆ t.descendants b := by
        rw [ne_eq, ← not_or, ← not_or, not_not] at hunrelated
        rcases hunrelated with rfl | habove | habove
        · exact Or.inl (List.Subset.refl _)
        · exact Or.inr (h.descendants_subset hc habove)
        · exact Or.inl (h.descendants_subset hb habove)
      refine Or.inr (hsub.imp ?_ ?_)
      · exact fun hbc => List.eq_nil_iff_forall_not_mem.mpr fun x hx => hdis hx (hbc hx)
      · exact fun hcb => List.eq_nil_iff_forall_not_mem.mpr fun x hx => hdis (hcb hx) hx
  · rintro (⟨hne, hbc, hcb⟩ | hnil | hnil)
    · intro x hxb hxc
      obtain ⟨hx, hbx⟩ := (h.mem_descendants_iff hb).mp hxb
      obtain ⟨-, hcx⟩ := (h.mem_descendants_iff hc).mp hxc
      rcases h.ancestors_chain hx hbx hcx with heq | habove | habove
      · exact hne heq
      · exact hbc habove
      · exact hcb habove
    · rw [hnil]
      exact List.disjoint_nil_left _
    · rw [hnil]
      exact List.disjoint_nil_right _

/-! ## The theorem -/

/-- **A descent enumerates a subtree.** However many calls are made, none of them fails: they answer
with the nodes below `d` in order, and after these, of which there are fewer than nodes in the tree,
with nothing. What is below `d` is, for each child from left to right, that child and then what is
below it. No id comes twice, and a node comes if and only if parent links lead from it up to `d`.
Two descents have no node in common, unless they start at the same node or one starts above the
other, and the lower start has nodes below it. -/
theorem descent_enumerates (h : t.Grown) :
    (∀ d ∈ t.nodes,
      (∀ calls, (Descent.below d).answers t calls =
        .ok ((List.range calls).map ((t.descendants d)[·]?))) ∧
      (t.descendants d).length < t.size ∧
      (t.descendants d = (t.children d).flatMap fun c => c :: t.descendants c) ∧
      ((t.descendants d).map (·.id)).Nodup ∧
      ∀ x, x ∈ t.descendants d ↔ x ∈ t.nodes ∧ t.Above d x) ∧
    ∀ b ∈ t.nodes, ∀ c ∈ t.nodes,
      ((t.descendants b).Disjoint (t.descendants c) ↔
        (b ≠ c ∧ ¬t.Above b c ∧ ¬t.Above c b) ∨ t.descendants b = [] ∨ t.descendants c = []) := by
  have hl := h.linked
  have hiff : ∀ d ∈ t.nodes, ∀ x, x ∈ t.descendants d ↔ x ∈ t.nodes ∧ t.Above d x := by
    intro d hd x
    rw [hl.mem_descendants_iff hd]
    exact and_congr_right fun hx => hl.mem_ancestors_iff_above hx
  constructor
  · intro d hd
    refine ⟨?_, hl.length_descendants_lt hd, hl.descendants_eq_flatMap hd, ?_, hiff d hd⟩
    · intro calls
      rw [hl.below_eq_toCome hd, hl.descendants_eq hd]
      exact hl.answers_toCome calls fun c hc => hl.mem_of_mem_children hd hc
    · refine (hl.descendants_nodup hd).map_on ?_
      intro x hx y hy hxy
      exact hl.eq_of_id_eq ((hiff d hd x).mp hx).1 ((hiff d hd y).mp hy).1 hxy
  · intro b hb c hc
    rw [← hl.mem_ancestors_iff_above hb, ← hl.mem_ancestors_iff_above hc]
    exact hl.disjoint_descendants_iff hb hc

/-- The small tree with one more node, below the second child of its root. -/
def shrub : Tree := sapling.attempt (.child ⟨2⟩ .methodDecl (some "n") ⟨1, 1, 1, 2⟩)

theorem shrub_grown : shrub.Grown := sapling_grown.attempt _

/-- In that tree, a descent from the root goes to the bottom of the first child before it comes to the
second one, and the seventh call finds nothing any more. The two children are not above one another,
and share no node. -/
theorem shrub_descents :
    ∃ r ∈ shrub.nodes, ∃ b ∈ shrub.nodes, ∃ c ∈ shrub.nodes,
      shrub.root? = some r ∧ shrub.children r = [b, c] ∧
      (Descent.below r).answers shrub 8 =
        .ok ((List.range 8).map ((shrub.descendants r)[·]?)) ∧
      (shrub.descendants r).map (·.id) = [⟨1⟩, ⟨3⟩, ⟨4⟩, ⟨5⟩, ⟨2⟩, ⟨6⟩] ∧
      (shrub.descendants b).map (·.id) = [⟨3⟩, ⟨4⟩, ⟨5⟩] ∧
      (shrub.descendants c).map (·.id) = [⟨6⟩] ∧
      (shrub.descendants b).Disjoint (shrub.descendants c) := by
  obtain ⟨hbelow, hdisjoint⟩ := descent_enumerates shrub_grown
  have hr : shrub.nodes[0] ∈ shrub.nodes := Array.getElem_mem _
  have hb : shrub.nodes[1] ∈ shrub.nodes := Array.getElem_mem _
  have hc : shrub.nodes[2] ∈ shrub.nodes := Array.getElem_mem _
  refine ⟨_, hr, _, hb, _, hc, by rfl, by decide, (hbelow _ hr).1 8, by decide, by decide,
    by decide, (hdisjoint _ hb _ hc).mpr (Or.inl ⟨by decide, ?_, ?_⟩)⟩
  · rw [← shrub_grown.linked.mem_ancestors_iff_above hc]
    decide
  · rw [← shrub_grown.linked.mem_ancestors_iff_above hb]
    decide

end Tree

end CodeNav
