import CodeNav.Proofs.Syntax.Preorder

/-!
# Redrawing what is below a node

`redraw` gives the nodes below `p` another kind, another name and another range, and leaves the shape
of the tree and every other node alone. What a look-up from a node that is not below `p` returns is
not below `p` either, unless it looks at the children of `p`; so such look-ups return the same on both
trees (`parent?_redraw`, `children_redraw`), and so does a pre-order that stops at `p`
(`agenda_redraw`).
-/

namespace CodeNav

/-- What a node says of itself, apart from its place in the tree. -/
structure Look where
  kind : Kind
  name : Option String
  span : Span

namespace Tree

/-- The node as it is redrawn: it gets its new look if it is below `p`. -/
def redrawn (t : Tree) (p : Node) (look : NodeId → Look) (d : Node) : Node :=
  if p ∈ t.ancestors d then
    { d with kind := (look d.id).kind, name := (look d.id).name, span := (look d.id).span }
  else d

/-- The tree with a new look for the nodes below `p`. -/
def redraw (t : Tree) (p : Node) (look : NodeId → Look) : Tree :=
  ⟨t.nodes.map (t.redrawn p look)⟩

variable {t : Tree} {p c d x : Node} {look : NodeId → Look} {stop stop' : Node → Bool}

/-! ## The shape is kept -/

theorem redrawn_of_notMem (hout : p ∉ t.ancestors d) : t.redrawn p look d = d := by
  rw [redrawn, if_neg hout]

@[simp] theorem redrawn_id (t : Tree) (p : Node) (look : NodeId → Look) (d : Node) :
    (t.redrawn p look d).id = d.id := by
  unfold redrawn
  split <;> rfl

@[simp] theorem redrawn_parent (t : Tree) (p : Node) (look : NodeId → Look) (d : Node) :
    (t.redrawn p look d).parent = d.parent := by
  unfold redrawn
  split <;> rfl

@[simp] theorem redrawn_children (t : Tree) (p : Node) (look : NodeId → Look) (d : Node) :
    (t.redrawn p look d).children = d.children := by
  unfold redrawn
  split <;> rfl

@[simp] theorem size_redraw (t : Tree) (p : Node) (look : NodeId → Look) :
    (t.redraw p look).size = t.size := by
  simp [size, redraw]

theorem mem_nodes_redraw (hd : d ∈ t.nodes) (hout : p ∉ t.ancestors d) :
    d ∈ (t.redraw p look).nodes :=
  Array.mem_map.mpr ⟨d, hd, redrawn_of_notMem hout⟩

theorem get?_redraw (t : Tree) (p : Node) (look : NodeId → Look) (n : NodeId) :
    (t.redraw p look).get? n = (t.get? n).map (t.redrawn p look) := by
  simp [get?, redraw]

theorem links_redraw (t : Tree) (p : Node) (look : NodeId → Look) :
    (t.redraw p look).links = t.links := by
  simp [links, redraw, Function.comp_def]

theorem Linked.redraw (h : t.Linked) (p : Node) (look : NodeId → Look) :
    (t.redraw p look).Linked where
  size_le := by
    rw [size_redraw]
    exact h.size_le
  toNat_id := by
    intro i e he
    rw [Tree.redraw, Array.getElem?_map, Option.map_eq_some_iff] at he
    obtain ⟨d, hd, rfl⟩ := he
    rw [redrawn_id]
    exact h.toNat_id hd
  parent_eq_none := by
    intro e he
    obtain ⟨d, hd, rfl⟩ := Array.mem_map.mp he
    rw [redrawn_id, redrawn_parent]
    exact h.parent_eq_none hd
  parent_lt := by
    intro e q he hq
    obtain ⟨d, hd, rfl⟩ := Array.mem_map.mp he
    rw [redrawn_id]
    rw [redrawn_parent] at hq
    exact h.parent_lt hd hq
  children_eq := by
    intro e he
    obtain ⟨d, hd, rfl⟩ := Array.mem_map.mp he
    rw [redrawn_children, redrawn_id, row, links_redraw, ← row]
    exact h.children_eq hd

/-! ## What is not below the node -/

theorem Linked.notMem_ancestors_parent (h : t.Linked) (hd : d ∈ t.nodes)
    (hout : p ∉ t.ancestors d) (hc : t.parent? d = some c) : p ∉ t.ancestors c :=
  fun hp => hout ((h.mem_ancestors_iff hd hc).mpr (Or.inr hp))

theorem Linked.notMem_ancestors_child (h : t.Linked) (hd : d ∈ t.nodes)
    (hout : p ∉ t.ancestors d) (hne : d ≠ p) (hc : c ∈ t.children d) : p ∉ t.ancestors c := by
  rw [h.mem_ancestors_child hd hc, not_or]
  exact ⟨hne.symm, hout⟩

theorem Linked.notMem_ancestors_root (h : t.Linked) (hx : t.root? = some x) :
    p ∉ t.ancestors x := by
  rw [h.ancestors_root hx]
  exact List.not_mem_nil

/-- A pre-order that stops at `p` and starts outside what is below `p` stays there. -/
theorem Linked.notMem_ancestors_of_mem_preorderUntil (h : t.Linked) (hstop : stop p = true)
    (hd : d ∈ t.nodes) (hout : p ∉ t.ancestors d) (hx : x ∈ t.preorderUntil stop d) :
    p ∉ t.ancestors x := by
  revert hout hx
  refine h.induction_down (P := fun d => p ∉ t.ancestors d → x ∈ t.preorderUntil stop d →
    p ∉ t.ancestors x) ?_ d hd
  intro d hd ih hout hx
  rw [h.preorderUntil_eq stop hd, List.mem_cons] at hx
  rcases hx with rfl | hx
  · exact hout
  · split at hx
    · exact absurd hx List.not_mem_nil
    · rename_i hgo
      have hne : d ≠ p := by
        rintro rfl
        exact hgo hstop
      obtain ⟨c, hc, hx⟩ := List.mem_flatMap.mp hx
      exact ih c hc (h.notMem_ancestors_child hd hout hne hc) hx

/-! ## Look-ups on both trees -/

theorem Linked.root?_redraw (h : t.Linked) : (t.redraw p look).root? = t.root? := by
  have hmap : (t.redraw p look).root? = t.root?.map (t.redrawn p look) := by
    simp [root?, Tree.redraw]
  cases hr : t.root? with
  | none => rw [hmap, hr, Option.map_none]
  | some r => rw [hmap, hr, Option.map_some, redrawn_of_notMem (h.notMem_ancestors_root hr)]

theorem Linked.parent?_redraw (h : t.Linked) (hd : d ∈ t.nodes) (hout : p ∉ t.ancestors d) :
    (t.redraw p look).parent? d = t.parent? d := by
  have hmap : (t.redraw p look).parent? d = (t.parent? d).map (t.redrawn p look) := by
    unfold parent?
    cases d.parent with
    | none => rfl
    | some n => exact get?_redraw t p look n
  cases hc : t.parent? d with
  | none => rw [hmap, hc, Option.map_none]
  | some c =>
      rw [hmap, hc, Option.map_some, redrawn_of_notMem (h.notMem_ancestors_parent hd hout hc)]

theorem Linked.parentKind?_redraw (h : t.Linked) (hd : d ∈ t.nodes) (hout : p ∉ t.ancestors d) :
    (t.redraw p look).parentKind? d = t.parentKind? d := by
  rw [parentKind?, parentKind?, h.parent?_redraw hd hout]

theorem Linked.children_redraw (h : t.Linked) (hd : d ∈ t.nodes) (hout : p ∉ t.ancestors d)
    (hne : d ≠ p) : (t.redraw p look).children d = t.children d := by
  have hmap : (t.redraw p look).children d = (t.children d).map (t.redrawn p look) := by
    unfold children
    rw [List.map_filterMap]
    exact List.filterMap_congr fun n _ => get?_redraw t p look n
  have hsame : ∀ c ∈ t.children d, t.redrawn p look c = c := fun c hc =>
    redrawn_of_notMem (h.notMem_ancestors_child hd hout hne hc)
  rw [hmap, List.map_congr_left hsame, List.map_id']

theorem Linked.preorderDownTo_redraw (h : t.Linked) (hstop : stop p = true)
    (hagree : ∀ d ∈ t.nodes, p ∉ t.ancestors d → stop' d = stop d) (depth : Nat)
    (hd : d ∈ t.nodes) (hout : p ∉ t.ancestors d) :
    (t.redraw p look).preorderDownTo stop' depth d = t.preorderDownTo stop depth d := by
  -- the induction never goes below `p`, for the pre-order stops there
  induction depth generalizing d with
  | zero => rfl
  | succ depth ih =>
      rw [preorderDownTo, preorderDownTo, hagree d hd hout]
      by_cases hs : stop d = true
      · rw [if_pos hs, if_pos hs]
      · have hne : d ≠ p := by
          rintro rfl
          exact hs hstop
        rw [if_neg hs, if_neg hs, h.children_redraw hd hout hne]
        congr 1
        refine List.flatMap_congr fun c hc => ?_
        exact ih (h.mem_of_mem_children hd hc) (h.notMem_ancestors_child hd hout hne hc)

/-- **A loop that stops at `p`.** It goes through the same nodes on both trees. -/
theorem Linked.agenda_redraw (h : t.Linked) (hstop : stop p = true)
    (hagree : ∀ d ∈ t.nodes, p ∉ t.ancestors d → stop' d = stop d) {pending : List Node}
    (hpending : ∀ d ∈ pending, d ∈ t.nodes ∧ p ∉ t.ancestors d) :
    (t.redraw p look).agenda stop' pending = t.agenda stop pending := by
  unfold agenda
  refine List.flatMap_congr fun d hd => ?_
  rw [preorderUntil, preorderUntil, size_redraw]
  exact h.preorderDownTo_redraw hstop hagree t.size (hpending d hd).1 (hpending d hd).2

end Tree

end CodeNav
