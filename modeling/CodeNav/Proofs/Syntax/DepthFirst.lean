import CodeNav.Proofs.Syntax.Growth

/-!
# Ids in document order

Ids are given out in the order of growth, and growth may add a node below any node there is. So the
order of ids and document order are two listings of one set of nodes. They are the same listing if
and only if growth was depth-first (`nodes_eq_documentOrder_iff`): each node hangs from the one
before it, or from a node above that one.

What carries both directions is that a subtree is one stretch of the pre-order (`preorder_infix`),
and that under depth-first growth it is one stretch of the ids, too (`DepthFirst.not_mem_preorder`).
-/

namespace CodeNav

namespace Tree

variable {t : Tree} {b c d p x y : Node}

/-! ## Depth-first growth -/

/-- Each node but the first hangs from the node before it, or from one above that node. -/
def DepthFirst (t : Tree) : Prop :=
  ∀ k < t.size, ∀ x ∈ t.nodes[k]?, ∀ y ∈ t.nodes[k + 1]?,
    ∃ p ∈ t.parent? y, p = x ∨ p ∈ t.ancestors x

instance (t : Tree) : Decidable t.DepthFirst := by
  unfold DepthFirst
  infer_instance

/-- A subtree that is left behind is not come back to. -/
theorem DepthFirst.not_mem_preorder (hdf : t.DepthFirst) (h : t.Linked) (hb : b ∈ t.nodes)
    (hc : c ∈ t.nodes) (hbc : b.id.toNat < c.id.toNat) (hleft : c ∉ t.preorder b) (k : Nat) :
    ∀ x, t.nodes[c.id.toNat + k]? = some x → x ∉ t.preorder b := by
  induction k with
  | zero =>
      intro x hx
      rw [Nat.add_zero] at hx
      have hcx : some c = some x := (h.get?_id hc).symm.trans hx
      rwa [← Option.some.inj hcx]
  | succ k ih =>
      intro y hy hyb
      have hlt : c.id.toNat + k < t.size := by
        have : c.id.toNat + (k + 1) < t.size := (Array.getElem?_eq_some_iff.mp hy).1
        omega
      obtain ⟨x, hx⟩ : ∃ x, t.nodes[c.id.toNat + k]? = some x := ⟨_, Array.getElem?_eq_getElem hlt⟩
      obtain ⟨p, hp, hpx⟩ := hdf _ hlt x hx y hy
      have hxmem := Array.mem_of_getElem? hx
      have hymem := Array.mem_of_getElem? hy
      have hyid := h.toNat_id hy
      -- what is above the parent of `y` is above `x`, so `x` would be below `b` already
      refine ih x hx ((h.mem_preorder_iff hb).mpr ⟨hxmem, ?_⟩)
      rcases ((h.mem_preorder_iff hb).mp hyb).2 with rfl | hby
      · omega
      · rcases (h.mem_ancestors_iff hymem hp).mp hby with rfl | hbp
        · exact hpx.imp Eq.symm id
        · rcases hpx with rfl | hpx
          · exact Or.inr hbp
          · exact Or.inr (h.ancestors_trans hxmem hpx hbp)

/-- **Convexity.** If a later node is outside a subtree, the subtree lies before it. -/
theorem DepthFirst.lt_of_mem_preorder (hdf : t.DepthFirst) (h : t.Linked) (hb : b ∈ t.nodes)
    (hc : c ∈ t.nodes) (hbc : b.id.toNat < c.id.toNat) (hleft : c ∉ t.preorder b)
    (hx : x ∈ t.preorder b) : x.id.toNat < c.id.toNat := by
  by_contra hge
  have hxmem := ((h.mem_preorder_iff hb).mp hx).1
  refine hdf.not_mem_preorder h hb hc hbc hleft (x.id.toNat - c.id.toNat) x ?_ hx
  rw [Nat.add_sub_cancel' (Nat.le_of_not_lt hge)]
  exact h.get?_id hxmem

theorem DepthFirst.preorder_sorted (hdf : t.DepthFirst) (h : t.Linked) (hd : d ∈ t.nodes) :
    (t.preorder d).Pairwise (·.id.toNat < ·.id.toNat) := by
  refine h.induction_down (P := fun d => (t.preorder d).Pairwise (·.id.toNat < ·.id.toNat)) ?_ d hd
  intro d hd ih
  rw [h.preorder_eq hd, List.pairwise_cons]
  constructor
  · intro x hx
    rw [← h.descendants_eq hd] at hx
    obtain ⟨hxmem, hdx⟩ := (h.mem_descendants_iff hd).mp hx
    exact (h.ancestor_lt hxmem d hdx).2
  · rw [List.pairwise_flatMap]
    refine ⟨ih, List.Pairwise.imp_of_mem ?_ (h.children_sorted hd)⟩
    intro b c hb hc hbc x hx y hy
    have hbmem := h.mem_of_mem_children hd hb
    have hcmem := h.mem_of_mem_children hd hc
    have hne : b ≠ c := fun heq => Nat.lt_irrefl _ (heq ▸ hbc)
    have hleft : c ∉ t.preorder b := fun hcb =>
      h.disjoint_preorder hd hb hc hne hcb (h.mem_preorder_self hcmem)
    have hxc := hdf.lt_of_mem_preorder h hbmem hcmem hbc hleft hx
    obtain ⟨hymem, rfl | hcy⟩ := (h.mem_preorder_iff hcmem).mp hy
    · exact hxc
    · exact Nat.lt_trans hxc (h.ancestor_lt hymem c hcy).2

/-! ## Subtrees as stretches -/

/-- **A subtree is one stretch of the pre-order.** -/
theorem Linked.preorder_infix (h : t.Linked) (hd : d ∈ t.nodes) (hp : p ∈ t.preorder d) :
    t.preorder p <:+: t.preorder d := by
  revert hp
  refine h.induction_down (P := fun d => p ∈ t.preorder d → t.preorder p <:+: t.preorder d) ?_ d hd
  intro d hd ih hp
  rw [h.preorder_eq hd, List.mem_cons, List.mem_flatMap] at hp
  rcases hp with rfl | ⟨c, hc, hp⟩
  · exact List.infix_refl _
  · have hbelow : t.preorder c <:+: (t.children d).flatMap t.preorder :=
      List.infix_flatMap_of_mem hc _
    rw [h.preorder_eq hd]
    exact ((ih c hc hp).trans hbelow).trans (List.suffix_cons _ _).isInfix

/-- Between a node and what is below it, there are only nodes below it, if the pre-order is in order
of id. -/
theorem Linked.mem_preorder_of_between (h : t.Linked) (hd : d ∈ t.nodes)
    (hsorted : (t.preorder d).Pairwise (·.id.toNat < ·.id.toNat)) (hp : p ∈ t.preorder d)
    (hx : x ∈ t.preorder d) (hy : y ∈ t.preorder p) (hpx : p.id.toNat ≤ x.id.toNat)
    (hxy : x.id.toNat ≤ y.id.toNat) : x ∈ t.preorder p := by
  obtain ⟨before, after, heq⟩ := h.preorder_infix hd hp
  have hpmem := ((h.mem_preorder_iff hd).mp hp).1
  rw [← heq] at hsorted hx
  obtain ⟨hfront, -, hafter⟩ := List.pairwise_append.mp hsorted
  obtain ⟨-, -, hbefore⟩ := List.pairwise_append.mp hfront
  rcases List.mem_append.mp hx with hx | hx
  · rcases List.mem_append.mp hx with hx | hx
    · have := hbefore x hx p (h.mem_preorder_self hpmem)
      omega
    · exact hx
  · have := hafter y (List.mem_append_right before hy) x hx
    omega

theorem Linked.depthFirst_of_preorder_sorted (h : t.Linked) {r : Node} (hr : t.root? = some r)
    (hsorted : (t.preorder r).Pairwise (·.id.toNat < ·.id.toNat)) : t.DepthFirst := by
  intro k _ x hx y hy
  have hrmem := Linked.mem_of_root? hr
  have hxmem := Array.mem_of_getElem? hx
  have hymem := Array.mem_of_getElem? hy
  have hxid := h.toNat_id hx
  have hyid := h.toNat_id hy
  have hroot : ∀ z ∈ t.nodes, z ∈ t.preorder r := by
    intro z hz
    have hall := h.mem_preorder_root_iff.mpr hz
    rwa [hr, Option.toList_some, List.flatMap_singleton] at hall
  cases hp : t.parent? y with
  | none =>
      -- only the root has no parent, and `y` is not the first node
      have := h.toNat_id ((h.parent?_eq_none_iff hymem).mp hp)
      omega
  | some p =>
      have hpmem := (h.parent?_eq_some_iff.mp hp).1
      have hlt := h.id_lt_of_parent? hymem hp
      have hpy : p ∈ t.ancestors y := (h.mem_ancestors_iff hymem hp).mpr (Or.inl rfl)
      have hbelow : y ∈ t.preorder p := (h.mem_preorder_iff hpmem).mpr ⟨hymem, Or.inr hpy⟩
      have hx := h.mem_preorder_of_between hrmem hsorted (hroot p hpmem) (hroot x hxmem) hbelow
        (by omega) (by omega)
      exact ⟨p, rfl, ((h.mem_preorder_iff hpmem).mp hx).2.imp Eq.symm id⟩

/-! ## The theorem -/

theorem Linked.documentOrder_perm (h : t.Linked) : t.nodes.toList.Perm t.documentOrder := by
  rw [h.documentOrder_eq]
  exact h.preorder_root_perm.symm

/-- **When ids are in document order.** The nodes by id and the nodes in document order are the same
ones, and they are in the same order if and only if each node but the first hangs from the node
before it, or from one above that node. -/
theorem nodes_eq_documentOrder_iff (h : t.Grown) :
    (t.nodes.toList = t.documentOrder ↔ t.DepthFirst) ∧
      t.nodes.toList.Perm t.documentOrder := by
  have hl := h.linked
  refine ⟨⟨?_, ?_⟩, hl.documentOrder_perm⟩
  · intro heq
    cases hr : t.root? with
    | none =>
        intro k hk
        have h0 : t.size ≤ 0 := Array.getElem?_eq_none_iff.mp hr
        omega
    | some r =>
        have hsorted := hl.nodes_sorted
        rw [heq, hl.documentOrder_eq, hr, Option.toList_some, List.flatMap_singleton] at hsorted
        exact hl.depthFirst_of_preorder_sorted hr hsorted
  · intro hdf
    have hsorted : t.documentOrder.Pairwise (·.id.toNat < ·.id.toNat) := by
      rw [hl.documentOrder_eq]
      cases hr : t.root? with
      | none => exact List.Pairwise.nil
      | some r =>
          rw [Option.toList_some, List.flatMap_singleton]
          exact hdf.preorder_sorted hl (Linked.mem_of_root? hr)
    refine hl.documentOrder_perm.eq_of_pairwise ?_ hl.nodes_sorted hsorted
    intro x y _ _ hxy hyx
    omega

def saplingByDepth : Tree :=
  let range : Span := ⟨1, 1, 1, 2⟩
  [.root .compilationUnit range,
   .child ⟨0⟩ .typeDecl (some "A") range,
   .child ⟨1⟩ .simpleName (some "A") range,
   .child ⟨1⟩ .methodDecl (some "m") range,
   .child ⟨3⟩ .block none range,
   .child ⟨0⟩ .typeDecl (some "B") range].foldl attempt empty

/-- The small tree was not grown depth-first: its fourth node hangs from the second one, but the
third one does not. So its ids are not in document order. -/
theorem sapling_out_of_order :
    (sapling.nodes.toList ≠ sapling.documentOrder ∧
      sapling.nodes.toList.Perm sapling.documentOrder) ∧
    saplingByDepth.nodes.toList = saplingByDepth.documentOrder := by
  have hgrown : saplingByDepth.Grown := ⟨_, rfl⟩
  obtain ⟨hiff, hperm⟩ := nodes_eq_documentOrder_iff sapling_grown
  refine ⟨⟨fun heq => ?_, hperm⟩, ?_⟩
  · exact absurd (hiff.mp heq) (by decide)
  · exact (nodes_eq_documentOrder_iff hgrown).1.mpr (by decide)

end Tree

end CodeNav
