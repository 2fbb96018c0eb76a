import CodeNav.Proofs.Syntax.Linked
import Mathlib.Data.List.Flatten
import Mathlib.Data.List.Perm.Basic

/-!
# Ancestors and pre-order

`ancestors` follows parent links, `preorder` follows child rows, and `preorderUntil` is the
pre-order that leaves out what is below a node that stops it. On a linked tree each satisfies the
equation that one would define it by, and the two directions meet: the subtree of `d` consists of
`d` and the nodes that have it as an ancestor (`mem_preorder_iff`), and stopping a pre-order is the
same as striking out every node below a stop (`preorderUntil_eq_filter`).

Then come loops that keep their work as a list of subtrees still to come: what such a loop goes
through is the `agenda` of its list, and the size of the tree bounds its length. A loop over the
children of one node stops at what is on the `path` from that node
(`agenda_children_eq_filter`).
-/

namespace CodeNav

namespace Tree

variable {t : Tree} {a b c d x : Node} {stop : Node → Bool}

/-! ## Ancestors -/

/-- The chain of parents of a node, as far up as `height` says. -/
def ancestorsUpTo (t : Tree) : Nat → Node → List Node
  | 0, _ => []
  | height + 1, d =>
      match t.parent? d with
      | none => []
      | some p => p :: t.ancestorsUpTo height p

/-- The proper ancestors of a node, the nearest first. -/
def ancestors (t : Tree) (d : Node) : List Node := t.ancestorsUpTo t.size d

theorem Linked.ancestorsUpTo_eq (h : t.Linked) {m n : Nat} (hd : d ∈ t.nodes)
    (hm : d.id.toNat ≤ m) (hn : d.id.toNat ≤ n) : t.ancestorsUpTo m d = t.ancestorsUpTo n d := by
  -- ids fall along parents, so the chain from `d` is no longer than the id of `d`
  induction m generalizing n d with
  | zero =>
      have hroot : t.parent? d = none := by
        rw [parent?, (h.parent_eq_none hd).mpr (Nat.le_zero.mp hm), Option.bind_none]
      cases n with
      | zero => rfl
      | succ n => rw [ancestorsUpTo, ancestorsUpTo, hroot]
  | succ m ih =>
      cases hp : t.parent? d with
      | none => cases n <;> simp [ancestorsUpTo, hp]
      | some p =>
          have hpd := h.id_lt_of_parent? hd hp
          cases n with
          | zero => omega
          | succ n =>
              simp only [ancestorsUpTo, hp]
              rw [ih (h.parent?_eq_some_iff.mp hp).1 (n := n) (by omega) (by omega)]

theorem Linked.ancestors_eq (h : t.Linked) (hd : d ∈ t.nodes) :
    t.ancestors d =
      match t.parent? d with
      | none => []
      | some p => p :: t.ancestors p := by
  have hlt := h.toNat_lt_size hd
  rw [ancestors, h.ancestorsUpTo_eq hd (Nat.le_of_lt hlt) (n := t.size + 1) (by omega),
    ancestorsUpTo]
  cases hp : t.parent? d <;> rfl

theorem Linked.mem_ancestors_iff (h : t.Linked) (hd : d ∈ t.nodes) (hp : t.parent? d = some b) :
    a ∈ t.ancestors d ↔ a = b ∨ a ∈ t.ancestors b := by
  rw [h.ancestors_eq hd, hp, List.mem_cons]

theorem Linked.ancestors_root (h : t.Linked) {r : Node} (hr : t.root? = some r) :
    t.ancestors r = [] := by
  rw [h.ancestors_eq (Linked.mem_of_root? hr), h.parent?_root hr]

/-- Induction along parents. -/
theorem Linked.induction_up (h : t.Linked) {P : Node → Prop}
    (step : ∀ d ∈ t.nodes, (∀ p, t.parent? d = some p → P p) → P d) : ∀ d ∈ t.nodes, P d := by
  suffices H : ∀ n, ∀ d ∈ t.nodes, d.id.toNat < n → P d from
    fun d hd => H _ d hd (Nat.lt_succ_self _)
  intro n
  induction n with
  | zero => exact fun d _ hlt => absurd hlt (Nat.not_lt_zero _)
  | succ n ih =>
      intro d hd hlt
      refine step d hd fun p hp => ih p (h.parent?_eq_some_iff.mp hp).1 ?_
      have := h.id_lt_of_parent? hd hp
      omega

theorem Linked.ancestor_lt (h : t.Linked) (hd : d ∈ t.nodes) :
    ∀ a ∈ t.ancestors d, a ∈ t.nodes ∧ a.id.toNat < d.id.toNat := by
  refine h.induction_up (P := fun d => ∀ a ∈ t.ancestors d, a ∈ t.nodes ∧ a.id.toNat < d.id.toNat)
    ?_ d hd
  intro d hd ih a ha
  cases hp : t.parent? d with
  | none => simp [h.ancestors_eq hd, hp] at ha
  | some p =>
      have hlt := h.id_lt_of_parent? hd hp
      rcases (h.mem_ancestors_iff hd hp).mp ha with rfl | ha
      · exact ⟨(h.parent?_eq_some_iff.mp hp).1, hlt⟩
      · obtain ⟨hmem, hap⟩ := ih p hp a ha
        exact ⟨hmem, by omega⟩

theorem Linked.ancestors_trans (h : t.Linked) (hd : d ∈ t.nodes) (hb : b ∈ t.ancestors d)
    (ha : a ∈ t.ancestors b) : a ∈ t.ancestors d := by
  revert hb
  refine h.induction_up (P := fun d => b ∈ t.ancestors d → a ∈ t.ancestors d) ?_ d hd
  intro d hd ih hb
  cases hp : t.parent? d with
  | none => simp [h.ancestors_eq hd, hp] at hb
  | some p =>
      refine (h.mem_ancestors_iff hd hp).mpr (Or.inr ?_)
      rcases (h.mem_ancestors_iff hd hp).mp hb with rfl | hb
      · exact ha
      · exact ih p hp hb

theorem Linked.ancestors_chain (h : t.Linked) (hd : d ∈ t.nodes) (ha : a ∈ t.ancestors d)
    (hb : b ∈ t.ancestors d) : a = b ∨ a ∈ t.ancestors b ∨ b ∈ t.ancestors a := by
  revert ha hb
  refine h.induction_up (P := fun d => a ∈ t.ancestors d → b ∈ t.ancestors d →
    a = b ∨ a ∈ t.ancestors b ∨ b ∈ t.ancestors a) ?_ d hd
  intro d hd ih ha hb
  cases hp : t.parent? d with
  | none => simp [h.ancestors_eq hd, hp] at ha
  | some p =>
      rcases (h.mem_ancestors_iff hd hp).mp ha with rfl | ha
      · rcases (h.mem_ancestors_iff hd hp).mp hb with rfl | hb
        · exact Or.inl rfl
        · exact Or.inr (Or.inr hb)
      · rcases (h.mem_ancestors_iff hd hp).mp hb with rfl | hb
        · exact Or.inr (Or.inl ha)
        · exact ih p hp ha hb

/-! ## Pre-order -/

/-- The subtree of a node in pre-order, down to the given depth, without what is below a stop. -/
def preorderDownTo (t : Tree) (stop : Node → Bool) : Nat → Node → List Node
  | 0, _ => []
  | depth + 1, d =>
      d :: if stop d then [] else (t.children d).flatMap (t.preorderDownTo stop depth)

/-- The subtree of a node in pre-order, without what is below a stop. -/
def preorderUntil (t : Tree) (stop : Node → Bool) (d : Node) : List Node :=
  t.preorderDownTo stop t.size d

/-- The subtree of a node in pre-order: the node, and then the subtrees of its children from left to
right. -/
def preorder (t : Tree) (d : Node) : List Node := t.preorderUntil (fun _ => false) d

theorem Linked.preorderDownTo_eq (h : t.Linked) (stop : Node → Bool) {m n : Nat} (hd : d ∈ t.nodes)
    (hm : t.size ≤ d.id.toNat + m) (hn : t.size ≤ d.id.toNat + n) :
    t.preorderDownTo stop m d = t.preorderDownTo stop n d := by
  have hlt := h.toNat_lt_size hd
  -- ids rise along children, so there are at most as many levels below `d` as later ids
  induction m generalizing n d with
  | zero => omega
  | succ m ih =>
      cases n with
      | zero => omega
      | succ n =>
          rw [preorderDownTo, preorderDownTo]
          congr 2
          refine List.flatMap_congr fun c hc => ?_
          have hmem := h.mem_of_mem_children hd hc
          have hcd := h.id_lt_of_parent? hmem (h.parent?_of_mem_children hd hc)
          exact ih hmem (by omega) (by omega) (h.toNat_lt_size hmem)

theorem Linked.preorderUntil_eq (h : t.Linked) (stop : Node → Bool) (hd : d ∈ t.nodes) :
    t.preorderUntil stop d =
      d :: if stop d then [] else (t.children d).flatMap (t.preorderUntil stop) := by
  rw [preorderUntil, h.preorderDownTo_eq stop hd (n := t.size + 1) (by omega) (by omega),
    preorderDownTo]
  rfl

theorem Linked.preorder_eq (h : t.Linked) (hd : d ∈ t.nodes) :
    t.preorder d = d :: (t.children d).flatMap t.preorder := by
  rw [preorder, h.preorderUntil_eq _ hd]
  rfl

theorem Linked.mem_preorder_self (h : t.Linked) (hd : d ∈ t.nodes) : d ∈ t.preorder d := by
  rw [h.preorder_eq hd]
  exact List.mem_cons_self

/-- Induction along children. -/
theorem Linked.induction_down (h : t.Linked) {P : Node → Prop}
    (step : ∀ d ∈ t.nodes, (∀ c ∈ t.children d, P c) → P d) : ∀ d ∈ t.nodes, P d := by
  suffices H : ∀ n, ∀ d ∈ t.nodes, t.size ≤ d.id.toNat + n → P d from
    fun d hd => H t.size d hd (by omega)
  intro n
  induction n with
  | zero =>
      intro d hd hle
      have := h.toNat_lt_size hd
      omega
  | succ n ih =>
      intro d hd hle
      refine step d hd fun c hc => ih c (h.mem_of_mem_children hd hc) ?_
      have := h.id_lt_of_parent? (h.mem_of_mem_children hd hc) (h.parent?_of_mem_children hd hc)
      omega

theorem Linked.mem_ancestors_child (h : t.Linked) (hd : d ∈ t.nodes) (hc : c ∈ t.children d) :
    a ∈ t.ancestors c ↔ a = d ∨ a ∈ t.ancestors d :=
  h.mem_ancestors_iff (h.mem_of_mem_children hd hc) (h.parent?_of_mem_children hd hc)

theorem Linked.mem_preorder_of_mem_children (h : t.Linked) (hd : d ∈ t.nodes)
    (hb : b ∈ t.preorder d) (hc : c ∈ t.children b) : c ∈ t.preorder d := by
  revert hb
  refine h.induction_down (P := fun d => b ∈ t.preorder d → c ∈ t.preorder d) ?_ d hd
  intro d hd ih hb
  rw [h.preorder_eq hd, List.mem_cons, List.mem_flatMap] at hb ⊢
  rcases hb with rfl | ⟨e, he, hb⟩
  · exact Or.inr ⟨c, hc, h.mem_preorder_self (h.mem_of_mem_children hd hc)⟩
  · exact Or.inr ⟨e, he, ih e he hb⟩

/-- **The subtree of a node.** It holds the node and what has the node as an ancestor. -/
theorem Linked.mem_preorder_iff (h : t.Linked) (hd : d ∈ t.nodes) :
    x ∈ t.preorder d ↔ x ∈ t.nodes ∧ (x = d ∨ d ∈ t.ancestors x) := by
  constructor
  · refine h.induction_down (P := fun d => x ∈ t.preorder d → x ∈ t.nodes ∧
      (x = d ∨ d ∈ t.ancestors x)) ?_ d hd
    intro d hd ih hx
    rw [h.preorder_eq hd, List.mem_cons, List.mem_flatMap] at hx
    rcases hx with rfl | ⟨c, hc, hx⟩
    · exact ⟨hd, Or.inl rfl⟩
    · obtain ⟨hmem, hxc⟩ := ih c hc hx
      have hdc : d ∈ t.ancestors c := (h.mem_ancestors_child hd hc).mpr (Or.inl rfl)
      refine ⟨hmem, Or.inr ?_⟩
      rcases hxc with rfl | hcx
      · exact hdc
      · exact h.ancestors_trans hmem hcx hdc
  · rintro ⟨hx, hxd⟩
    revert hxd
    refine h.induction_up (P := fun x => x = d ∨ d ∈ t.ancestors x → x ∈ t.preorder d) ?_ x hx
    intro x hx ih hxd
    rcases hxd with rfl | hdx
    · exact h.mem_preorder_self hx
    · cases hp : t.parent? x with
      | none => simp [h.ancestors_eq hx, hp] at hdx
      | some p =>
          -- the parent is in the subtree already, and a subtree is closed under children
          have hpd : p ∈ t.preorder d :=
            ih p hp (((h.mem_ancestors_iff hx hp).mp hdx).imp Eq.symm id)
          exact h.mem_preorder_of_mem_children hd hpd (h.mem_children_of_parent? hx hp)

theorem Linked.mem_preorder_root_iff (h : t.Linked) :
    x ∈ t.root?.toList.flatMap t.preorder ↔ x ∈ t.nodes := by
  constructor
  · intro hx
    obtain ⟨r, hr, hx⟩ := List.mem_flatMap.mp hx
    exact ((h.mem_preorder_iff (Linked.mem_of_mem_root? hr)).mp hx).1
  · intro hx
    refine h.induction_up (P := fun x => x ∈ t.root?.toList.flatMap t.preorder) ?_ x hx
    intro x hx ih
    cases hp : t.parent? x with
    | none =>
        have hr := (h.parent?_eq_none_iff hx).mp hp
        exact List.mem_flatMap.mpr ⟨x, Option.mem_toList.mpr hr, h.mem_preorder_self hx⟩
    | some p =>
        obtain ⟨r, hr, hpr⟩ := List.mem_flatMap.mp (ih p hp)
        refine List.mem_flatMap.mpr ⟨r, hr, ?_⟩
        exact h.mem_preorder_of_mem_children (Linked.mem_of_mem_root? hr) hpr
          (h.mem_children_of_parent? hx hp)

theorem Linked.disjoint_preorder (h : t.Linked) (hd : d ∈ t.nodes) (hb : b ∈ t.children d)
    (hc : c ∈ t.children d) (hne : b ≠ c) : List.Disjoint (t.preorder b) (t.preorder c) := by
  -- neither of two children is an ancestor of the other, for both have the same ancestors
  have hnot : ∀ {b c : Node}, b ∈ t.children d → c ∈ t.children d → b ∉ t.ancestors c := by
    intro b c hb hc hbc
    have hbd := h.id_lt_of_parent? (h.mem_of_mem_children hd hb) (h.parent?_of_mem_children hd hb)
    rcases (h.mem_ancestors_child hd hc).mp hbc with rfl | hbd'
    · omega
    · have := (h.ancestor_lt hd b hbd').2
      omega
  intro x hxb hxc
  obtain ⟨hx, hxb⟩ := (h.mem_preorder_iff (h.mem_of_mem_children hd hb)).mp hxb
  obtain ⟨-, hxc⟩ := (h.mem_preorder_iff (h.mem_of_mem_children hd hc)).mp hxc
  rcases hxb with rfl | hxb
  · exact hxc.elim hne (hnot hc hb)
  · rcases hxc with rfl | hxc
    · exact hnot hb hc hxb
    · rcases h.ancestors_chain hx hxb hxc with hbc | hbc | hcb
      · exact hne hbc
      · exact hnot hb hc hbc
      · exact hnot hc hb hcb

theorem Linked.preorder_nodup (h : t.Linked) (hd : d ∈ t.nodes) : (t.preorder d).Nodup := by
  refine h.induction_down (P := fun d => (t.preorder d).Nodup) ?_ d hd
  intro d hd ih
  rw [h.preorder_eq hd, List.nodup_cons]
  constructor
  · intro hmem
    obtain ⟨c, hc, hdc⟩ := List.mem_flatMap.mp hmem
    have hcmem := h.mem_of_mem_children hd hc
    have hlt := h.id_lt_of_parent? hcmem (h.parent?_of_mem_children hd hc)
    rcases ((h.mem_preorder_iff hcmem).mp hdc).2 with rfl | hcd
    · omega
    · have := (h.ancestor_lt hd c hcd).2
      omega
  · rw [List.nodup_flatMap]
    refine ⟨ih, List.Pairwise.imp_of_mem ?_ (h.children_nodup hd)⟩
    intro b c hb hc hne
    exact h.disjoint_preorder hd hb hc hne

theorem Linked.preorder_root_nodup (h : t.Linked) :
    (t.root?.toList.flatMap t.preorder).Nodup := by
  cases hr : t.root? with
  | none => exact List.nodup_nil
  | some r =>
      rw [Option.toList_some, List.flatMap_singleton]
      exact h.preorder_nodup (Linked.mem_of_root? hr)

theorem Linked.preorder_root_perm (h : t.Linked) :
    (t.root?.toList.flatMap t.preorder).Perm t.nodes.toList := by
  apply (List.perm_ext_iff_of_nodup h.preorder_root_nodup h.nodes_nodup).mpr
  intro x
  rw [h.mem_preorder_root_iff, Array.mem_toList_iff]

/-- **Ancestors come first.** No node of a pre-order is an ancestor of a node in front of it. -/
theorem Linked.preorder_pairwise (h : t.Linked) (hd : d ∈ t.nodes) :
    (t.preorder d).Pairwise fun x a => a ∉ t.ancestors x := by
  refine h.induction_down (P := fun d => (t.preorder d).Pairwise fun x a => a ∉ t.ancestors x)
    ?_ d hd
  intro d hd ih
  rw [h.preorder_eq hd, List.pairwise_cons]
  constructor
  · intro a ha had
    obtain ⟨c, hc, hac⟩ := List.mem_flatMap.mp ha
    have hlt := (h.ancestor_lt hd a had).2
    have hcmem := h.mem_of_mem_children hd hc
    have hdc := h.id_lt_of_parent? hcmem (h.parent?_of_mem_children hd hc)
    obtain ⟨hamem, rfl | hca⟩ := (h.mem_preorder_iff hcmem).mp hac
    · omega
    · have := (h.ancestor_lt hamem c hca).2
      omega
  · rw [List.pairwise_flatMap]
    refine ⟨ih, List.Pairwise.imp_of_mem ?_ (h.children_nodup hd)⟩
    intro b c hb hc hne x hx a ha hax
    -- what is below `a` is in the same subtree as `a`
    have hbmem := h.mem_of_mem_children hd hb
    have hcmem := h.mem_of_mem_children hd hc
    have hxmem := ((h.mem_preorder_iff hbmem).mp hx).1
    refine h.disjoint_preorder hd hb hc hne hx ((h.mem_preorder_iff hcmem).mpr ⟨hxmem, Or.inr ?_⟩)
    rcases ((h.mem_preorder_iff hcmem).mp ha).2 with rfl | hca
    · exact hax
    · exact h.ancestors_trans hxmem hax hca

/-- What is in a first part of some of the pre-order has its ancestors there, too, as far as they are
in that list. -/
theorem Linked.mem_of_prefix_of_mem_ancestors (h : t.Linked) (hd : d ∈ t.nodes) {l l' : List Node}
    (hsub : l'.Sublist (t.preorder d)) (hpre : l <+: l') (hx : x ∈ l) (ha : a ∈ l')
    (hax : a ∈ t.ancestors x) : a ∈ l := by
  obtain ⟨rest, rfl⟩ := hpre
  rcases List.mem_append.mp ha with ha | ha
  · exact ha
  · have hordered := (h.preorder_pairwise hd).sublist hsub
    exact absurd hax ((List.pairwise_append.mp hordered).2.2 x hx a ha)

/-! ## Striking out what is below a stop -/

/-- No proper ancestor of the node is a stop. -/
def shows (t : Tree) (stop : Node → Bool) (d : Node) : Bool := (t.ancestors d).all (!stop ·)

theorem shows_iff : t.shows stop d = true ↔ ∀ a ∈ t.ancestors d, stop a = false := by
  simp [shows]

theorem Linked.shows_child_iff (h : t.Linked) (hd : d ∈ t.nodes) (hc : c ∈ t.children d) :
    t.shows stop c = true ↔ stop d = false ∧ t.shows stop d = true := by
  simp only [shows_iff, h.mem_ancestors_child hd hc]
  constructor
  · exact fun H => ⟨H d (Or.inl rfl), fun a ha => H a (Or.inr ha)⟩
  · rintro ⟨hs, H⟩ a (rfl | ha)
    · exact hs
    · exact H a ha

theorem Linked.shows_of_mem_preorder (h : t.Linked) (hd : d ∈ t.nodes) (hx : x ∈ t.preorder d)
    (hs : t.shows stop x = true) : t.shows stop d = true := by
  rw [shows_iff] at hs ⊢
  obtain ⟨hmem, rfl | hdx⟩ := (h.mem_preorder_iff hd).mp hx
  · exact hs
  · intro a ha
    exact hs a (h.ancestors_trans hmem hdx ha)

/-- **Stopping is striking out.** A stopped pre-order is the pre-order without the nodes that have a
stop for an ancestor. -/
theorem Linked.preorderUntil_eq_filter (h : t.Linked) (hd : d ∈ t.nodes)
    (hs : t.shows stop d = true) :
    t.preorderUntil stop d = (t.preorder d).filter (t.shows stop) := by
  revert hs
  refine h.induction_down (P := fun d => t.shows stop d = true →
    t.preorderUntil stop d = (t.preorder d).filter (t.shows stop)) ?_ d hd
  intro d hd ih hs
  rw [h.preorderUntil_eq stop hd, h.preorder_eq hd, List.filter_cons_of_pos hs,
    List.filter_flatMap]
  congr 1
  cases hstop : stop d with
  | true =>
      -- everything below the stop `d` has `d` for an ancestor, and is struck out
      rw [if_pos rfl, eq_comm, List.flatMap_eq_nil_iff]
      intro c hc
      rw [List.filter_eq_nil_iff]
      intro x hx hshow
      have hcmem := h.mem_of_mem_children hd hc
      obtain ⟨hx, hxc⟩ := (h.mem_preorder_iff hcmem).mp hx
      have hdc : d ∈ t.ancestors c := (h.mem_ancestors_child hd hc).mpr (Or.inl rfl)
      have hdx : d ∈ t.ancestors x := by
        rcases hxc with rfl | hcx
        · exact hdc
        · exact h.ancestors_trans hx hcx hdc
      rw [shows_iff.mp hshow d hdx] at hstop
      cases hstop
  | false =>
      rw [if_neg Bool.false_ne_true]
      exact List.flatMap_congr fun c hc =>
        ih c hc ((h.shows_child_iff hd hc).mpr ⟨hstop, hs⟩)

/-! ## Work still to come -/

/-- The children that are gone into after a node. -/
def belowUnless (t : Tree) (stop : Node → Bool) (d : Node) : List Node :=
  if stop d then [] else t.children d

/-- What a loop goes through whose subtrees to come are `pending`. -/
def agenda (t : Tree) (stop : Node → Bool) (pending : List Node) : List Node :=
  pending.flatMap (t.preorderUntil stop)

theorem agenda_nil : t.agenda stop [] = [] := rfl

/-- **One step of a loop.** It takes the topmost node and puts what is below it in front. -/
theorem Linked.agenda_cons (h : t.Linked) (stop : Node → Bool) (hd : d ∈ t.nodes)
    (pending : List Node) :
    t.agenda stop (d :: pending) = d :: t.agenda stop (t.belowUnless stop d ++ pending) := by
  simp only [agenda, belowUnless, List.flatMap_cons, List.flatMap_append, h.preorderUntil_eq stop hd]
  cases stop d <;> simp

theorem Linked.belowUnless_append_mem (h : t.Linked) (hd : d ∈ t.nodes) {pending : List Node}
    (hmem : ∀ c ∈ pending, c ∈ t.nodes) : ∀ c ∈ t.belowUnless stop d ++ pending, c ∈ t.nodes := by
  intro c hc
  rcases List.mem_append.mp hc with hc | hc
  · rw [belowUnless] at hc
    split at hc
    · exact absurd hc List.not_mem_nil
    · exact h.mem_of_mem_children hd hc
  · exact hmem c hc

theorem Linked.preorderUntil_mono (h : t.Linked) {stop' : Node → Bool}
    (hstop : ∀ a, stop' a = true → stop a = true) (hd : d ∈ t.nodes) :
    (t.preorderUntil stop d).Sublist (t.preorderUntil stop' d) := by
  refine h.induction_down (P := fun d =>
    (t.preorderUntil stop d).Sublist (t.preorderUntil stop' d)) ?_ d hd
  intro d hd ih
  rw [h.preorderUntil_eq stop hd, h.preorderUntil_eq stop' hd]
  refine List.Sublist.cons_cons d ?_
  by_cases hs : stop d = true
  · rw [if_pos hs]
    exact List.nil_sublist _
  · have hs' : ¬stop' d = true := fun hd' => hs (hstop d hd')
    rw [if_neg hs, if_neg hs']
    exact List.Sublist.flatMap_right _ ih

theorem Linked.preorderUntil_sublist (h : t.Linked) (stop : Node → Bool) (hd : d ∈ t.nodes) :
    (t.preorderUntil stop d).Sublist (t.preorder d) :=
  h.preorderUntil_mono (fun _ hs => absurd hs Bool.false_ne_true) hd

theorem Linked.agenda_mono (h : t.Linked) {stop' : Node → Bool}
    (hstop : ∀ a, stop' a = true → stop a = true) {pending : List Node}
    (hmem : ∀ c ∈ pending, c ∈ t.nodes) :
    (t.agenda stop pending).Sublist (t.agenda stop' pending) :=
  List.Sublist.flatMap_right _ fun c hc => h.preorderUntil_mono hstop (hmem c hc)

theorem length_le_size {l : List Node} (hnodup : l.Nodup) (hmem : ∀ d ∈ l, d ∈ t.nodes) :
    l.length ≤ t.size := by
  have := (List.subperm_of_subset hnodup fun d hd => Array.mem_toList_iff.mpr (hmem d hd)).length_le
  rwa [Array.length_toList] at this

theorem Linked.length_preorder_le (h : t.Linked) (hd : d ∈ t.nodes) :
    (t.preorder d).length ≤ t.size :=
  length_le_size (h.preorder_nodup hd) fun _ hx => ((h.mem_preorder_iff hd).mp hx).1

/-- **What a loop over the children of a node does not miss.** It comes to every node below, unless
a stop hides it. -/
theorem Linked.mem_agenda_children_of_shows (h : t.Linked) (hd : d ∈ t.nodes) (hx : x ∈ t.nodes)
    (hdx : d ∈ t.ancestors x) (hs : t.shows stop x = true) :
    x ∈ t.agenda stop (t.children d) := by
  have hbelow : x ∈ t.preorder d := (h.mem_preorder_iff hd).mpr ⟨hx, Or.inr hdx⟩
  rw [h.preorder_eq hd, List.mem_cons, List.mem_flatMap] at hbelow
  rcases hbelow with rfl | ⟨c, hc, hxc⟩
  · have := (h.ancestor_lt hx x hdx).2
    omega
  · have hcmem := h.mem_of_mem_children hd hc
    refine List.mem_flatMap.mpr ⟨c, hc, ?_⟩
    rw [h.preorderUntil_eq_filter hcmem (h.shows_of_mem_preorder hcmem hxc hs)]
    exact List.mem_filter.mpr ⟨hxc, hs⟩

theorem Linked.length_agenda_root_le (h : t.Linked) (stop : Node → Bool) :
    (t.agenda stop t.root?.toList).length ≤ t.size := by
  cases hr : t.root? with
  | none => simp [agenda]
  | some r =>
      have hmem := Linked.mem_of_root? hr
      have hlen := (h.preorderUntil_sublist stop hmem).length_le
      simpa [agenda] using Nat.le_trans hlen (h.length_preorder_le hmem)

theorem Linked.length_agenda_children_le (h : t.Linked) (stop : Node → Bool) (hd : d ∈ t.nodes) :
    (t.agenda stop (t.children d)).length ≤ t.size := by
  have hsub : (t.agenda stop (t.children d)).Sublist ((t.children d).flatMap t.preorder) :=
    List.Sublist.flatMap_right _ fun c hc =>
      h.preorderUntil_sublist stop (h.mem_of_mem_children hd hc)
  have hlen := h.length_preorder_le hd
  rw [h.preorder_eq hd, List.length_cons] at hlen
  have := hsub.length_le
  omega

/-! ## Below one node -/

variable {m : Node} {stop' : Node → Bool}

theorem Linked.unroll_eq (h : t.Linked) (steps : Nat) {pending : List Node}
    (hmem : ∀ d ∈ pending, d ∈ t.nodes)
    (hlen : (t.agenda (fun _ => false) pending).length ≤ steps) :
    t.unroll steps pending = t.agenda (fun _ => false) pending := by
  -- a step takes one node off the agenda, so the steps are enough
  induction steps generalizing pending with
  | zero => rw [unroll, List.length_eq_zero_iff.mp (Nat.le_zero.mp hlen)]
  | succ steps ih =>
      cases pending with
      | nil => rfl
      | cons d pending =>
          obtain ⟨hd, hpending⟩ := List.forall_mem_cons.mp hmem
          rw [h.agenda_cons _ hd] at hlen ⊢
          have hbelow : ∀ c ∈ t.belowUnless (fun _ => false) d ++ pending, c ∈ t.nodes :=
            h.belowUnless_append_mem hd hpending
          exact congrArg (d :: ·) (ih hbelow (Nat.le_of_succ_le_succ hlen))

theorem Linked.descendants_eq (h : t.Linked) (hd : d ∈ t.nodes) :
    t.descendants d = (t.children d).flatMap t.preorder :=
  h.unroll_eq t.size (fun _ hc => h.mem_of_mem_children hd hc) (h.length_agenda_children_le _ hd)

theorem Linked.preorder_eq_cons (h : t.Linked) (hd : d ∈ t.nodes) :
    t.preorder d = d :: t.descendants d := by
  rw [h.preorder_eq hd, h.descendants_eq hd]

theorem Linked.mem_descendants_iff (h : t.Linked) (hd : d ∈ t.nodes) :
    x ∈ t.descendants d ↔ x ∈ t.nodes ∧ d ∈ t.ancestors x := by
  have hself : d ∉ t.ancestors d := fun hdd => Nat.lt_irrefl _ (h.ancestor_lt hd d hdd).2
  have hiff := h.mem_preorder_iff (x := x) hd
  have hnodup := h.preorder_nodup hd
  rw [h.preorder_eq_cons hd] at hiff hnodup
  rw [List.mem_cons] at hiff
  constructor
  · intro hx
    obtain ⟨hmem, rfl | hdx⟩ := hiff.mp (Or.inr hx)
    · exact absurd hx (List.nodup_cons.mp hnodup).1
    · exact ⟨hmem, hdx⟩
  · rintro ⟨hmem, hdx⟩
    rcases hiff.mpr ⟨hmem, Or.inr hdx⟩ with rfl | hx
    · exact absurd hdx hself
    · exact hx

/-- What is below a node is below the ancestors of that node, too. -/
theorem Linked.descendants_subset (h : t.Linked) (hd : d ∈ t.nodes) (ha : a ∈ t.ancestors d) :
    t.descendants d ⊆ t.descendants a := by
  intro x hx
  have hamem := (h.ancestor_lt hd a ha).1
  obtain ⟨hxmem, hdx⟩ := (h.mem_descendants_iff hd).mp hx
  exact (h.mem_descendants_iff hamem).mpr ⟨hxmem, h.ancestors_trans hxmem hdx ha⟩

/-- The whole tree: the root, and then what is below it. -/
def documentOrder (t : Tree) : List Node := t.root?.toList.flatMap fun r => r :: t.descendants r

theorem Linked.documentOrder_eq (h : t.Linked) :
    t.documentOrder = t.root?.toList.flatMap t.preorder := by
  exact List.flatMap_congr fun r hr => (h.preorder_eq_cons (Linked.mem_of_mem_root? hr)).symm

/-- A pre-order depends on the stops in its subtree only. -/
theorem Linked.preorderUntil_congr (h : t.Linked) (hd : d ∈ t.nodes)
    (heq : ∀ x ∈ t.preorder d, stop x = stop' x) :
    t.preorderUntil stop d = t.preorderUntil stop' d := by
  revert heq
  refine h.induction_down (P := fun d => (∀ x ∈ t.preorder d, stop x = stop' x) →
    t.preorderUntil stop d = t.preorderUntil stop' d) ?_ d hd
  intro d hd ih heq
  rw [h.preorder_eq hd] at heq
  obtain ⟨hself, hbelow⟩ := List.forall_mem_cons.mp heq
  rw [h.preorderUntil_eq stop hd, h.preorderUntil_eq stop' hd, hself]
  congr 2
  refine List.flatMap_congr fun c hc => ih c hc fun x hx => ?_
  exact hbelow x (List.mem_flatMap.mpr ⟨c, hc, hx⟩)

/-- The path down from `m` to a node below it: that node, and its ancestors below `m`. -/
def path (t : Tree) (m d : Node) : List Node := (d :: t.ancestors d).filter (m ∈ t.ancestors ·)

theorem mem_path_iff :
    a ∈ t.path m d ↔ (a = d ∨ a ∈ t.ancestors d) ∧ m ∈ t.ancestors a := by
  rw [path, List.mem_filter, List.mem_cons, decide_eq_true_eq]

/-- **What a loop over the children of a node goes through.** Of the nodes below, it comes to those
with no stop on the path, in pre-order, and to the first stop on each path. -/
theorem Linked.agenda_children_eq_filter (h : t.Linked) (stop : Node → Bool) (hm : m ∈ t.nodes) :
    (t.agenda stop (t.children m)).filter (!stop ·) =
      (t.descendants m).filter fun d => (t.path m d).all (!stop ·) := by
  -- stops that are not below `m` play no part, so they may be left out
  let stopBelow : Node → Bool := fun a => stop a && decide (m ∈ t.ancestors a)
  have hbelow : ∀ c ∈ t.children m, ∀ x ∈ t.preorder c, m ∈ t.ancestors x := by
    intro c hc x hx
    apply ((h.mem_descendants_iff hm).mp _).2
    rw [h.descendants_eq hm]
    exact List.mem_flatMap.mpr ⟨c, hc, hx⟩
  have habove : ∀ a, a = m ∨ a ∈ t.ancestors m → m ∉ t.ancestors a := by
    rintro a (rfl | ha) hma
    · exact Nat.lt_irrefl _ (h.ancestor_lt hm a hma).2
    · obtain ⟨hamem, hlt⟩ := h.ancestor_lt hm a ha
      exact Nat.lt_asymm hlt (h.ancestor_lt hamem m hma).2
  have hagenda : t.agenda stop (t.children m) =
      (t.descendants m).filter (t.shows stopBelow) := by
    rw [agenda, h.descendants_eq hm, List.filter_flatMap]
    refine List.flatMap_congr fun c hc => ?_
    have hcmem := h.mem_of_mem_children hm hc
    rw [← h.preorderUntil_eq_filter hcmem, h.preorderUntil_congr hcmem]
    · intro x hx
      simp [stopBelow, hbelow c hc x hx]
    · rw [shows_iff]
      intro a ha
      simp [stopBelow, habove a ((h.mem_ancestors_child hm hc).mp ha)]
  rw [hagenda, List.filter_filter]
  refine List.filter_congr fun d hd => ?_
  have hmd := ((h.mem_descendants_iff hm).mp hd).2
  rw [Bool.eq_iff_iff, Bool.and_eq_true, shows_iff, List.all_eq_true]
  constructor
  · rintro ⟨hopen, hshows⟩ a ha
    obtain ⟨rfl | had, hma⟩ := mem_path_iff.mp ha
    · exact hopen
    · simpa [stopBelow, hma] using hshows a had
  · intro hpath
    refine ⟨hpath d (mem_path_iff.mpr ⟨Or.inl rfl, hmd⟩), ?_⟩
    intro a had
    by_cases hma : m ∈ t.ancestors a
    · simpa [stopBelow, hma] using hpath a (mem_path_iff.mpr ⟨Or.inr had, hma⟩)
    · simp [stopBelow, hma]

end Tree

end CodeNav
