import CodeNav.Syntax.Tree
import Mathlib.Data.List.Induction
import Mathlib.Data.List.Nodup

/-!
# Trees whose two directions agree

Growth keeps parents and children in step. `Linked` says what that comes to: ids are positions,
every node but the first hangs from an earlier one, and the children of a node are the nodes that
hang from it, in order of id. `Grown.linked` establishes it for every grown tree, and the rest of the
module reads look-ups in both directions off it.
-/

namespace CodeNav

namespace Tree

/-! ## The invariant -/

/-- Each node with the node that it hangs from, in order of id. -/
def links (t : Tree) : List (NodeId × Option NodeId) :=
  t.nodes.toList.map fun d => (d.id, d.parent)

/-- The nodes that hang from `n`, in order of id. -/
def row (t : Tree) (n : NodeId) : List NodeId :=
  (t.links.filter (·.2 = some n)).map (·.1)

/-- The two directions of a tree agree, and no node hangs from a later one. -/
structure Linked (t : Tree) : Prop where
  size_le : t.size ≤ idSpace
  toNat_id : ∀ {i : Nat} {d : Node}, t.nodes[i]? = some d → d.id.toNat = i
  parent_eq_none : ∀ {d : Node}, d ∈ t.nodes → (d.parent = none ↔ d.id.toNat = 0)
  parent_lt : ∀ {d : Node} {p : NodeId}, d ∈ t.nodes → d.parent = some p → p.toNat < d.id.toNat
  children_eq : ∀ {d : Node}, d ∈ t.nodes → d.children = t.row d.id

/-! ## Growth keeps it -/

theorem linked_empty : empty.Linked where
  size_le := Nat.zero_le _
  toNat_id h := by simp [empty] at h
  parent_eq_none h := by simp [empty] at h
  parent_lt h := by simp [empty] at h
  children_eq h := by simp [empty] at h

theorem links_push (t : Tree) (d : Node) :
    links ⟨t.nodes.push d⟩ = t.links ++ [(d.id, d.parent)] := by
  simp [links]

/-- A new node has its place in the row of its parent only. -/
theorem row_push (t : Tree) (d : Node) (n : NodeId) :
    row ⟨t.nodes.push d⟩ n = t.row n ++ if d.parent = some n then [d.id] else [] := by
  rw [row, links_push, List.filter_append, List.map_append, ← row]
  by_cases h : d.parent = some n <;> simp [h]

theorem getElem?_adopt (t : Tree) (p c : NodeId) (i : Nat) :
    (t.adopt p c).nodes[i]? =
      if p.toNat = i then t.nodes[i]?.map fun d => { d with children := d.children ++ [c] }
      else t.nodes[i]? :=
  Array.getElem?_modify

/-- Adoption changes the children of one node and no link to a parent. -/
theorem links_adopt (t : Tree) (p c : NodeId) : (t.adopt p c).links = t.links := by
  apply List.ext_getElem?
  intro i
  simp only [links, List.getElem?_map, Array.getElem?_toList, getElem?_adopt]
  split
  · cases t.nodes[i]? <;> rfl
  · rfl

theorem row_adopt (t : Tree) (p c n : NodeId) : (t.adopt p c).row n = t.row n := by
  rw [row, links_adopt, row]

/-- What a step of growth can do: it gives the empty tree a root, or it hangs a node from one that
is there. -/
theorem grow_cases {t u : Tree} {g : Growth} {n : NodeId} (h : t.grow g = .ok (n, u)) :
    t.size < idSpace ∧ n = NodeId.ofNat t.size ∧
      ((∃ kind span, g = .root kind span ∧ t.size = 0 ∧
          u = ⟨t.nodes.push ⟨n, kind, none, [], none, span⟩⟩) ∨
        ∃ p kind name span, g = .child p kind name span ∧ p.toNat < t.size ∧
          u = adopt ⟨t.nodes.push ⟨n, kind, some p, [], name, span⟩⟩ p n) := by
  cases g with
  | root kind span =>
      rw [grow, addRoot] at h
      split at h
      · rename_i h0
        rw [push] at h
        split at h
        · rename_i hlt
          cases h
          exact ⟨hlt, rfl, Or.inl ⟨kind, span, rfl, h0, rfl⟩⟩
        · cases h
      · cases h
  | child p kind name span =>
      rw [grow, addChild, push] at h
      split at h
      · cases h
      · rename_i id v hpush
        split at hpush
        · rename_i hlt
          cases hpush
          split at h
          · rename_i hp
            cases h
            exact ⟨hlt, rfl, Or.inr ⟨p, kind, name, span, rfl, hp, rfl⟩⟩
          · cases h
        · cases hpush

theorem Linked.toNat_lt_size {t : Tree} (h : t.Linked) {d : Node} (hd : d ∈ t.nodes) :
    d.id.toNat < t.size := by
  obtain ⟨i, hi, rfl⟩ := Array.mem_iff_getElem.mp hd
  rw [h.toNat_id (Array.getElem?_eq_getElem hi)]
  exact hi

theorem Linked.row_eq_nil {t : Tree} (h : t.Linked) {n : NodeId} (hn : t.size ≤ n.toNat) :
    t.row n = [] := by
  rw [row, List.map_eq_nil_iff, List.filter_eq_nil_iff]
  intro l hl
  obtain ⟨d, hd, rfl⟩ := List.mem_map.mp hl
  have hd' : d ∈ t.nodes := Array.mem_toList_iff.mp hd
  simp only [decide_eq_true_eq]
  intro hp
  have h1 := h.parent_lt hd' hp
  have h2 := h.toNat_lt_size hd'
  omega

theorem linked_root {t : Tree} (h0 : t.size = 0) (kind : Kind) (span : Span) :
    Linked ⟨t.nodes.push ⟨NodeId.ofNat t.size, kind, none, [], none, span⟩⟩ := by
  have hempty : t.nodes = #[] := Array.eq_empty_of_size_eq_zero h0
  have hnodes : ∀ {i : Nat} {d : Node},
      (t.nodes.push ⟨NodeId.ofNat t.size, kind, none, [], none, span⟩)[i]? = some d →
        i = 0 ∧ d = ⟨NodeId.ofNat 0, kind, none, [], none, span⟩ := by
    intro i d hd
    rw [Array.getElem?_push, h0, show t.nodes.size = 0 from h0] at hd
    split at hd
    · exact ⟨‹_›, (Option.some.inj hd).symm⟩
    · simp [hempty] at hd
  have hmem : ∀ {d : Node}, d ∈ t.nodes.push ⟨NodeId.ofNat t.size, kind, none, [], none, span⟩ →
      d = ⟨NodeId.ofNat 0, kind, none, [], none, span⟩ := by
    intro d hd
    obtain ⟨i, hi⟩ := Array.getElem?_of_mem hd
    exact (hnodes hi).2
  refine ⟨?_, ?_, ?_, ?_, ?_⟩
  · have : (1 : Nat) ≤ idSpace := by decide
    simpa [size, hempty] using this
  · intro i d hd
    obtain ⟨rfl, rfl⟩ := hnodes hd
    rfl
  · intro d hd
    rw [hmem hd]
    exact ⟨fun _ => rfl, fun _ => rfl⟩
  · intro d p hd hp
    rw [hmem hd] at hp
    cases hp
  · intro d hd
    rw [hmem hd, row_push]
    simp [row, links, hempty]

/-- The nodes after a child was hung from `p`: the new one, and the old ones with `p` changed. -/
theorem getElem?_adopt_push {t : Tree} {p n : NodeId} {x e : Node} {i : Nat}
    (hp : p.toNat < t.size) (he : (adopt ⟨t.nodes.push x⟩ p n).nodes[i]? = some e) :
    (i = t.size ∧ e = x) ∨
      ∃ d, t.nodes[i]? = some d ∧
        e = { d with children := if p.toNat = i then d.children ++ [n] else d.children } := by
  simp only [getElem?_adopt, Array.getElem?_push] at he
  change p.toNat < t.nodes.size at hp
  by_cases hi : i = t.nodes.size
  · rw [if_pos hi, if_neg (by omega)] at he
    exact Or.inl ⟨hi, (Option.some.inj he).symm⟩
  · rw [if_neg hi] at he
    cases hd : t.nodes[i]? with
    | none => simp [hd] at he
    | some d =>
        rw [hd] at he
        refine Or.inr ⟨d, rfl, ?_⟩
        split at he
        · simpa [‹p.toNat = i›] using he.symm
        · simpa [‹¬p.toNat = i›] using he.symm

theorem Linked.adopt_push {t : Tree} (h : t.Linked) (hlt : t.size < idSpace) {p : NodeId}
    (hp : p.toNat < t.size) (kind : Kind) (name : Option String) (span : Span) :
    Linked (adopt ⟨t.nodes.push ⟨NodeId.ofNat t.size, kind, some p, [], name, span⟩⟩ p
      (NodeId.ofNat t.size)) := by
  have hid : (NodeId.ofNat t.size).toNat = t.size := NodeId.toNat_ofNat hlt
  have hnodes := fun {i : Nat} {e : Node} => getElem?_adopt_push (t := t) (p := p)
    (n := NodeId.ofNat t.size) (x := ⟨NodeId.ofNat t.size, kind, some p, [], name, span⟩)
    (e := e) (i := i) hp
  refine ⟨?_, ?_, ?_, ?_, ?_⟩
  · simpa [size, adopt] using Nat.succ_le_of_lt hlt
  · intro i e he
    rcases hnodes he with ⟨rfl, rfl⟩ | ⟨d, hd, rfl⟩
    · exact hid
    · exact h.toNat_id (d := d) hd
  · intro e he
    obtain ⟨i, hi⟩ := Array.getElem?_of_mem he
    rcases hnodes hi with ⟨rfl, rfl⟩ | ⟨d, hd, rfl⟩
    · simp only [hid]
      constructor
      · intro hc
        cases hc
      · omega
    · exact h.parent_eq_none (d := d) (Array.mem_of_getElem? hd)
  · intro e q he hq
    obtain ⟨i, hi⟩ := Array.getElem?_of_mem he
    rcases hnodes hi with ⟨rfl, rfl⟩ | ⟨d, hd, rfl⟩
    · cases hq
      rw [hid]
      exact hp
    · exact h.parent_lt (d := d) (Array.mem_of_getElem? hd) hq
  · intro e he
    obtain ⟨i, hi⟩ := Array.getElem?_of_mem he
    rw [row_adopt, row_push]
    rcases hnodes hi with ⟨rfl, rfl⟩ | ⟨d, hd, rfl⟩
    · -- nothing hangs from the new node, for its id was not in use
      have hne : p ≠ NodeId.ofNat t.size := fun heq => by rw [heq, hid] at hp; omega
      simp [h.row_eq_nil (Nat.le_of_eq hid.symm), hne]
    · -- the row of an old node grows if and only if the new one hangs from it
      have hrow := h.children_eq (Array.mem_of_getElem? hd)
      by_cases hpi : p.toNat = i
      · have hpd : p = d.id := NodeId.toNat_inj.mp (hpi.trans (h.toNat_id hd).symm)
        simp [hrow, hpd, h.toNat_id hd]
      · have hpd : p ≠ d.id := fun heq => hpi (heq ▸ h.toNat_id hd)
        simp [hpi, hrow, hpd]

theorem Linked.attempt {t : Tree} (h : t.Linked) (g : Growth) : (t.attempt g).Linked := by
  rw [Tree.attempt]
  split
  · rename_i n u hg
    obtain ⟨hlt, rfl, ⟨kind, span, -, h0, rfl⟩ | ⟨p, kind, name, span, -, hp, rfl⟩⟩ := grow_cases hg
    · exact linked_root h0 kind span
    · exact h.adopt_push hlt hp kind name span
  · exact h

/-- **Every grown tree is linked.** -/
theorem Grown.linked {t : Tree} (h : t.Grown) : t.Linked := by
  obtain ⟨steps, rfl⟩ := h
  induction steps using List.reverseRecOn with
  | nil => exact linked_empty
  | append_singleton steps g ih =>
      rw [List.foldl_append]
      exact ih.attempt g

/-! ## Look-ups -/

namespace Linked

variable {t : Tree} {c d e p r : Node} {n : NodeId}

theorem get?_eq_some_iff (h : t.Linked) : t.get? n = some d ↔ d ∈ t.nodes ∧ d.id = n := by
  constructor
  · intro hd
    exact ⟨Array.mem_of_getElem? hd, NodeId.toNat_inj.mp (h.toNat_id hd)⟩
  · rintro ⟨hd, rfl⟩
    obtain ⟨i, hi⟩ := Array.getElem?_of_mem hd
    rw [get?, h.toNat_id hi]
    exact hi

theorem get?_id (h : t.Linked) (hd : d ∈ t.nodes) : t.get? d.id = some d :=
  h.get?_eq_some_iff.mpr ⟨hd, rfl⟩

theorem eq_of_id_eq (h : t.Linked) (hd : d ∈ t.nodes) (he : e ∈ t.nodes) (hid : d.id = e.id) :
    d = e := by
  have := h.get?_id hd
  rw [hid, h.get?_id he] at this
  exact (Option.some.inj this).symm

theorem nodes_nodup (h : t.Linked) : t.nodes.toList.Nodup := by
  rw [List.nodup_iff_getElem?_ne_getElem?]
  intro i j hij hj heq
  rw [Array.length_toList] at hj
  simp only [Array.getElem?_toList] at heq
  have hi := h.toNat_id (Array.getElem?_eq_getElem (Nat.lt_trans hij hj))
  rw [Array.getElem?_eq_getElem (Nat.lt_trans hij hj)] at heq
  have := h.toNat_id heq.symm
  omega

theorem children_eq_filter (h : t.Linked) (hd : d ∈ t.nodes) :
    t.children d = t.nodes.toList.filter (·.parent = some d.id) := by
  have hrow : t.row d.id = (t.nodes.toList.filter (·.parent = some d.id)).map (·.id) := by
    simp [row, links, List.filter_map, Function.comp_def]
  rw [children, h.children_eq hd, hrow, List.filterMap_map]
  refine (List.filterMap_congr ?_).trans List.filterMap_some
  intro c hc
  exact h.get?_id (Array.mem_toList_iff.mp (List.mem_filter.mp hc).1)

theorem children_nodup (h : t.Linked) (hd : d ∈ t.nodes) : (t.children d).Nodup := by
  rw [h.children_eq_filter hd]
  exact h.nodes_nodup.filter _

theorem mem_children_iff (h : t.Linked) (hd : d ∈ t.nodes) :
    c ∈ t.children d ↔ c ∈ t.nodes ∧ c.parent = some d.id := by
  rw [h.children_eq_filter hd]
  simp

theorem mem_of_mem_children (h : t.Linked) (hd : d ∈ t.nodes) (hc : c ∈ t.children d) :
    c ∈ t.nodes :=
  ((h.mem_children_iff hd).mp hc).1

theorem parent?_eq_some_iff (h : t.Linked) :
    t.parent? d = some p ↔ p ∈ t.nodes ∧ d.parent = some p.id := by
  rw [parent?, Option.bind_eq_some_iff]
  constructor
  · rintro ⟨n, hn, hp⟩
    obtain ⟨hmem, rfl⟩ := h.get?_eq_some_iff.mp hp
    exact ⟨hmem, hn⟩
  · rintro ⟨hp, hd⟩
    exact ⟨p.id, hd, h.get?_id hp⟩

theorem parent?_of_mem_children (h : t.Linked) (hd : d ∈ t.nodes) (hc : c ∈ t.children d) :
    t.parent? c = some d :=
  h.parent?_eq_some_iff.mpr ⟨hd, ((h.mem_children_iff hd).mp hc).2⟩

theorem mem_children_of_parent? (h : t.Linked) (hc : c ∈ t.nodes) (hp : t.parent? c = some d) :
    c ∈ t.children d := by
  obtain ⟨hd, hcd⟩ := h.parent?_eq_some_iff.mp hp
  exact (h.mem_children_iff hd).mpr ⟨hc, hcd⟩

theorem id_lt_of_parent? (h : t.Linked) (hc : c ∈ t.nodes) (hp : t.parent? c = some d) :
    d.id.toNat < c.id.toNat :=
  h.parent_lt hc (h.parent?_eq_some_iff.mp hp).2

theorem mem_of_root? (hr : t.root? = some r) : r ∈ t.nodes :=
  Array.mem_of_getElem? hr

theorem mem_of_mem_root? (hr : r ∈ t.root?.toList) : r ∈ t.nodes :=
  mem_of_root? (Option.mem_toList.mp hr)

theorem parent?_root (h : t.Linked) (hr : t.root? = some r) : t.parent? r = none := by
  have hnone := (h.parent_eq_none (mem_of_root? hr)).mpr (h.toNat_id hr)
  rw [parent?, hnone, Option.bind_none]

theorem parent?_eq_none_iff (h : t.Linked) (hd : d ∈ t.nodes) :
    t.parent? d = none ↔ t.root? = some d := by
  constructor
  · intro hnone
    have hparent : d.parent = none := by
      cases hp : d.parent with
      | none => rfl
      | some p =>
          -- a parent comes before the node, so it is in the tree
          have hlt := Nat.lt_trans (h.parent_lt hd hp) (h.toNat_lt_size hd)
          have hget : t.get? p = some t.nodes[p.toNat] := Array.getElem?_eq_getElem hlt
          rw [parent?, hp, Option.bind_some, hget] at hnone
          cases hnone
    have hget := h.get?_id hd
    rwa [get?, (h.parent_eq_none hd).mp hparent] at hget
  · exact h.parent?_root

end Linked

end Tree

end CodeNav
