import CodeNav.Proofs.Syntax.Preorder
import Mathlib.Logic.Function.Iterate

/-!
# Growth makes trees

Whatever steps of growth are attempted, in whatever order, a tree is what there is afterwards: ids
are positions, the children of a node are the nodes that hang from it, and every chain of parents
ends at the first node. A step that fails has one of three reasons (`refusal?`) and changes nothing;
a step that succeeds adds one node at the end and one place in one row. `grown_is_tree` says all of
this.

`growInPlace` is a step of growth by assignments to one tree. It takes the place in the parent's row
before the node is there, and what a failure leaves behind is seen in it. It comes to the same as
`attempt`.
-/

namespace CodeNav

namespace Tree

variable {t u : Tree} {d : Node} {g : Growth} {n : NodeId} {e : Fault}

/-! ## Steps of growth -/

namespace Growth

/-- The node that the new one is to hang from. -/
def parent? : Growth → Option NodeId
  | root _ _ => none
  | child parent _ _ _ => some parent

def node (n : NodeId) : Growth → Node
  | root kind span => ⟨n, kind, none, [], none, span⟩
  | child parent kind name span => ⟨n, kind, some parent, [], name, span⟩

end Growth

/-- Why a step of growth fails, if it does. -/
def refusal? (t : Tree) : Growth → Option Fault
  | .root _ _ => if t.size = 0 then none else some .secondRoot
  | .child parent _ _ _ =>
      if idSpace ≤ t.size then some .idsExhausted
      else if t.size ≤ parent.toNat then some (.unknownNode parent)
      else none

theorem grow_eq_error_iff : t.grow g = .error e ↔ t.refusal? g = some e := by
  cases g with
  | root kind span =>
      have hspace : 0 < idSpace := by decide
      by_cases h0 : t.size = 0
      · simp [grow, addRoot, push, refusal?, h0, hspace]
      · simp [grow, addRoot, refusal?, h0]
  | child p kind name span =>
      rw [grow, addChild, push, refusal?]
      by_cases hlt : t.size < idSpace
      · by_cases hp : p.toNat < t.size
        · simp [hlt, hp, Nat.not_le_of_lt]
        · simp [hlt, hp, Nat.not_le_of_lt, Nat.le_of_not_lt]
      · simp [hlt, Nat.le_of_not_lt]

/-! ## In place -/

/-- Appends a node, after it was given its place in the row of its parent. -/
def pushInPlace (parent : Option NodeId) (kind : Kind) (name : Option String) (span : Span) :
    EStateM Fault Tree NodeId := do
  let id := NodeId.ofNat (← get).size
  unless (← get).size < idSpace do throw .idsExhausted
  if let some p := parent then
    unless p.toNat < (← get).size do throw (.unknownNode p)
    modify (·.adopt p id)
  modify fun t => ⟨t.nodes.push ⟨id, kind, parent, [], name, span⟩⟩
  return id

/-- A step of growth by assignments to one tree. -/
def growInPlace : Growth → EStateM Fault Tree NodeId
  | .root kind span => do
      unless (← get).size = 0 do throw .secondRoot
      pushInPlace none kind none span
  | .child parent kind name span => pushInPlace (some parent) kind name span

/-- Appending and adopting do not get in each other's way. -/
theorem push_adopt {p : NodeId} (hp : p.toNat < t.size) (x : Node) (c : NodeId) :
    (⟨(t.adopt p c).nodes.push x⟩ : Tree) = adopt ⟨t.nodes.push x⟩ p c := by
  change p.toNat < t.nodes.size at hp
  simp only [adopt, mk.injEq]
  apply Array.ext_getElem?
  intro i
  simp only [Array.getElem?_push, Array.getElem?_modify, Array.size_modify]
  split
  · rename_i hi
    rw [if_neg (by omega)]
  · rfl

theorem run_pushInPlace (t : Tree) (parent : Option NodeId) (kind : Kind) (name : Option String)
    (span : Span) :
    (pushInPlace parent kind name span).run t =
      if t.size < idSpace then
        let n := NodeId.ofNat t.size
        match parent with
        | none => .ok n ⟨t.nodes.push ⟨n, kind, none, [], name, span⟩⟩
        | some p =>
            if p.toNat < t.size then
              .ok n ⟨(t.adopt p n).nodes.push ⟨n, kind, some p, [], name, span⟩⟩
            else .error (.unknownNode p) t
      else .error .idsExhausted t := by
  by_cases hlt : t.size < idSpace
  · cases parent with
    | none => simp [pushInPlace, hlt, -bind_pure_comp]
    | some p =>
        by_cases hp : p.toNat < t.size
        · simp [pushInPlace, hlt, hp, -bind_pure_comp]
        · simp [pushInPlace, hlt, hp, -bind_pure_comp]
  · simp [pushInPlace, hlt]

theorem growInPlace_eq (t : Tree) (g : Growth) :
    (growInPlace g).run t =
      match t.grow g with
      | .ok (n, u) => .ok n u
      | .error e => .error e t := by
  cases g with
  | root kind span =>
      have hspace : 0 < idSpace := by decide
      by_cases h0 : t.size = 0
      · simp [growInPlace, h0, run_pushInPlace, grow, addRoot, push, hspace]
      · simp [growInPlace, h0, grow, addRoot]
  | child p kind name span =>
      rw [growInPlace, run_pushInPlace, grow, addChild, push]
      by_cases hlt : t.size < idSpace
      · by_cases hp : p.toNat < t.size
        · simp [hlt, hp, push_adopt]
        · simp [hlt, hp]
      · simp [hlt]

/-! ## What a step adds -/

/-- A step that succeeds adds its node at the end, and the place of that node to the row of its
parent; all else stays. -/
theorem Linked.of_grow (h : t.Linked) (hg : t.grow g = .ok (n, u)) :
    n.toNat = t.size ∧ u.size = t.size + 1 ∧ u.nodes[t.size]? = some (g.node n) ∧
      ∀ (i : Nat) (d : Node), t.nodes[i]? = some d →
        u.nodes[i]? = some
          { d with children := if g.parent? = some d.id then d.children ++ [n] else d.children } := by
  obtain ⟨hlt, rfl, ⟨kind, span, rfl, h0, rfl⟩ | ⟨p, kind, name, span, rfl, hp, rfl⟩⟩ := grow_cases hg
  · refine ⟨NodeId.toNat_ofNat hlt, by simp [size], by simp [size, Growth.node], ?_⟩
    intro i d hd
    obtain ⟨hi, -⟩ := Array.getElem?_eq_some_iff.mp hd
    exact absurd hi (by rw [show t.nodes.size = 0 from h0]; exact Nat.not_lt_zero i)
  · refine ⟨NodeId.toNat_ofNat hlt, by simp [size, adopt], ?_, ?_⟩
    · rw [getElem?_adopt, if_neg (Nat.ne_of_lt hp)]
      simp [size, Growth.node]
    · intro i d hd
      have hi : i < t.nodes.size := (Array.getElem?_eq_some_iff.mp hd).1
      have hid : p.toNat = i ↔ some p = some d.id := by
        rw [← h.toNat_id hd, NodeId.toNat_inj, Option.some_inj]
      rw [getElem?_adopt, Array.getElem?_push, if_neg (Nat.ne_of_lt hi), hd, Growth.parent?]
      by_cases hp : p.toNat = i
      · rw [if_pos hp, if_pos (hid.mp hp), Option.map_some]
      · rw [if_neg hp, if_neg (hid.not.mp hp)]

/-! ## The shape of a tree -/

theorem Linked.ids_eq_range (h : t.Linked) :
    t.nodes.toList.map (·.id.toNat) = List.range t.size := by
  apply List.ext_getElem
  · simp [size]
  · intro i hi _
    simp only [List.getElem_map, Array.getElem_toList, List.getElem_range]
    exact h.toNat_id (Array.getElem?_eq_getElem _)

theorem Linked.mem_row_iff (h : t.Linked) {c : NodeId} (hd : d ∈ t.nodes) :
    c ∈ d.children ↔ ∃ e ∈ t.nodes, e.id = c ∧ e.parent = some d.id := by
  rw [h.children_eq hd, row, links]
  simp [and_comm]

theorem Linked.nodes_sorted (h : t.Linked) :
    t.nodes.toList.Pairwise (·.id.toNat < ·.id.toNat) := by
  rw [← List.pairwise_map (f := fun d : Node => d.id.toNat) (R := (· < ·)), h.ids_eq_range]
  exact List.pairwise_lt_range

theorem Linked.row_sorted (h : t.Linked) (hd : d ∈ t.nodes) :
    d.children.Pairwise (·.toNat < ·.toNat) := by
  rw [h.children_eq hd, row, List.pairwise_map]
  apply List.Pairwise.filter
  rw [links, List.pairwise_map]
  exact h.nodes_sorted

theorem Linked.children_sorted (h : t.Linked) (hd : d ∈ t.nodes) :
    (t.children d).Pairwise (·.id.toNat < ·.id.toNat) := by
  rw [h.children_eq_filter hd]
  exact h.nodes_sorted.filter _

theorem Linked.exists_iterate_parent? (h : t.Linked) (hd : d ∈ t.nodes) :
    ∃ r, t.root? = some r ∧ ∃ k, (fun x => x.bind t.parent?)^[k] (some d) = some r := by
  refine h.induction_up (P := fun d => ∃ r, t.root? = some r ∧
    ∃ k, (fun x => x.bind t.parent?)^[k] (some d) = some r) ?_ d hd
  intro d hd ih
  cases hp : t.parent? d with
  | none => exact ⟨d, (h.parent?_eq_none_iff hd).mp hp, 0, rfl⟩
  | some p =>
      obtain ⟨r, hr, k, hk⟩ := ih p hp
      refine ⟨r, hr, k + 1, ?_⟩
      rw [Function.iterate_succ_apply, Option.bind_some, hp]
      exact hk

theorem Linked.node_cases (h : t.Linked) (n : NodeId) :
    (n.toNat < t.size ∧ ∃ d, t.node n = .ok d ∧ d.id = n) ∨
      t.size ≤ n.toNat ∧ t.node n = .error (.unknownNode n) := by
  cases hn : t.get? n with
  | none => exact Or.inr ⟨Array.getElem?_eq_none_iff.mp hn, by rw [node, hn]⟩
  | some d =>
      obtain ⟨hd, rfl⟩ := h.get?_eq_some_iff.mp hn
      exact Or.inl ⟨h.toNat_lt_size hd, d, by rw [node, hn], rfl⟩

/-! ## The theorem -/

/-- **Growth makes trees, and nothing else.** After any steps of growth, whether they succeeded or
not: the ids are the positions, and exactly those are found; the first node and no other one lacks a
parent, every other parent is an earlier node, and every chain of parents ends at the first node;
and the children of a node are the nodes that hang from it, once each and in order of id. A further
step that fails does so for one of the three reasons and leaves the tree as it was. One that
succeeds adds a single node, under the next id, and lengthens the row of its parent by that id. -/
theorem grown_is_tree (h : t.Grown) :
    (∀ n, (n.toNat < t.size ∧ ∃ d, t.node n = .ok d ∧ d.id = n) ∨
      t.size ≤ n.toNat ∧ t.node n = .error (.unknownNode n)) ∧
    t.nodes.toList.map (·.id.toNat) = List.range t.size ∧
    (∀ d ∈ t.nodes, (d.parent = none ↔ d.id.toNat = 0) ∧
      (∀ p, d.parent = some p → p.toNat < d.id.toNat) ∧
      ∃ r, t.root? = some r ∧ ∃ k, (fun x => x.bind t.parent?)^[k] (some d) = some r) ∧
    (∀ d ∈ t.nodes, (∀ c, c ∈ d.children ↔ ∃ e ∈ t.nodes, e.id = c ∧ e.parent = some d.id) ∧
      d.children.Pairwise (·.toNat < ·.toNat)) ∧
    ∀ g,
      (∀ e u, (growInPlace g).run t = .error e u →
        t.refusal? g = some e ∧ u = t ∧ t.attempt g = t) ∧
      ∀ n u, (growInPlace g).run t = .ok n u →
        t.refusal? g = none ∧ t.attempt g = u ∧ n.toNat = t.size ∧ u.size = t.size + 1 ∧
        u.nodes[t.size]? = some (g.node n) ∧
        ∀ (i : Nat) (d : Node), t.nodes[i]? = some d →
          u.nodes[i]? = some
            { d with children := if g.parent? = some d.id then d.children ++ [n] else d.children } := by
  have hl := h.linked
  refine ⟨hl.node_cases, hl.ids_eq_range, ?_, ?_, ?_⟩
  · intro d hd
    exact ⟨hl.parent_eq_none hd, fun p hp => hl.parent_lt hd hp, hl.exists_iterate_parent? hd⟩
  · intro d hd
    exact ⟨fun c => hl.mem_row_iff hd, hl.row_sorted hd⟩
  · intro g
    have hattempt : t.attempt g = match t.grow g with
        | .ok (_, u) => u
        | .error _ => t := rfl
    rw [growInPlace_eq, hattempt]
    rcases hg : t.grow g with e | ⟨n, u⟩
    · constructor
      · intro e' u hrun
        cases hrun
        exact ⟨grow_eq_error_iff.mp hg, rfl, rfl⟩
      · intro n u hrun
        cases hrun
    · constructor
      · intro e u' hrun
        cases hrun
      intro n' u' hrun
      cases hrun
      refine ⟨?_, rfl, hl.of_grow hg⟩
      cases hr : t.refusal? g with
      | none => rfl
      | some e =>
          rw [grow_eq_error_iff.mpr hr] at hg
          cases hg

/-! ## A small tree -/

/-- Steps of growth, of which the first, the third and the fifth fail. -/
def saplingSteps : List Growth :=
  let range : Span := ⟨1, 1, 1, 2⟩
  [.child ⟨0⟩ .block none range,
   .root .compilationUnit range,
   .root .compilationUnit range,
   .child ⟨0⟩ .typeDecl (some "A") range,
   .child ⟨2⟩ .block none range,
   .child ⟨0⟩ .typeDecl (some "B") range,
   .child ⟨1⟩ .simpleName (some "A") range,
   .child ⟨1⟩ .methodDecl (some "m") range,
   .child ⟨4⟩ .block none range]

def sapling : Tree := saplingSteps.foldl attempt empty

theorem sapling_grown : sapling.Grown := ⟨saplingSteps, rfl⟩

/-- Six of the nine steps have added a node. Two nodes hang from the second one. A node cannot be
hung from itself: that step fails, in place, and leaves the small tree as it was. -/
theorem sapling_is_tree :
    sapling.size = 6 ∧
    sapling.nodes.toList.map (·.id.toNat) = List.range sapling.size ∧
    (∀ c, c ∈ [(⟨3⟩ : NodeId), ⟨4⟩] ↔ ∃ e ∈ sapling.nodes, e.id = c ∧ e.parent = some ⟨1⟩) ∧
    ∃ u, (growInPlace (.child ⟨6⟩ .block none ⟨1, 1, 1, 2⟩)).run sapling =
        .error (.unknownNode ⟨6⟩) u ∧ u = sapling := by
  obtain ⟨-, hids, -, hrows, hstep⟩ := grown_is_tree sapling_grown
  have hmem : (⟨⟨1⟩, .typeDecl, some ⟨0⟩, [⟨3⟩, ⟨4⟩], some "A", ⟨1, 1, 1, 2⟩⟩ : Node) ∈
      sapling.nodes :=
    Array.mem_of_getElem? (i := 1) (by rfl)
  refine ⟨by decide, hids, (hrows _ hmem).1, ?_⟩
  refine ⟨_, rfl, ?_⟩
  exact ((hstep (.child ⟨6⟩ .block none ⟨1, 1, 1, 2⟩)).1 _ _ rfl).2.1

end Tree

end CodeNav
