import CodeNav.Fault

/-!
# Syntax trees

A tree is an arena of nodes. Each node names its parent and its children, so that both directions
are one look-up; growth by `addRoot` and `addChild` keeps the two in step, and it alone makes trees
that are not empty.

Document order is read from a list of nodes that are still to come: the first of them is next, and
its children go in front of the rest.
-/

namespace CodeNav

/-! ## Nodes and look-up -/

/-- A node of a tree. Names and some declarations carry identifier text. -/
structure Node where
  id : NodeId
  kind : Kind
  parent : Option NodeId
  children : List NodeId
  name : Option String
  span : Span
deriving DecidableEq

structure Tree where
  nodes : Array Node
deriving DecidableEq

namespace Tree

def empty : Tree := ⟨#[]⟩

def size (t : Tree) : Nat := t.nodes.size

def get? (t : Tree) (n : NodeId) : Option Node := t.nodes[n.toNat]?

/-- The node of a given id, which is expected to be in the tree. -/
def node (t : Tree) (n : NodeId) : Except Fault Node :=
  match t.get? n with
  | some d => .ok d
  | none => .error (.unknownNode n)

/-- The first node, from which every other one hangs. -/
def root? (t : Tree) : Option Node := t.nodes[0]?

def parent? (t : Tree) (d : Node) : Option Node := d.parent.bind t.get?

def parentKind? (t : Tree) (d : Node) : Option Kind := (t.parent? d).map (·.kind)

def children (t : Tree) (d : Node) : List Node := d.children.filterMap t.get?

def firstChild? (t : Tree) (d : Node) (k : Kind) : Option Node :=
  (t.children d).find? (·.kind = k)

/-! ## Document order -/

/-- The nodes to come, in document order, where `pending` are the topmost of them. A step visits
one node, so the size of the tree bounds the number of steps. -/
def unroll (t : Tree) : Nat → List Node → List Node
  | 0, _ => []
  | _ + 1, [] => []
  | steps + 1, d :: pending => d :: t.unroll steps (t.children d ++ pending)

/-- The nodes below a node, in document order. -/
def descendants (t : Tree) (d : Node) : List Node := t.unroll t.size (t.children d)

/-! ## Growth -/

inductive Growth where
  | root (kind : Kind) (span : Span)
  | child (parent : NodeId) (kind : Kind) (name : Option String) (span : Span)
deriving DecidableEq

/-- Appends a node to the arena; ids may have run out. -/
def push (t : Tree) (kind : Kind) (parent : Option NodeId) (name : Option String) (span : Span) :
    Except Fault (NodeId × Tree) :=
  if t.size < idSpace then
    let id := NodeId.ofNat t.size
    .ok (id, ⟨t.nodes.push ⟨id, kind, parent, [], name, span⟩⟩)
  else .error .idsExhausted

def adopt (t : Tree) (parent child : NodeId) : Tree :=
  ⟨t.nodes.modify parent.toNat fun d => { d with children := d.children ++ [child] }⟩

def addRoot (t : Tree) (kind : Kind) (span : Span) : Except Fault (NodeId × Tree) :=
  if t.size = 0 then t.push kind none none span else .error .secondRoot

def addChild (t : Tree) (parent : NodeId) (kind : Kind) (name : Option String) (span : Span) :
    Except Fault (NodeId × Tree) :=
  match t.push kind (some parent) name span with
  | .error e => .error e
  | .ok (id, u) =>
    if parent.toNat < t.size then .ok (id, u.adopt parent id) else .error (.unknownNode parent)

def grow (t : Tree) : Growth → Except Fault (NodeId × Tree)
  | .root kind span => t.addRoot kind span
  | .child parent kind name span => t.addChild parent kind name span

/-- Takes a step of growth; one that fails leaves the tree as it was. -/
def attempt (t : Tree) (g : Growth) : Tree :=
  match t.grow g with
  | .ok (_, u) => u
  | .error _ => t

/-- A tree that growth makes out of the empty one. -/
def Grown (t : Tree) : Prop := ∃ steps : List Growth, t = steps.foldl attempt empty

theorem grown_empty : empty.Grown := ⟨[], rfl⟩

theorem Grown.attempt {t : Tree} (h : t.Grown) (g : Growth) : (t.attempt g).Grown := by
  obtain ⟨steps, rfl⟩ := h
  exact ⟨steps ++ [g], by simp⟩

theorem Grown.of_grow {t u : Tree} {g : Growth} {n : NodeId} (h : t.Grown)
    (hg : t.grow g = .ok (n, u)) : u.Grown := by
  have : t.attempt g = u := by simp [Tree.attempt, hg]
  exact this ▸ h.attempt g

end Tree

end CodeNav
