/-!
# Ids and source ranges

Nodes of a syntax tree and symbols of a symbol table are named by their position, in two types so
that one is never taken for the other. A source range has one-based lines and columns, and its end
column is exclusive.
-/

namespace CodeNav

/-! ## Ids -/

/-- A node of a tree, by the order in which the nodes were added. -/
structure NodeId where
  index : UInt32
deriving DecidableEq

/-- A symbol of a table, by the order in which the symbols were defined. -/
structure SymbolId where
  index : UInt32
deriving DecidableEq

def NodeId.toNat (n : NodeId) : Nat := n.index.toNat

def SymbolId.toNat (s : SymbolId) : Nat := s.index.toNat

/-- The node at position `k`, for a `k` that fits the id. -/
def NodeId.ofNat (k : Nat) : NodeId := ⟨UInt32.ofNat k⟩

def SymbolId.ofNat (k : Nat) : SymbolId := ⟨UInt32.ofNat k⟩

/-- The number of different ids: there is none for a position from here on. -/
def idSpace : Nat := UInt32.size

theorem NodeId.toNat_lt (n : NodeId) : n.toNat < idSpace := n.index.toNat_lt

theorem NodeId.toNat_ofNat {k : Nat} (h : k < idSpace) : (NodeId.ofNat k).toNat = k :=
  UInt32.toNat_ofNat_of_lt h

theorem NodeId.toNat_inj {m n : NodeId} : m.toNat = n.toNat ↔ m = n := by
  cases m; cases n; simp [NodeId.toNat, UInt32.toNat_inj]

@[simp] theorem NodeId.ofNat_toNat (n : NodeId) : NodeId.ofNat n.toNat = n :=
  NodeId.toNat_inj.1 (NodeId.toNat_ofNat n.toNat_lt)

theorem SymbolId.toNat_lt (s : SymbolId) : s.toNat < idSpace := s.index.toNat_lt

theorem SymbolId.toNat_ofNat {k : Nat} (h : k < idSpace) : (SymbolId.ofNat k).toNat = k :=
  UInt32.toNat_ofNat_of_lt h

theorem SymbolId.toNat_inj {s t : SymbolId} : s.toNat = t.toNat ↔ s = t := by
  cases s; cases t; simp [SymbolId.toNat, UInt32.toNat_inj]

@[simp] theorem SymbolId.ofNat_toNat (s : SymbolId) : SymbolId.ofNat s.toNat = s :=
  SymbolId.toNat_inj.1 (SymbolId.toNat_ofNat s.toNat_lt)

/-- Nodes are written `#7`. -/
instance : ToString NodeId := ⟨fun n => s!"#{n.toNat}"⟩

/-- Symbols are written `$7`. -/
instance : ToString SymbolId := ⟨fun s => s!"${s.toNat}"⟩

/-! ## Ranges -/

/-- A source range. The order of its ends is checked by `Span.ofEnds?` alone: a range that is read
from a stored fact is taken as it is. -/
structure Span where
  startLine : UInt32
  startColumn : UInt32
  endLine : UInt32
  endColumn : UInt32
deriving DecidableEq

/-- The end does not lie before the start, by line and then by column. -/
def Span.Ordered (r : Span) : Prop :=
  r.startLine < r.endLine ∨ r.startLine = r.endLine ∧ r.startColumn ≤ r.endColumn

instance (r : Span) : Decidable r.Ordered := inferInstanceAs (Decidable (_ ∨ _))

def Span.ofEnds? (startLine startColumn endLine endColumn : UInt32) : Option Span :=
  let r : Span := ⟨startLine, startColumn, endLine, endColumn⟩
  if r.Ordered then some r else none

/-- Ranges are written `3:5-3:9`: start line and column, end line and column. -/
instance : ToString Span where
  toString r :=
    s!"{r.startLine.toNat}:{r.startColumn.toNat}-{r.endLine.toNat}:{r.endColumn.toNat}"

end CodeNav
