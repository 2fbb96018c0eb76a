import CodeNav.Fault
import CodeNav.Symbol.Basic

/-!
# Symbol tables

A table holds symbols, which are only ever added, and says for some nodes which symbol they stand
for. A node bound twice stands for the symbol bound last.

The bindings are an association list with the latest binding in front, so that the last write wins
by being found first.
-/

namespace CodeNav

/-- Symbols by id, and the symbols that nodes are bound to. -/
structure SymbolTable where
  symbols : Array Symbol
  bindings : List (NodeId × SymbolId)

namespace SymbolTable

def empty : SymbolTable := ⟨#[], []⟩

def size (t : SymbolTable) : Nat := t.symbols.size

def symbol? (t : SymbolTable) (s : SymbolId) : Option Symbol := t.symbols[s.toNat]?

def bound? (t : SymbolTable) (n : NodeId) : Option SymbolId := t.bindings.lookup n

/-- The symbol that a node stands for, with its id. -/
def resolve? (t : SymbolTable) (n : NodeId) : Option (SymbolId × Symbol) :=
  (t.bound? n).bind fun s => (t.symbol? s).map (s, ·)

/-- The type of a given id; nothing if the id is unknown or belongs to something else. -/
def type? (t : SymbolTable) (s : SymbolId) : Option TypeSymbol :=
  (t.symbol? s).bind Symbol.asType?

/-- Adds a symbol, under the next id. There is no result if every id is taken: then the program
stops. -/
def define? (t : SymbolTable) (b : Symbol) : Option (SymbolId × SymbolTable) :=
  if t.size < idSpace then some (.ofNat t.size, { t with symbols := t.symbols.push b }) else none

/-- Adds a symbol to a table that has an id left for it. A table without one stays as it is, and the
id is not to be used. -/
def define (t : SymbolTable) (b : Symbol) : SymbolId × SymbolTable :=
  (t.define? b).getD (.ofNat 0, t)

/-- Binds a node, which need not be in any tree, to a symbol of the table. -/
def bind (t : SymbolTable) (n : NodeId) (s : SymbolId) : Except Fault SymbolTable :=
  if s.toNat < t.size then .ok { t with bindings := (n, s) :: t.bindings }
  else .error (.unknownSymbol s)

/-! ## One law per operation -/

theorem symbol?_eq_none_iff {t : SymbolTable} {s : SymbolId} :
    t.symbol? s = none ↔ t.size ≤ s.toNat := by
  simp [symbol?, size]

theorem symbol?_of_resolve? {t : SymbolTable} {n : NodeId} {s : SymbolId} {b : Symbol}
    (h : t.resolve? n = some (s, b)) : t.symbol? s = some b := by
  obtain ⟨x, -, hx⟩ := Option.bind_eq_some_iff.mp h
  obtain ⟨b', hb, heq⟩ := Option.map_eq_some_iff.mp hx
  cases heq
  exact hb

theorem define?_eq (t : SymbolTable) (b : Symbol) :
    t.define? b = if t.size < idSpace then some (t.define b) else none := by
  unfold define define?
  split <;> rfl

theorem bind_eq_ok_iff {t u : SymbolTable} {n : NodeId} {s : SymbolId} :
    t.bind n s = .ok u ↔ s.toNat < t.size ∧ u = { t with bindings := (n, s) :: t.bindings } := by
  unfold bind
  split <;> rename_i h
  · simp [h, eq_comm]
  · simp [h]

theorem bound?_cons (t : SymbolTable) (n m : NodeId) (s : SymbolId) :
    bound? { t with bindings := (n, s) :: t.bindings } m =
      if m = n then some s else t.bound? m := by
  rw [bound?, List.lookup_cons]
  by_cases h : m = n
  · simp [h]
  · simp [beq_eq_false_iff_ne.2 h, h, bound?]

end SymbolTable

end CodeNav
