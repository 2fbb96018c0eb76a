import CodeNav.Span

/-!
# Navigation facts

What the index says about a range of source text: where its name is defined, what it refers to,
what to show on hover, and which supertype a type implements. Beside the facts stand the counts
that a pass keeps of them and its summary.
-/

namespace CodeNav

/-! ## Kinds of fact -/

inductive FactKind where
  | definition
  | reference
  | hover
  | implementation
deriving DecidableEq

namespace FactKind

def all : List FactKind := [definition, reference, hover, implementation]

def name : FactKind → String
  | definition => "definition"
  | reference => "reference"
  | hover => "hover"
  | implementation => "implementation"

instance : ToString FactKind := ⟨name⟩

def ofName? (s : String) : Option FactKind := all.find? (·.name = s)

theorem ofName?_name (k : FactKind) : ofName? k.name = some k := by cases k <;> decide +kernel

end FactKind

/-! ## Facts -/

/-- A navigation fact about the identifier at `range`. -/
inductive Record where
  /-- The name at `range` is defined at `target`. -/
  | definition (range target : Span) (symbol : SymbolId) (name : String)
  /-- The name at `range` refers to a symbol, declared at `target` if it has source. -/
  | reference (range : Span) (target : Option Span) (symbol : SymbolId) (name : String)
      (isDeclaration : Bool)
  /-- The text to show for the name at `range`. -/
  | hover (range : Span) (symbol : SymbolId) (contents : String)
  /-- The type declared at `range` has the direct supertype `implemented`. -/
  | implementation (range : Span) (implementor implemented : String) (target : Option Span)
deriving DecidableEq

namespace Record

def kind : Record → FactKind
  | definition .. => .definition
  | reference .. => .reference
  | hover .. => .hover
  | implementation .. => .implementation

def range : Record → Span
  | definition r .. => r
  | reference r .. => r
  | hover r .. => r
  | implementation r .. => r

end Record

/-! ## Counts -/

/-- How many facts of each kind a pass delivered, and how many repetitions it held back. -/
structure Counts where
  definitions : Nat
  references : Nat
  hovers : Nat
  implementations : Nat
  duplicatesSuppressed : Nat
deriving DecidableEq

namespace Counts

def zero : Counts := ⟨0, 0, 0, 0, 0⟩

def record (c : Counts) : FactKind → Counts
  | .definition => { c with definitions := c.definitions + 1 }
  | .reference => { c with references := c.references + 1 }
  | .hover => { c with hovers := c.hovers + 1 }
  | .implementation => { c with implementations := c.implementations + 1 }

def suppress (c : Counts) : Counts :=
  { c with duplicatesSuppressed := c.duplicatesSuppressed + 1 }

def of (c : Counts) : FactKind → Nat
  | .definition => c.definitions
  | .reference => c.references
  | .hover => c.hovers
  | .implementation => c.implementations

/-- All delivered facts; repetitions are none. -/
def total (c : Counts) : Nat :=
  c.definitions + c.references + c.hovers + c.implementations

theorem of_record (c : Counts) (k j : FactKind) :
    (c.record k).of j = c.of j + if j = k then 1 else 0 := by
  cases k <;> cases j <;> rfl

theorem total_record (c : Counts) (k : FactKind) : (c.record k).total = c.total + 1 := by
  cases k <;> simp only [total, record] <;> omega

@[simp] theorem duplicatesSuppressed_record (c : Counts) (k : FactKind) :
    (c.record k).duplicatesSuppressed = c.duplicatesSuppressed := by cases k <;> rfl

@[simp] theorem of_suppress (c : Counts) (k : FactKind) : c.suppress.of k = c.of k := by
  cases k <;> rfl

end Counts

structure Summary where
  nodesVisited : Nat
  subtreesPruned : Nat
  facts : Counts
deriving DecidableEq

end CodeNav
