import CodeNav.Event
import CodeNav.Signal
import CodeNav.Symbol.Table
import CodeNav.Syntax.Tree

/-!
# Routes

Which facts to collect at a node, and whether to go below it. A route depends on the node's kind,
its parent's kind and its own binding, and on nothing that a pass has seen before.

| node | facts | below it |
|---|---|---|
| declaration of a parameter or local variable | definition | no |
| type reference or name directly in a type declaration | definition, hover / implementation | no |
| type declaration | definition, hover | yes |
| method declaration | reference | yes |
| invocation, qualified name | none | only if its owner is a known type |
| anything else | none | yes |
-/

namespace CodeNav

structure Route where
  /-- The facts to collect, in order. -/
  facts : List FactKind
  /-- Whether to go below the node. -/
  signal : Signal
  /-- Why the node is left out, where its binding is the reason. -/
  notice : Option Event
deriving DecidableEq

namespace Route

/-- Collect nothing and go on. -/
def pass : Route := ⟨[], .descend, none⟩

def collect (facts : List FactKind) (signal : Signal) : Route := ⟨facts, signal, none⟩

/-- Collect nothing and leave out what is below, for the given reason. -/
def leaveOut (reason : Event) : Route := ⟨[], .prune, some reason⟩

end Route

/-- The owner is known: it is given, and the table has it as a type. -/
def SymbolTable.knowsType (table : SymbolTable) (owner : Option SymbolId) : Bool :=
  (owner.bind table.type?).isSome

def Tree.inTypeDecl (t : Tree) (d : Node) : Bool := t.parentKind? d = some .typeDecl

/-- The method that a node itself is bound to. -/
def SymbolTable.methodAt? (table : SymbolTable) (n : NodeId) : Option MethodSymbol :=
  (table.resolve? n).bind (·.2.asMethod?)

def SymbolTable.variableAt? (table : SymbolTable) (n : NodeId) : Option VariableSymbol :=
  (table.resolve? n).bind (·.2.asVariable?)

/-- An invocation is entered if it is bound to a method of a known type. -/
def invocationRoute (table : SymbolTable) (d : Node) : Route :=
  match table.methodAt? d.id with
  | none => .leaveOut (.invocationUnresolved d.id)
  | some m =>
    if table.knowsType m.declaringType then .pass
    else .leaveOut (.invocationUnowned d.id m.name)

/-- A qualified name is entered if it is bound to a variable of a known type. -/
def qualifiedNameRoute (table : SymbolTable) (d : Node) : Route :=
  match table.variableAt? d.id with
  | none => .leaveOut (.nameUnresolved d.id)
  | some v =>
    if table.knowsType v.declaringType then .pass
    else .leaveOut (.variableUnowned d.id v.name)

def route (t : Tree) (table : SymbolTable) (d : Node) : Route :=
  match d.kind with
  | .simpleVarDecl => .collect [.definition] .prune
  | .simpleType => if t.inTypeDecl d then .collect [.definition, .hover] .prune else .pass
  | .typeDecl => .collect [.definition, .hover] .descend
  | .methodDecl => .collect [.reference] .descend
  | .methodInvocation => invocationRoute table d
  | .qualifiedName => qualifiedNameRoute table d
  | .simpleName =>
    if t.inTypeDecl d then .collect [.definition, .implementation] .prune else .pass
  | _ => .pass

end CodeNav
