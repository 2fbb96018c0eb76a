import CodeNav.Symbol.Table
import CodeNav.Syntax.Tree

/-!
# Naming

Which node is the identifier of a node, what its text is, and which symbol it stands for.
-/

namespace CodeNav

/-- The identifier of a node. A name is its own identifier. Anything else is named by its leftmost
child that is a name; without one, a node that carries text names itself. -/
def Tree.identifier (t : Tree) (d : Node) : Except Fault Node :=
  if d.kind.isName then .ok d
  else
    match (t.children d).find? (·.kind.isName) with
    | some c => .ok c
    | none => if d.name.isSome then .ok d else .error (.missingName d.id d.kind)

def Node.text (ident : Node) : Except Fault String :=
  match ident.name with
  | some s => .ok s
  | none => .error (.missingName ident.id ident.kind)

/-- The symbol that a node with the given identifier stands for. The binding of the identifier wins;
the binding of the node itself counts where the identifier has none. -/
def SymbolTable.resolveNamed? (table : SymbolTable) (d ident : Node) :
    Option (SymbolId × Symbol) :=
  (table.resolve? ident.id).or (table.resolve? d.id)

def SymbolTable.typeName? (table : SymbolTable) (s : SymbolId) : Option String :=
  (table.type? s).map (·.qualifiedName)

end CodeNav
