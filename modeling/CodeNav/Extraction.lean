import CodeNav.Config.Basic
import CodeNav.Naming
import CodeNav.Route
import CodeNav.Script

/-!
# Extraction

For each kind of fact, the script that collects it at a node. A name that stands for nothing is
noted and skipped; the only fault is a missing identifier or identifier text.
-/

namespace CodeNav

namespace Extraction

/-! ## Definitions -/

/-- The definition of the name of `d`. A symbol without source is defined where it is named. -/
def definition (t : Tree) (table : SymbolTable) (d : Node) : Script Record Unit := do
  let ident ← Script.ofExcept (t.identifier d)
  match table.resolveNamed? d ident with
  | none => .note (.noDefinition d.id d.kind)
  | some (s, b) =>
    let name ← Script.ofExcept ident.text
    .offer (.definition ident.span (b.declaration?.getD ident.span) s name)

/-! ## Hover text -/

/-- The word between a type and the interfaces it lists: an interface extends them, any other type
implements them. -/
def interfacesWord : TypeKind → String
  | .interfaceType => " extends "
  | _ => " implements "

/-- The supertypes clause of a type's hover text. Only supertypes that the table knows as types are
listed. -/
def supertypesClause (table : SymbolTable) (ty : TypeSymbol) : String :=
  let superclass := ty.superclass.bind table.typeName?
  let interfaces := ty.interfaces.filterMap table.typeName?
  (superclass.elim "" (" extends " ++ ·)) ++
    if interfaces.isEmpty then "" else interfacesWord ty.kind ++ ", ".intercalate interfaces

def renderType (table : SymbolTable) (options : HoverOptions) (ty : TypeSymbol) : String :=
  ty.kind.keyword ++ " " ++ ty.qualifiedName ++
    if options.showSupertypes then supertypesClause table ty else ""

/-- The hover text of a symbol: a type with its supertypes, the signature of a method, a variable
with its type. -/
def render (table : SymbolTable) (options : HoverOptions) : Symbol → String
  | .type ty => renderType table options ty
  | .method m => m.signature
  | .var v => v.typeName ++ " " ++ v.name

def hover (t : Tree) (table : SymbolTable) (options : HoverOptions) (d : Node) :
    Script Record Unit := do
  let ident ← Script.ofExcept (t.identifier d)
  match table.resolveNamed? d ident with
  | none => .note (.noHover d.id d.kind)
  | some (s, b) => .offer (.hover ident.span s (render table options b))

/-! ## Implementations -/

def implementationEdge (table : SymbolTable) (range : Span) (declared : TypeSymbol)
    (supertype : SymbolId) : Script Record Unit :=
  match table.type? supertype with
  | none => .note (.unknownSupertype supertype)
  | some super =>
    .offer (.implementation range declared.qualifiedName super.qualifiedName super.declaration)

def implementationEdges (table : SymbolTable) (range : Span) (declared : TypeSymbol) :
    List SymbolId → Script Record Unit
  | [] => pure ()
  | s :: rest => do
    implementationEdge table range declared s
    implementationEdges table range declared rest

/-- The edges from the type that `d` names to its direct supertypes. Only a name that stands
directly in a type declaration carries edges. -/
def implementation (t : Tree) (table : SymbolTable) (d : Node) : Script Record Unit := do
  let ident ← Script.ofExcept (t.identifier d)
  if t.inTypeDecl ident then
    match (table.resolveNamed? d ident).bind (·.2.asType?) with
    | none => .note (.noImplementations d.id)
    | some declared => implementationEdges table ident.span declared declared.supertypes

/-! ## References -/

def referenceOf (table : SymbolTable) (owner ident : Node) : Script Record Unit := do
  match table.resolveNamed? owner ident with
  | none => .note (.noReference ident.id owner.kind)
  | some (s, b) =>
    let name ← Script.ofExcept ident.text
    .offer (.reference ident.span b.declaration? s name (b.declaration? = some ident.span))

/-- Whether the binding of a node decides that nothing below it is looked at. -/
def isGate (d : Node) : Bool := d.kind = .methodInvocation || d.kind = .qualifiedName

/-- The gate is shut: the node's route leaves out what is below it. -/
def isShut (t : Tree) (table : SymbolTable) (d : Node) : Bool :=
  isGate d && (route t table d).signal = .prune

/-- What is noted at a gate: the reason of its route, and that names below it are passed over. -/
def gateNotes (t : Tree) (table : SymbolTable) (d : Node) : List Event :=
  if isGate d then
    (route t table d).notice.toList ++ if isShut t table d then [.skipped d.id d.kind] else []
  else []

/-- A name that is reported on its own: not the declared one, and no segment of a qualified
name. -/
def isReported (t : Tree) (declared d : Node) : Bool :=
  d.id ≠ declared.id && d.kind.isName && t.parentKind? d ≠ some .qualifiedName

/-- The references of the names to come, in document order, where `pending` are the topmost nodes;
shut gates are passed over. A step takes one node, so the size of the tree bounds the number of
steps. -/
def referencesBelow (t : Tree) (table : SymbolTable) (declared : Node) :
    Nat → List Node → Script Record Unit
  | 0, _ => pure ()
  | _ + 1, [] => pure ()
  | steps + 1, d :: pending => do
    .notes (gateNotes t table d)
    if isShut t table d then
      referencesBelow t table declared steps pending
    else
      if isReported t declared d then referenceOf table d d
      referencesBelow t table declared steps (t.children d ++ pending)

/-- The reference of a method's own name, then those of the names below it. -/
def reference (t : Tree) (table : SymbolTable) (d : Node) : Script Record Unit := do
  let declared ← Script.ofExcept (t.identifier d)
  referenceOf table d declared
  referencesBelow t table declared t.size (t.children d)

end Extraction

def extraction (t : Tree) (table : SymbolTable) (options : HoverOptions) (kind : FactKind)
    (d : Node) : Script Record Unit :=
  match kind with
  | .definition => Extraction.definition t table d
  | .reference => Extraction.reference t table d
  | .hover => Extraction.hover t table options d
  | .implementation => Extraction.implementation t table d

/-! ## Visits -/

def collect {ρ : Type} (enabled : FactKind → Bool) (extract : FactKind → Script ρ Unit) :
    List FactKind → Script ρ Unit
  | [] => pure ()
  | k :: rest => do
    if enabled k then extract k
    collect enabled extract rest

/-- Visiting a node: its route is taken and noted, the facts of the route that are switched on are
collected, and the answer is the route's signal. -/
def visit {ρ : Type} (t : Tree) (table : SymbolTable) (toggles : Toggles)
    (extract : FactKind → Node → Script ρ Unit) (d : Node) : Script ρ Signal := do
  let r := route t table d
  .notes r.notice.toList
  collect toggles.enabled (extract · d) r.facts
  pure r.signal

end CodeNav
