import CodeNav.Fact.Basic
import CodeNav.Syntax.Kind

/-!
# The log of a pass

What a pass notes besides its facts. An event is a cause with its data; level, wording and named
fields are read off it by `level`, `message` and `fields`.
-/

namespace CodeNav

inductive Level where
  | info
  | debug
  | trace
deriving DecidableEq

def Level.name : Level → String
  | info => "INFO"
  | debug => "DEBUG"
  | trace => "TRACE"

inductive Event.Value where
  | text (s : String)
  | number (n : Nat)
deriving DecidableEq

/-- Something that happened in a pass. -/
inductive Event where
  /-- The pass over a document begins. -/
  | started (document : String) (nodes : Nat)
  /-- A record was offered again and held back. -/
  | duplicate (document : String) (fact : FactKind) (range : Span)
  /-- A definition was asked of a node whose name stands for nothing. -/
  | noDefinition (node : NodeId) (kind : Kind)
  /-- A hover was asked of a node whose name stands for nothing. -/
  | noHover (node : NodeId) (kind : Kind)
  /-- Supertypes were asked of a node whose name stands for no type. -/
  | noImplementations (node : NodeId)
  /-- A supertype is not a type of the table. -/
  | unknownSupertype (symbol : SymbolId)
  /-- A name refers to nothing; `kind` is that of the node it names. -/
  | noReference (node : NodeId) (kind : Kind)
  /-- Names below a pruned node were passed over. -/
  | skipped (node : NodeId) (kind : Kind)
  /-- An invocation of no known method. -/
  | invocationUnresolved (node : NodeId)
  /-- An invocation of a method whose declaring type is not known. -/
  | invocationUnowned (node : NodeId) (method : String)
  /-- A qualified name of no known variable. -/
  | nameUnresolved (node : NodeId)
  /-- A qualified name of a variable whose declaring type is not known. -/
  | variableUnowned (node : NodeId) (variableName : String)
  /-- The pass succeeded, with these numbers. -/
  | finished (visited pruned facts duplicates : Nat)
deriving DecidableEq

namespace Event

def level : Event → Level
  | started .. => .info
  | duplicate .. | noDefinition .. | noHover .. | noImplementations .. | unknownSupertype ..
  | finished .. => .debug
  | noReference .. | skipped .. | invocationUnresolved .. | invocationUnowned ..
  | nameUnresolved .. | variableUnowned .. => .trace

def message : Event → String
  | started .. => "index_tree"
  | duplicate .. => "Suppressed duplicate record"
  | noDefinition .. => "No binding, skipping definition"
  | noHover .. => "No binding, skipping hover"
  | noImplementations .. => "No type binding, skipping implementations"
  | unknownSupertype .. => "Supertype is not a known type"
  | noReference .. => "Unresolved identifier, no reference"
  | skipped .. => "Skipping references under pruned node"
  | invocationUnresolved .. => "Unresolved method invocation, pruning"
  | invocationUnowned .. => "Invocation without declaring type, pruning"
  | nameUnresolved .. => "Qualified name is not a resolved variable, pruning"
  | variableUnowned .. => "Variable without declaring type, pruning"
  | finished .. => "Indexed file"

private def nodeField (n : NodeId) : String × Value := ("node", .text (toString n))

private def kindField (k : Kind) : String × Value := ("kind", .text k.name)

def fields : Event → List (String × Value)
  | started document nodes => [("document", .text document), ("nodes", .number nodes)]
  | duplicate document fact range =>
    [("document", .text document), ("fact", .text fact.name), ("range", .text (toString range))]
  | noDefinition n k => [nodeField n, kindField k]
  | noHover n k => [nodeField n, kindField k]
  | noImplementations n => [nodeField n]
  | unknownSupertype s => [("symbol", .text (toString s))]
  | noReference n k => [nodeField n, kindField k]
  | skipped n k => [nodeField n, kindField k]
  | invocationUnresolved n => [nodeField n]
  | invocationUnowned n method => [nodeField n, ("method", .text method)]
  | nameUnresolved n => [nodeField n]
  | variableUnowned n variableName => [nodeField n, ("variable", .text variableName)]
  | finished visited pruned facts duplicates =>
    [("visited", .number visited), ("pruned", .number pruned), ("facts", .number facts),
      ("duplicates", .number duplicates)]

end Event

end CodeNav
