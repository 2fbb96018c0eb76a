import CodeNav.Span
import CodeNav.Syntax.Kind

/-!
# Faults

Why an operation on trees, tables, passes or destinations fails. A name that resolves to nothing is
never a fault; a declaration without any name is one.
-/

namespace CodeNav

/-- Why a destination does not take what it is given. -/
inductive IoFault where
  | sinkClosed
  | readerGone
  | flushRefused
deriving DecidableEq

def IoFault.message : IoFault → String
  | sinkClosed => "sink closed"
  | readerGone => "reader went away"
  | flushRefused => "flush refused"

inductive Fault where
  /-- A node id that is not in the tree. -/
  | unknownNode (node : NodeId)
  /-- A symbol id that is not in the table. -/
  | unknownSymbol (symbol : SymbolId)
  /-- A root for a tree that has one. -/
  | secondRoot
  /-- A node for a tree that has used every id. -/
  | idsExhausted
  /-- An identifier is needed of a node that has none. -/
  | missingName (node : NodeId) (kind : Kind)
  /-- A destination failed. -/
  | io (cause : IoFault)
deriving DecidableEq

def Fault.message : Fault → String
  | unknownNode n => s!"unknown node {n}"
  | unknownSymbol s => s!"unknown symbol {s}"
  | secondRoot => "malformed tree: tree already has a root"
  | idsExhausted => "malformed tree: node count exceeds u32::MAX"
  | missingName n k => s!"{k} node {n} has no identifier"
  | io cause => s!"I/O error: {cause.message}"

end CodeNav
