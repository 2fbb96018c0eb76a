import CodeNav.Signal
import CodeNav.Syntax.Tree

/-!
# Walks

A walk enters the nodes of a tree in document order, threading the visitor's state, and leaves out
what is below a node that the visitor prunes. The visitor may stop the walk with an error; its state
is kept in that case too.
-/

namespace CodeNav

/-- How many nodes a walk entered, and how many of them were pruned. -/
structure WalkStats where
  visited : Nat
  pruned : Nat
deriving DecidableEq

namespace WalkStats

def zero : WalkStats := ⟨0, 0⟩

def enter (s : WalkStats) : Signal → WalkStats
  | .descend => { s with visited := s.visited + 1 }
  | .prune => ⟨s.visited + 1, s.pruned + 1⟩

end WalkStats

namespace Tree

variable {σ ε : Type}

/-- The nodes to look at next, topmost first, after `d` was entered. -/
def below (t : Tree) (d : Node) : Signal → List Node
  | .descend => t.children d
  | .prune => []

/-- Walks on, where `pending` are the topmost nodes to come. A step enters one node, so the size of
the tree bounds the number of steps. -/
def walkOn (t : Tree) (enter : σ → Node → Except ε Signal × σ) :
    Nat → List Node → WalkStats → σ → Except ε WalkStats × σ
  | 0, _, stats, s => (.ok stats, s)
  | _ + 1, [], stats, s => (.ok stats, s)
  | steps + 1, d :: pending, stats, s =>
    match enter s d with
    | (.ok signal, s') => walkOn t enter steps (t.below d signal ++ pending) (stats.enter signal) s'
    | (.error e, s') => (.error e, s')

def walk (t : Tree) (enter : σ → Node → Except ε Signal × σ) (s : σ) : Except ε WalkStats × σ :=
  t.walkOn enter t.size t.root?.toList .zero s

end Tree

end CodeNav
