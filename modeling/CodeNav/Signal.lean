/-!
# Signals

A visitor's answer on a node: go on below it, or leave out everything below it.
-/

namespace CodeNav

/-- Whether a walk goes below a node. -/
inductive Signal where
  | descend
  | prune
deriving DecidableEq

namespace Signal

def name : Signal → String
  | descend => "continue"
  | prune => "prune"

def all : List Signal := [descend, prune]

def ofName? (s : String) : Option Signal := all.find? (·.name = s)

theorem ofName?_name (s : Signal) : ofName? s.name = some s := by cases s <;> decide +kernel

end Signal

end CodeNav
