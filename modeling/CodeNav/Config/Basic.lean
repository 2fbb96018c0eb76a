import CodeNav.Fact.Basic

/-!
# Configuration

Which facts a pass collects, and how hover text is rendered. By default everything is on.
-/

namespace CodeNav

/-- A switch for each kind of fact. -/
structure Toggles where
  definitions : Bool
  references : Bool
  hover : Bool
  implementations : Bool
deriving DecidableEq

namespace Toggles

def default : Toggles := ⟨true, true, true, true⟩

def enabled (c : Toggles) : FactKind → Bool
  | .definition => c.definitions
  | .reference => c.references
  | .hover => c.hover
  | .implementation => c.implementations

end Toggles

structure HoverOptions where
  showSupertypes : Bool
deriving DecidableEq

def HoverOptions.default : HoverOptions := ⟨true⟩

structure Config where
  facts : Toggles
  hover : HoverOptions
deriving DecidableEq

def Config.default : Config := ⟨.default, .default⟩

end CodeNav
