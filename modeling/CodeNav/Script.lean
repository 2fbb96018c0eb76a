import CodeNav.Event
import CodeNav.Fault

/-!
# Scripts

A script says what collecting facts at a node amounts to, before anything is done about it: the
events noted and the records offered, in order, and then a result or a fault. It depends on the
tree, the symbols and the options alone, so what is offered at a node is the same whenever the node
is visited; what becomes of an offer is the affair of the context that performs the script.

Scripts compose as a monad: the actions of the parts follow one another, and the first fault ends
the whole.
-/

namespace CodeNav

inductive Action (ρ : Type) where
  | note (e : Event)
  | offer (r : ρ)
deriving DecidableEq

def Action.offered? {ρ : Type} : Action ρ → Option ρ
  | note _ => none
  | offer r => some r

/-- Actions in order, and how they end. -/
structure Script (ρ α : Type) where
  actions : List (Action ρ)
  result : Except Fault α

namespace Script

variable {ρ α β γ : Type}

def offers (s : Script ρ α) : List ρ := s.actions.filterMap Action.offered?

def note (e : Event) : Script ρ Unit := ⟨[.note e], .ok ()⟩

def notes (es : List Event) : Script ρ Unit := ⟨es.map .note, .ok ()⟩

def offer (r : ρ) : Script ρ Unit := ⟨[.offer r], .ok ()⟩

/-- The script that does nothing and ends as given. -/
def ofExcept (x : Except Fault α) : Script ρ α := ⟨[], x⟩

/-- One script and then another, which sees the result of the first; a fault of the first ends
both. -/
def andThen (s : Script ρ α) (next : α → Script ρ β) : Script ρ β :=
  match s.result with
  | .error e => ⟨s.actions, .error e⟩
  | .ok a => ⟨s.actions ++ (next a).actions, (next a).result⟩

instance : Monad (Script ρ) where
  pure a := ⟨[], .ok a⟩
  bind := andThen

/-! ## Laws -/

theorem bind_def (s : Script ρ α) (next : α → Script ρ β) : s >>= next = s.andThen next := rfl

theorem pure_def (a : α) : (pure a : Script ρ α) = ⟨[], .ok a⟩ := rfl

@[simp] theorem mk_ok_bind (as : List (Action ρ)) (a : α) (next : α → Script ρ β) :
    (⟨as, .ok a⟩ : Script ρ α) >>= next = ⟨as ++ (next a).actions, (next a).result⟩ := rfl

@[simp] theorem mk_error_bind (as : List (Action ρ)) (e : Fault) (next : α → Script ρ β) :
    (⟨as, .error e⟩ : Script ρ α) >>= next = ⟨as, .error e⟩ := rfl

protected theorem bind_assoc (s : Script ρ α) (f : α → Script ρ β) (g : β → Script ρ γ) :
    (s >>= f) >>= g = s >>= fun a => f a >>= g := by
  obtain ⟨as, _ | a⟩ := s
  · rfl
  · rcases hf : f a with ⟨bs, _ | b⟩ <;> simp [hf]

end Script

end CodeNav
