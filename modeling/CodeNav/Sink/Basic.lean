import CodeNav.Fact.Basic
import CodeNav.Fault

/-!
# Destinations

A destination takes records one by one and may refuse any of them. A refusal also yields the
destination's new state: what it took before is still there, and it may count or hold on to what it
refused.
-/

namespace CodeNav

/-- States of a destination for records. -/
class Sink (σ : Type) where
  /-- Hands over one record. -/
  emit : σ → Record → Except Fault Unit × σ
  /-- Asks that everything taken so far be passed on. -/
  flush : σ → Except Fault Unit × σ

/-- A destination in memory. Calls that `fails` names, counted from zero with the failing ones, are
refused, and so is a flush if `flushFails`. -/
structure MemorySink where
  records : Array Record
  calls : Nat
  flushes : Nat
  fails : Nat → Bool
  flushFails : Bool

namespace MemorySink

def refusing (fails : Nat → Bool) (flushFails : Bool) : MemorySink := ⟨#[], 0, 0, fails, flushFails⟩

def empty : MemorySink := refusing (fun _ => false) false

def emit (s : MemorySink) (r : Record) : Except Fault Unit × MemorySink :=
  if s.fails s.calls then (.error (.io .sinkClosed), { s with calls := s.calls + 1 })
  else (.ok (), { s with calls := s.calls + 1, records := s.records.push r })

def flush (s : MemorySink) : Except Fault Unit × MemorySink :=
  (if s.flushFails then .error (.io .flushRefused) else .ok (), { s with flushes := s.flushes + 1 })

instance : Sink MemorySink := ⟨emit, flush⟩

end MemorySink

end CodeNav
