import CodeNav.Fault

/-!
# Byte pipes

A pipe takes bytes in order until its budget is used up. A write that goes beyond the budget is
taken in part and fails, and so does every later write of anything. The pipe may also refuse to
flush, whatever it holds.
-/

namespace CodeNav

/-- The bytes that a pipe has taken, how many it takes at most, and whether it refuses to flush. -/
structure Pipe where
  taken : List UInt8
  budget : Option Nat
  flushFails : Bool
deriving DecidableEq

namespace Pipe

def new (budget : Option Nat) (flushFails : Bool) : Pipe := ⟨[], budget, flushFails⟩

/-- How many of `n` further bytes the pipe takes. -/
def room (p : Pipe) (n : Nat) : Nat :=
  match p.budget with
  | none => n
  | some b => min n (b - p.taken.length)

/-- Writes bytes: the pipe, and the bytes that it did not take. -/
def write (p : Pipe) (bytes : List UInt8) : Pipe × List UInt8 :=
  let n := p.room bytes.length
  ({ p with taken := p.taken ++ bytes.take n }, bytes.drop n)

def flush (p : Pipe) : Except Fault Unit :=
  if p.flushFails then .error (.io .flushRefused) else .ok ()

/-- Bytes as text, where the last character may have been cut off: what is left of it is shown as
the replacement character. -/
def textOf (bytes : List UInt8) : String :=
  let readings := (List.range 4).filterMap fun cut =>
    (String.fromUTF8? ⟨(bytes.take (bytes.length - cut)).toArray⟩).map fun s =>
      if cut = 0 then s else s ++ "\uFFFD"
  readings.headD ""

def text (p : Pipe) : String := textOf p.taken

end Pipe

end CodeNav
