import CodeNav.Script
import CodeNav.Sink.Basic

/-!
# Contexts

A context performs scripts for one document. It hands each different record to its destination
once, keeps the counts, and writes the log.

A record counts as handed over only when the destination has taken it. So a refused record changes
nothing here, and will be handed over again when it is offered again.
-/

namespace CodeNav

structure Context (σ : Type) where
  document : String
  sink : σ
  /-- The records that the destination has taken, the latest first. -/
  accepted : List Record
  counts : Counts
  log : Array Event

namespace Context

variable {σ α : Type}

def new (document : String) (sink : σ) : Context σ := ⟨document, sink, [], .zero, #[]⟩

def note (c : Context σ) (e : Event) : Context σ := { c with log := c.log.push e }

/-- Holds back a record that the destination already has. -/
def suppress (c : Context σ) (r : Record) : Context σ :=
  { c.note (.duplicate c.document r.kind r.range) with counts := c.counts.suppress }

/-- Remembers a record that the destination has just taken. -/
def accept (c : Context σ) (r : Record) : Context σ :=
  { c with accepted := r :: c.accepted, counts := c.counts.record r.kind }

/-- Delivers a record, unless it was delivered before; says whether it was delivered now. -/
def emit [Sink σ] (c : Context σ) (r : Record) : Except Fault Bool × Context σ :=
  if r ∈ c.accepted then (.ok false, c.suppress r)
  else
    match Sink.emit c.sink r with
    | (.ok (), s) => (.ok true, { c with sink := s }.accept r)
    | (.error e, s) => (.error e, { c with sink := s })

/-- Performs actions in order, up to the first delivery that fails. -/
def performActions [Sink σ] (c : Context σ) : List (Action Record) → Except Fault Unit × Context σ
  | [] => (.ok (), c)
  | .note e :: rest => (c.note e).performActions rest
  | .offer r :: rest =>
    match c.emit r with
    | (.ok _, c') => c'.performActions rest
    | (.error e, c') => (.error e, c')

def perform [Sink σ] (c : Context σ) (s : Script Record α) : Except Fault α × Context σ :=
  match c.performActions s.actions with
  | (.ok (), c') => (s.result, c')
  | (.error e, c') => (.error e, c')

/-- Asks the destination to pass everything on; then the counts are final. -/
def finish [Sink σ] (c : Context σ) : Except Fault Counts × Context σ :=
  match Sink.flush c.sink with
  | (.ok (), s) => (.ok c.counts, { c with sink := s })
  | (.error e, s) => (.error e, { c with sink := s })

end Context

end CodeNav
