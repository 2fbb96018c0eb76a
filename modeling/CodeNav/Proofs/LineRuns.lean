import CodeNav.Proofs.Lines
import Mathlib.Data.List.DropRight

/-!
# Runs of a line destination

A line destination may be called in any order, and a failed call does not end its use. Whatever the
answers are, what the pipe has taken and what the buffer holds is all that was emitted, in order and
once (`Conserves`): a flush moves the border between the two, and an emit appends to the end.
`run_keeps_bytes` reads off that invariant what every call of a run answers, and what the pipe holds
between the calls.
-/

namespace CodeNav

/-! ## Full pipes -/

namespace Pipe

variable {budget : Option Nat} {flushFails : Bool} {bytes more : List UInt8}

/-- What a write does not take is left over, and nothing else is. -/
theorem taken_append_rest (p : Pipe) (bytes : List UInt8) :
    (p.write bytes).1.taken ++ (p.write bytes).2 = p.taken ++ bytes := by
  simp only [write]
  rw [List.append_assoc, List.take_append_drop]

theorem fits_firstOf (budget : Option Nat) (bytes : List UInt8) :
    Fits budget (firstOf budget bytes) := by
  cases budget with
  | none => trivial
  | some b => exact List.length_take_le b bytes

/-- A pipe does not tell what it was given from what it has taken of it. -/
theorem given_firstOf (budget : Option Nat) (flushFails : Bool) (bytes : List UInt8) :
    given budget flushFails (firstOf budget bytes) = given budget flushFails bytes := by
  cases budget with
  | none => rfl
  | some b =>
      simp only [given, firstOf]
      rw [List.take_take, Nat.min_self]

end Pipe

namespace LineSink

open Pipe

/-! ## Calls -/

inductive Request where
  | emit (r : Record)
  | flush
deriving DecidableEq

def Request.record? : Request → Option Record
  | emit r => some r
  | flush => none

def serve (s : LineSink) : Request → Except Fault Unit × LineSink
  | .emit r => s.emit r
  | .flush => s.flush

/-- The destination after calls, which go on whatever the answers are. -/
def run (s : LineSink) (calls : List Request) : LineSink :=
  calls.foldl (fun s x => (s.serve x).2) s

def answers (s : LineSink) : List Request → List (Request × Except Fault Unit)
  | [] => []
  | x :: calls => (x, (s.serve x).1) :: (s.serve x).2.answers calls

def isWritten : Request × Except Fault Unit → Bool
  | (.emit _, .ok ()) => true
  | _ => false

/-- The lines of all records that calls emitted, those of failed calls too. -/
def emitted (calls : List Request) : List UInt8 := Record.lines (calls.filterMap Request.record?)

/-- The lines of the records that were emitted before the latest flush. -/
def flushed (calls : List Request) : List UInt8 := emitted (calls.rdropWhile (· ≠ .flush))

/-- The pipe after the destination is turned into it. If that fails, the destination is given up with
what it still holds, which is then tried once more. -/
def turnedIntoPipe (s : LineSink) : Pipe :=
  match s.intoPipe with
  | .ok p => p
  | .error _ => s.drain.2.close

variable {budget : Option Nat} {flushFails : Bool} {capacity n : Nat} {s : LineSink}
  {calls : List Request} {bytes buffer : List UInt8}

theorem run_concat (s : LineSink) (calls : List Request) (x : Request) :
    s.run (calls ++ [x]) = ((s.run calls).serve x).2 := by
  simp [run]

theorem answers_concat (s : LineSink) (calls : List Request) (x : Request) :
    s.answers (calls ++ [x]) = s.answers calls ++ [(x, ((s.run calls).serve x).1)] := by
  induction calls generalizing s with
  | nil => rfl
  | cons y calls ih => exact congrArg (_ :: ·) (ih (s.serve y).2)

/-- An answer was given in the state that the calls before it led to. -/
theorem exists_split_of_mem_answers {x : Request} {answer : Except Fault Unit}
    (h : (x, answer) ∈ s.answers calls) :
    ∃ before after, calls = before ++ x :: after ∧ ((s.run before).serve x).1 = answer := by
  induction calls generalizing s with
  | nil => exact absurd h List.not_mem_nil
  | cons y calls ih =>
      rcases List.mem_cons.mp h with heq | h
      · obtain ⟨rfl, rfl⟩ := Prod.mk.inj heq
        exact ⟨[], calls, rfl, rfl⟩
      · obtain ⟨before, after, rfl, hanswer⟩ := ih h
        exact ⟨y :: before, after, rfl, hanswer⟩

theorem emitted_append (calls calls' : List Request) :
    emitted (calls ++ calls') = emitted calls ++ emitted calls' := by
  simp [emitted, Record.lines]

theorem emitted_concat_emit (calls : List Request) (r : Record) :
    emitted (calls ++ [.emit r]) = emitted calls ++ r.line := by
  rw [emitted_append]
  simp [emitted, Record.lines, Request.record?]

theorem emitted_concat_flush (calls : List Request) :
    emitted (calls ++ [.flush]) = emitted calls := by
  rw [emitted_append]
  exact List.append_nil _

theorem flushed_concat_emit (calls : List Request) (r : Record) :
    flushed (calls ++ [.emit r]) = flushed calls := by
  rw [flushed, List.rdropWhile_concat_pos _ _ _ (by simp), flushed]

theorem flushed_concat_flush (calls : List Request) :
    flushed (calls ++ [.flush]) = emitted calls := by
  rw [flushed, List.rdropWhile_concat_neg _ _ _ (by simp), emitted_concat_flush]

/-! ## What is counted -/

theorem written_write (s : LineSink) (bytes : List UInt8) :
    (s.write bytes).2.written = s.written := by
  have hdrain : s.drain.2.written = s.written := rfl
  rw [write]
  split
  · rfl
  · split
    · rename_i h
      rw [h] at hdrain
      exact hdrain
    · rename_i s' h
      rw [h] at hdrain
      split
      · exact hdrain
      · exact hdrain

theorem written_writeAll (s : LineSink) (pieces : List (List UInt8)) :
    (s.writeAll pieces).2.written = s.written := by
  induction pieces generalizing s with
  | nil => rfl
  | cons piece pieces ih =>
      have hwrite := s.written_write piece
      rw [writeAll]
      rcases h : s.write piece with ⟨e | u, s'⟩
      · rw [h] at hwrite
        exact hwrite
      · rw [h] at hwrite
        exact (ih s').trans hwrite

theorem written_serve (s : LineSink) (x : Request) :
    (s.serve x).2.written = s.written + if isWritten (x, (s.serve x).1) then 1 else 0 := by
  cases x with
  | emit r =>
      have hwrite := s.written_writeAll r.pieces
      rw [serve, emit]
      rcases h : s.writeAll r.pieces with ⟨e | u, s'⟩
      · rw [h] at hwrite
        exact hwrite
      · rw [h] at hwrite
        exact congrArg (· + 1) hwrite
  | flush =>
      have hdrain : s.drain.2.written = s.written := rfl
      rw [serve, flush]
      rcases h : s.drain with ⟨e | u, s'⟩
      · rw [h] at hdrain
        exact hdrain
      · rw [h] at hdrain
        exact hdrain

theorem written_run (s : LineSink) (calls : List Request) :
    (s.run calls).written = s.written + (s.answers calls).countP isWritten := by
  induction calls using List.reverseRecOn with
  | nil => rfl
  | append_singleton calls x ih =>
      rw [run_concat, written_serve, ih, answers_concat, List.countP_append, Nat.add_assoc,
        List.countP_singleton]

/-! ## Nothing is buffered -/

theorem run_unbuffered (budget : Option Nat) (flushFails : Bool) (calls : List Request) :
    ∃ n, run (new (.new budget flushFails) 0) calls =
      ⟨given budget flushFails (emitted calls), 0, [], n⟩ := by
  induction calls using List.reverseRecOn with
  | nil => exact ⟨0, by rw [new_eq_given]; rfl⟩
  | append_singleton calls x ih =>
      obtain ⟨n, hrun⟩ := ih
      rw [run_concat, hrun]
      cases x with
      | emit r =>
          rw [emitted_concat_emit, serve, emit_unbuffered]
          split
          · exact ⟨n + 1, rfl⟩
          · exact ⟨n, rfl⟩
      | flush =>
          rw [emitted_concat_flush, serve, flush, drain_nil]
          exact ⟨n, rfl⟩

/-! ## Everything is buffered -/

/-- **Nothing is lost and nothing repeated.** The pipe was given what was flushed, and what it has
taken of that, with the buffer behind it, is everything that was emitted. -/
structure Conserves (budget : Option Nat) (flushFails : Bool) (capacity : Nat)
    (calls : List Request) (s : LineSink) : Prop where
  pipe_eq : s.pipe = given budget flushFails (flushed calls)
  capacity_eq : s.capacity = capacity
  stream_eq : s.pipe.taken ++ s.buffer = emitted calls

theorem conserves_new :
    Conserves budget flushFails capacity [] (new (.new budget flushFails) capacity) where
  pipe_eq := new_eq_given
  capacity_eq := rfl
  stream_eq := rfl

/-- Moving the buffer moves the border, as far as the budget goes. -/
theorem Conserves.drain (h : Conserves budget flushFails capacity calls s) :
    ∃ rest, s.drain = (if Fits budget (emitted calls) then .ok () else .error (.io .readerGone),
        ⟨given budget flushFails (emitted calls), capacity, rest, s.written⟩) ∧
      firstOf budget (emitted calls) ++ rest = emitted calls := by
  obtain ⟨hpipe, rfl, hstream⟩ := h
  have hkept := s.pipe.taken_append_rest s.buffer
  rw [hstream, hpipe] at hkept
  rw [hpipe] at hstream
  -- the pipe was given the first bytes of the stream, all of which fit, and now gets the rest
  obtain ⟨htaken, hrest⟩ :=
    write_given budget flushFails (firstOf budget (flushed calls)) s.buffer
  rw [given_firstOf, show firstOf budget (flushed calls) ++ s.buffer = emitted calls from hstream]
    at htaken hrest
  refine ⟨((given budget flushFails (flushed calls)).write s.buffer).2, ?_, ?_⟩
  · simp only [LineSink.drain, hpipe, htaken, hrest (fits_firstOf budget (flushed calls))]
  · rw [htaken] at hkept
    exact hkept

theorem Conserves.emit (h : Conserves budget flushFails capacity calls s) {r : Record}
    (hroom : (emitted calls ++ r.line).length < capacity) :
    s.emit r = (.ok (), { s with buffer := s.buffer ++ r.line, written := s.written + 1 }) ∧
      Conserves budget flushFails capacity (calls ++ [.emit r]) (s.emit r).2 := by
  obtain ⟨hpipe, rfl, hstream⟩ := h
  have hbuffer : s.buffer.length + r.line.length < s.capacity := by
    rw [← hstream, List.length_append, List.length_append] at hroom
    omega
  have hemit : s.emit r =
      (.ok (), { s with buffer := s.buffer ++ r.line, written := s.written + 1 }) :=
    emit_buffered hbuffer
  refine ⟨hemit, ?_⟩
  rw [hemit]
  refine ⟨?_, rfl, ?_⟩
  · rw [flushed_concat_emit]
    exact hpipe
  · rw [emitted_concat_emit, ← hstream, List.append_assoc]

theorem Conserves.flush (h : Conserves budget flushFails capacity calls s) :
    (s.flush.1 = .ok () ↔ Fits budget (emitted calls) ∧ flushFails = false) ∧
      Conserves budget flushFails capacity (calls ++ [.flush]) s.flush.2 := by
  obtain ⟨rest, hdrain, hstream⟩ := h.drain
  have hconserves : Conserves budget flushFails capacity (calls ++ [.flush])
      ⟨given budget flushFails (emitted calls), capacity, rest, s.written⟩ := by
    refine ⟨?_, rfl, ?_⟩
    · rw [flushed_concat_flush]
    · rw [emitted_concat_flush]
      exact hstream
  rw [LineSink.flush, hdrain]
  by_cases hfits : Fits budget (emitted calls)
  · rw [if_pos hfits]
    refine ⟨?_, hconserves⟩
    cases flushFails <;> simp [Pipe.flush, given, hfits]
  · rw [if_neg hfits]
    refine ⟨?_, hconserves⟩
    simp [hfits]

theorem run_conserves (hroom : (emitted calls).length < capacity) :
    Conserves budget flushFails capacity calls (run (new (.new budget flushFails) capacity) calls) := by
  induction calls using List.reverseRecOn with
  | nil => exact conserves_new
  | append_singleton calls x ih =>
      rw [run_concat]
      cases x with
      | emit r =>
          rw [emitted_concat_emit] at hroom
          have hcalls : (emitted calls).length < capacity := by
            rw [List.length_append] at hroom
            omega
          exact ((ih hcalls).emit hroom).2
      | flush =>
          rw [emitted_concat_flush] at hroom
          exact (ih hroom).flush.2

/-- The pipe gets the first bytes of the stream in the end, whether or not it takes them all. -/
theorem Conserves.turnedIntoPipe (h : Conserves budget flushFails capacity calls s) :
    s.turnedIntoPipe = given budget flushFails (emitted calls) ∧
      ((∃ p, s.intoPipe = .ok p) ↔ Fits budget (emitted calls)) := by
  obtain ⟨rest, hdrain, -⟩ := h.drain
  rw [LineSink.turnedIntoPipe, intoPipe, hdrain]
  by_cases hfits : Fits budget (emitted calls)
  · rw [if_pos hfits]
    exact ⟨rfl, by simp [hfits]⟩
  · rw [if_neg hfits]
    refine ⟨?_, by simp [hfits]⟩
    show close _ = _
    rw [close_given, given_append_of_not_fits hfits]

/-! ## Runs -/

theorem emit_run_unbuffered (budget : Option Nat) (flushFails : Bool) (calls : List Request)
    (r : Record) :
    ((run (new (.new budget flushFails) 0) calls).emit r).1 = .ok () ↔
      Fits budget (emitted calls ++ r.line) := by
  obtain ⟨n, hrun⟩ := run_unbuffered budget flushFails calls
  rw [hrun, emit_unbuffered]
  split <;> simp [*]

/-- Without a buffer, a failed emit has used up the budget for good. -/
theorem not_fits_of_failed {r : Record} {e : Fault}
    (h : (.emit r, .error e) ∈ (new (.new budget flushFails) 0).answers calls) :
    ¬Fits budget (emitted calls) := by
  obtain ⟨before, after, rfl, hanswer⟩ := exists_split_of_mem_answers h
  intro hfits
  rw [List.append_cons, emitted_append, emitted_concat_emit] at hfits
  have hok := (emit_run_unbuffered budget flushFails before r).mpr hfits.of_append
  cases hanswer.symm.trans hok

theorem answer_buffered (hroom : (emitted calls).length < capacity) {r : Record}
    {answer : Except Fault Unit}
    (h : (.emit r, answer) ∈ (new (.new budget flushFails) capacity).answers calls) :
    answer = .ok () := by
  obtain ⟨before, after, rfl, rfl⟩ := exists_split_of_mem_answers h
  rw [List.append_cons, emitted_append, emitted_concat_emit, List.length_append] at hroom
  have hline : (emitted before ++ r.line).length < capacity := by omega
  have hbefore : (emitted before).length < capacity := by
    rw [List.length_append] at hline
    omega
  exact congrArg Prod.fst ((run_conserves hbefore).emit hline).1

/-- **A line destination neither loses nor repeats bytes.** Let it be called in any way, and go on
after failed calls. It counts the emits that succeeded. Without a buffer, its pipe holds the first
bytes of all that was emitted, as many as the budget allows; an emit succeeds if all fits with its
line, so that after a failed one none does; a flush fails only if the pipe refuses it, and turning
the destination into its pipe always succeeds. With a buffer for everything, no emit fails; the pipe
holds the first bytes of what was emitted before the latest flush; a flush succeeds if all fits that
was emitted by then and the pipe does not refuse it; turning the destination into its pipe succeeds if
everything fits, and leaves the first bytes of everything in the pipe even if it fails. -/
theorem run_keeps_bytes (hs : s = (new (.new budget flushFails) capacity).run calls) :
    s.written = ((new (.new budget flushFails) capacity).answers calls).countP isWritten ∧
    (capacity = 0 →
      s.pipe.taken = firstOf budget (emitted calls) ∧
      (∀ r, (s.emit r).1 = .ok () ↔ Fits budget (emitted calls ++ r.line)) ∧
      (∀ r e, (.emit r, .error e) ∈ (new (.new budget flushFails) capacity).answers calls →
        ∀ r', (s.emit r').1 ≠ .ok ()) ∧
      (s.flush.1 = .ok () ↔ flushFails = false) ∧
      s.intoPipe = .ok s.pipe) ∧
    ((emitted calls).length < capacity →
      (∀ r answer, (.emit r, answer) ∈ (new (.new budget flushFails) capacity).answers calls →
        answer = .ok ()) ∧
      (∀ r, (emitted calls ++ r.line).length < capacity → (s.emit r).1 = .ok ()) ∧
      s.pipe.taken = firstOf budget (flushed calls) ∧
      (s.flush.1 = .ok () ↔ Fits budget (emitted calls) ∧ flushFails = false) ∧
      ((∃ p, s.intoPipe = .ok p) ↔ Fits budget (emitted calls)) ∧
      s.turnedIntoPipe.taken = firstOf budget (emitted calls)) := by
  subst hs
  refine ⟨?_, ?_, ?_⟩
  · rw [written_run]
    exact Nat.zero_add _
  · rintro rfl
    have hemit := emit_run_unbuffered budget flushFails calls
    obtain ⟨n, hrun⟩ := run_unbuffered budget flushFails calls
    refine ⟨by rw [hrun]; rfl, hemit, ?_, ?_, ?_⟩
    · intro r e hfailed r' hok
      exact not_fits_of_failed hfailed ((hemit r').mp hok).of_append
    · rw [hrun, flush, drain_nil]
      cases flushFails <;> simp [Pipe.flush, given]
    · rw [hrun, intoPipe, drain_nil]
  · intro hroom
    have hrun : Conserves budget flushFails capacity calls
        ((new (.new budget flushFails) capacity).run calls) := run_conserves hroom
    obtain ⟨hturned, hinto⟩ := hrun.turnedIntoPipe
    refine ⟨fun r answer h => answer_buffered hroom h, ?_, ?_, hrun.flush.1, hinto, ?_⟩
    · intro r hline
      exact congrArg Prod.fst (hrun.emit hline).1
    · rw [hrun.pipe_eq]
      rfl
    · rw [hturned]
      rfl

/-- A hover text whose line has 122 bytes. -/
def shortHover : Record := .hover ⟨1, 7, 1, 10⟩ ⟨0⟩ "class Foo"

/-- The text is emitted twice, with a flush in between. -/
def shortRun : List Request := [.emit shortHover, .flush, .emit shortHover]

/-- Both lines together are beyond a budget of 200 bytes. Without a buffer the second line fails, and
the pipe is full; with one, the pipe holds the first line, the next flush fails, and the pipe is full
in the end. -/
theorem shortRun_keeps_bytes :
    (((new (.new (some 200) false) 0).run shortRun).pipe.taken = (emitted shortRun).take 200 ∧
      ((new (.new (some 200) false) 0).run shortRun).written = 1 ∧
      (((new (.new (some 200) false) 0).run [.emit shortHover, .flush]).emit shortHover).1 ≠
        .ok ()) ∧
    ((new (.new (some 200) false) 1000).run shortRun).pipe.taken = shortHover.line ∧
      ((new (.new (some 200) false) 1000).run shortRun).flush.1 ≠ .ok () ∧
      ((new (.new (some 200) false) 1000).run shortRun).turnedIntoPipe.taken =
        (emitted shortRun).take 200 := by
  have hlength : (emitted shortRun).length = 244 := by decide +kernel
  have hflushed : (flushed shortRun).take 200 = shortHover.line := by decide +kernel
  have hbeyond : ¬Fits (some 200) (emitted shortRun) := by
    rw [Fits, hlength]
    decide
  constructor
  · obtain ⟨hwritten, hunbuffered, -⟩ :=
      run_keeps_bytes (s := (new (.new (some 200) false) 0).run shortRun) rfl
    obtain ⟨-, hbefore, -⟩ :=
      run_keeps_bytes (s := (new (.new (some 200) false) 0).run [.emit shortHover, .flush]) rfl
    refine ⟨(hunbuffered rfl).1, hwritten.trans (by decide +kernel), fun hok => ?_⟩
    have hfits := ((hbefore rfl).2.1 shortHover).mp hok
    rw [← emitted_concat_emit] at hfits
    exact hbeyond hfits
  · obtain ⟨-, -, hbuffered⟩ :=
      run_keeps_bytes (s := (new (.new (some 200) false) 1000).run shortRun) rfl
    obtain ⟨-, -, htaken, hflush, -, hturned⟩ := hbuffered (by rw [hlength]; decide)
    exact ⟨htaken.trans hflushed, fun hok => hbeyond (hflush.mp hok).1, hturned⟩

end LineSink

end CodeNav
