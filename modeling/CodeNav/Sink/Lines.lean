import CodeNav.Json.Record
import CodeNav.Sink.Basic
import CodeNav.Sink.Pipe

/-!
# JSON Lines

A destination that writes each fact as a line of compact JSON, piece by piece, through a buffer into
a pipe. Bytes reach the pipe when the buffer has no room for a piece, when the destination is
flushed, and when it is closed; with a buffer of capacity zero they reach it at once. What the pipe
did not take of the buffer stays there, and so does what was written of a line before a piece failed.
-/

namespace CodeNav

def Record.line (r : Record) : List UInt8 := (r.jsonText ++ "\n").toUTF8.data.toList

/-- The pieces in which the line of a fact is written, in bytes. -/
def Record.pieces (r : Record) : List (List UInt8) :=
  (r.toJson.pieces ++ [['\n']]).map fun cs => (String.ofList cs).toUTF8.data.toList

/-- A pipe behind a buffer, and how many records were written. -/
structure LineSink where
  pipe : Pipe
  capacity : Nat
  buffer : List UInt8
  written : Nat
deriving DecidableEq

namespace LineSink

def defaultCapacity : Nat := 8192

def new (pipe : Pipe) (capacity : Nat) : LineSink := ⟨pipe, capacity, [], 0⟩

/-- Moves the buffer into the pipe, as far as the pipe takes it. -/
def drain (s : LineSink) : Except Fault Unit × LineSink :=
  let (pipe, rest) := s.pipe.write s.buffer
  (if rest = [] then .ok () else .error (.io .readerGone), { s with pipe := pipe, buffer := rest })

def writeThrough (s : LineSink) (bytes : List UInt8) : Except Fault Unit × LineSink :=
  let (pipe, rest) := s.pipe.write bytes
  (if rest = [] then .ok () else .error (.io .readerGone), { s with pipe := pipe })

/-- Writes bytes. They are buffered if there is room, otherwise the buffer is moved first; bytes
that fill a whole buffer are not buffered. -/
def write (s : LineSink) (bytes : List UInt8) : Except Fault Unit × LineSink :=
  if bytes.length < s.capacity ∧ s.buffer.length + bytes.length ≤ s.capacity then
    (.ok (), { s with buffer := s.buffer ++ bytes })
  else
    match s.drain with
    | (.error e, s') => (.error e, s')
    | (.ok (), s') =>
      if s.capacity ≤ bytes.length then s'.writeThrough bytes
      else (.ok (), { s' with buffer := bytes })

/-- Writes pieces one after the other, up to the first that fails. -/
def writeAll (s : LineSink) : List (List UInt8) → Except Fault Unit × LineSink
  | [] => (.ok (), s)
  | piece :: pieces =>
    match s.write piece with
    | (.ok (), s') => writeAll s' pieces
    | (.error e, s') => (.error e, s')

/-- Writes the line of a fact, which counts if nothing failed. -/
def emit (s : LineSink) (r : Record) : Except Fault Unit × LineSink :=
  match s.writeAll r.pieces with
  | (.ok (), s') => (.ok (), { s' with written := s'.written + 1 })
  | (.error e, s') => (.error e, s')

/-- Moves the buffer into the pipe, and flushes the pipe if it took everything. -/
def flush (s : LineSink) : Except Fault Unit × LineSink :=
  match s.drain with
  | (.ok (), s') => (s'.pipe.flush, s')
  | (.error e, s') => (.error e, s')

instance : Sink LineSink := ⟨emit, flush⟩

/-- The pipe behind the destination, once it has taken the buffer. -/
def intoPipe (s : LineSink) : Except Fault Pipe :=
  match s.drain with
  | (.ok (), s') => .ok s'.pipe
  | (.error e, _) => .error e

/-- The pipe as it is left when the destination is given up: the buffer is moved as far as it
goes. -/
def close (s : LineSink) : Pipe := s.drain.2.pipe

end LineSink

end CodeNav
