import CodeNav.Proofs.Json.Pieces
import CodeNav.Proofs.Refusal

/-!
# Lines through a buffer into a pipe

A pipe that was given bytes holds the first of them, as many as its budget allows (`write_given`).
So what a line destination hands on is known from the bytes alone in two cases: nothing is buffered,
and then each piece reaches the pipe at once, or everything is, and then the pipe sees nothing before
a flush or the end. In both cases a line may as well be written as a whole (`writeAll_unbuffered`,
`writeAll_buffered`); with a buffer in between, where the pieces end decides what has reached the
pipe when a write fails. A pipe that takes everything ends up with all lines, whatever the buffer
(`deliver_unlimited`).
-/

namespace CodeNav

def Record.lines (rs : List Record) : List UInt8 := rs.flatMap Record.line

theorem Record.lines_cons (r : Record) (rs : List Record) :
    lines (r :: rs) = r.line ++ lines rs :=
  List.flatMap_cons

theorem Record.line_ne_nil (r : Record) : r.line ≠ [] := by
  intro h
  have hlength := congrArg List.length h
  simp [Record.line] at hlength

/-! ## Pipes -/

namespace Pipe

/-- The bytes that fit a budget, from the first on. -/
def firstOf : Option Nat → List UInt8 → List UInt8
  | none, bytes => bytes
  | some b, bytes => bytes.take b

def Fits : Option Nat → List UInt8 → Prop
  | none, _ => True
  | some b, bytes => bytes.length ≤ b

instance : ∀ budget bytes, Decidable (Fits budget bytes)
  | none, _ => inferInstanceAs (Decidable True)
  | some b, bytes => inferInstanceAs (Decidable (bytes.length ≤ b))

/-- The pipe that was given bytes, from its beginning on. -/
def given (budget : Option Nat) (flushFails : Bool) (bytes : List UInt8) : Pipe :=
  ⟨firstOf budget bytes, budget, flushFails⟩

variable {budget : Option Nat} {flushFails : Bool} {bytes more : List UInt8}

theorem new_eq_given : new budget flushFails = given budget flushFails [] := by
  cases budget with
  | none => rfl
  | some b => simp [new, given, firstOf]

theorem fits_nil : Fits budget [] := by
  cases budget with
  | none => trivial
  | some b => exact Nat.zero_le b

theorem Fits.of_append (h : Fits budget (bytes ++ more)) : Fits budget bytes := by
  cases budget with
  | none => trivial
  | some b =>
      rw [Fits, List.length_append] at h
      exact Nat.le_of_add_right_le h

theorem given_append_of_not_fits (h : ¬Fits budget bytes) :
    given budget flushFails (bytes ++ more) = given budget flushFails bytes := by
  cases budget with
  | none => exact absurd trivial h
  | some b =>
      rw [Fits, Nat.not_le] at h
      simp only [given, firstOf]
      rw [List.take_append_of_le_length (Nat.le_of_lt h)]

/-- **Writing to a pipe.** It holds the first bytes of all it was given. If it had taken everything
so far, then it takes all of the rest if that fits. -/
theorem write_given (budget : Option Nat) (flushFails : Bool) (bytes more : List UInt8) :
    ((given budget flushFails bytes).write more).1 = given budget flushFails (bytes ++ more) ∧
      (Fits budget bytes → (((given budget flushFails bytes).write more).2 = [] ↔
        Fits budget (bytes ++ more))) := by
  cases budget with
  | none => simp [write, given, firstOf, room, Fits]
  | some b =>
      have htake : more.take (min more.length (b - (bytes.take b).length)) =
          more.take (b - bytes.length) := by
        rw [List.length_take, List.take_eq_take_iff]
        omega
      constructor
      · simp only [write, given, firstOf, room]
        rw [htake, List.take_append]
      · intro hfits
        simp only [write, given, firstOf, room, Fits, List.drop_eq_nil_iff, List.length_append,
          List.length_take] at hfits ⊢
        omega

/-- A pipe takes all of some bytes if they fit behind everything that it was given. -/
theorem rest_eq_nil_iff (flushFails : Bool) (hmore : more ≠ []) :
    ((given budget flushFails bytes).write more).2 = [] ↔ Fits budget (bytes ++ more) := by
  by_cases hbytes : Fits budget bytes
  · exact (write_given budget flushFails bytes more).2 hbytes
  · -- the budget is used up, so there is no room for the first byte
    have hall : ¬Fits budget (bytes ++ more) := fun h => hbytes h.of_append
    cases budget with
    | none => exact absurd trivial hbytes
    | some b =>
        rw [Fits, Nat.not_le] at hbytes
        have hlength : (bytes.take b).length = b := List.length_take_of_le (Nat.le_of_lt hbytes)
        have hroom : (given (some b) flushFails bytes).room more.length = 0 := by
          simp [given, firstOf, room, hlength]
        simp only [write, hroom, List.drop_zero, hmore, hall]

end Pipe

namespace LineSink

open Pipe

variable {budget : Option Nat} {flushFails : Bool} {bytes buffer : List UInt8} {capacity n : Nat}
  {p : Pipe} {rs : List Record}

theorem sink_emit (s : LineSink) (r : Record) : Sink.emit s r = s.emit r := rfl

theorem sink_flush (s : LineSink) : Sink.flush s = s.flush := rfl

/-! ## Moving the buffer -/

theorem close_given :
    close ⟨given budget flushFails bytes, capacity, buffer, n⟩ =
      given budget flushFails (bytes ++ buffer) :=
  (write_given budget flushFails bytes buffer).1

theorem drain_nil (p : Pipe) (capacity n : Nat) :
    drain ⟨p, capacity, [], n⟩ = (.ok (), ⟨p, capacity, [], n⟩) := by
  simp [drain, Pipe.write]

theorem drain_of_fits (h : Fits budget (bytes ++ buffer)) :
    drain ⟨given budget flushFails bytes, capacity, buffer, n⟩ =
      (.ok (), ⟨given budget flushFails (bytes ++ buffer), capacity, [], n⟩) := by
  obtain ⟨htaken, hrest⟩ := write_given budget flushFails bytes buffer
  have hnil := (hrest h.of_append).mpr h
  simp only [drain, htaken, hnil, if_pos]

theorem drain_of_not_fits (flushFails : Bool) (capacity n : Nat) (hbytes : Fits budget bytes)
    (h : ¬Fits budget (bytes ++ buffer)) :
    ∃ rest, drain ⟨given budget flushFails bytes, capacity, buffer, n⟩ =
      (.error (.io .readerGone),
        ⟨given budget flushFails (bytes ++ buffer), capacity, rest, n⟩) := by
  obtain ⟨htaken, hrest⟩ := write_given budget flushFails bytes buffer
  have hne := fun hnil => h ((hrest hbytes).mp hnil)
  refine ⟨((given budget flushFails bytes).write buffer).2, ?_⟩
  simp only [drain, htaken, if_neg hne]

theorem flush_of_fits (h : Fits budget (bytes ++ buffer)) :
    flush ⟨given budget flushFails bytes, capacity, buffer, n⟩ =
      (if flushFails then .error (.io .flushRefused) else .ok (),
        ⟨given budget flushFails (bytes ++ buffer), capacity, [], n⟩) := by
  rw [flush, drain_of_fits h]
  rfl

theorem flush_of_not_fits (flushFails : Bool) (capacity n : Nat) (hbytes : Fits budget bytes)
    (h : ¬Fits budget (bytes ++ buffer)) :
    ∃ rest, flush ⟨given budget flushFails bytes, capacity, buffer, n⟩ =
      (.error (.io .readerGone),
        ⟨given budget flushFails (bytes ++ buffer), capacity, rest, n⟩) := by
  obtain ⟨rest, hdrain⟩ := drain_of_not_fits flushFails capacity n hbytes h
  exact ⟨rest, by rw [flush, hdrain]⟩

/-! ## Nothing is buffered -/

theorem write_unbuffered (hmore : more ≠ []) :
    write ⟨given budget flushFails bytes, 0, [], n⟩ more =
      (if Fits budget (bytes ++ more) then .ok () else .error (.io .readerGone),
        ⟨given budget flushFails (bytes ++ more), 0, [], n⟩) := by
  have htaken := (write_given budget flushFails bytes more).1
  have hrest : ((given budget flushFails bytes).write more).2 = [] ↔ Fits budget (bytes ++ more) :=
    rest_eq_nil_iff flushFails hmore
  rw [write, if_neg (by simp), drain_nil]
  simp only [Nat.zero_le, if_true, writeThrough, htaken, hrest]

theorem write_unbuffered_nil (p : Pipe) (n : Nat) :
    write ⟨p, 0, [], n⟩ [] = (.ok (), ⟨p, 0, [], n⟩) := by
  rw [write, if_neg (by simp), drain_nil]
  simp [writeThrough, Pipe.write]

/-- Without a buffer, bytes may be written in any pieces. -/
theorem writeAll_unbuffered {pieces : List (List UInt8)}
    (h : Fits budget bytes ∨ pieces.flatten ≠ []) :
    writeAll ⟨given budget flushFails bytes, 0, [], n⟩ pieces =
      (if Fits budget (bytes ++ pieces.flatten) then .ok () else .error (.io .readerGone),
        ⟨given budget flushFails (bytes ++ pieces.flatten), 0, [], n⟩) := by
  induction pieces generalizing bytes with
  | nil =>
      rw [List.flatten_nil, List.append_nil, if_pos (h.resolve_right (· rfl))]
      rfl
  | cons piece pieces ih =>
      rw [List.flatten_cons] at h ⊢
      by_cases hpiece : piece = []
      · subst hpiece
        rw [writeAll, write_unbuffered_nil]
        exact ih h
      · rw [writeAll, write_unbuffered hpiece, ← List.append_assoc]
        by_cases hfits : Fits budget (bytes ++ piece)
        · rw [if_pos hfits]
          exact ih (Or.inl hfits)
        · have hall : ¬Fits budget (bytes ++ piece ++ pieces.flatten) := fun h => hfits h.of_append
          rw [if_neg hfits, if_neg hall, given_append_of_not_fits hfits]

/-- A line fails unless it fits behind all that the pipe was given, fitting or not. -/
theorem emit_unbuffered (r : Record) :
    emit ⟨given budget flushFails bytes, 0, [], n⟩ r =
      if Fits budget (bytes ++ r.line) then
        (.ok (), ⟨given budget flushFails (bytes ++ r.line), 0, [], n + 1⟩)
      else (.error (.io .readerGone), ⟨given budget flushFails (bytes ++ r.line), 0, [], n⟩) := by
  have hline : r.pieces.flatten ≠ [] := by
    rw [r.flatten_pieces]
    exact r.line_ne_nil
  rw [emit, writeAll_unbuffered (Or.inr hline), r.flatten_pieces]
  by_cases h : Fits budget (bytes ++ r.line)
  · rw [if_pos h, if_pos h]
  · rw [if_neg h, if_neg h]

theorem deliver_unbuffered_of_fits (h : Fits budget (bytes ++ Record.lines rs)) :
    Sink.deliver (⟨given budget flushFails bytes, 0, [], n⟩ : LineSink) rs =
      (.ok (), ⟨given budget flushFails (bytes ++ Record.lines rs), 0, [], n + rs.length⟩) := by
  induction rs generalizing bytes n with
  | nil => simp [Sink.deliver, Record.lines]
  | cons r rs ih =>
      rw [Record.lines_cons, ← List.append_assoc] at h ⊢
      rw [Sink.deliver, sink_emit, emit_unbuffered, if_pos h.of_append]
      show Sink.deliver _ rs = _
      rw [ih h, List.length_cons, Nat.add_right_comm, Nat.add_assoc]

theorem deliver_unbuffered_of_not_fits (flushFails : Bool) (n : Nat) (hbytes : Fits budget bytes)
    (h : ¬Fits budget (bytes ++ Record.lines rs)) :
    ∃ m, Sink.deliver (⟨given budget flushFails bytes, 0, [], n⟩ : LineSink) rs =
      (.error (.io .readerGone),
        ⟨given budget flushFails (bytes ++ Record.lines rs), 0, [], m⟩) := by
  induction rs generalizing bytes n with
  | nil => exact absurd (by simpa [Record.lines] using hbytes) h
  | cons r rs ih =>
      rw [Record.lines_cons, ← List.append_assoc] at h ⊢
      rw [Sink.deliver, sink_emit, emit_unbuffered]
      by_cases hr : Fits budget (bytes ++ r.line)
      · rw [if_pos hr]
        exact ih (n + 1) hr h
      · rw [if_neg hr, given_append_of_not_fits hr]
        exact ⟨n, rfl⟩

/-! ## Everything is buffered -/

theorem write_buffered {more : List UInt8} (h : buffer.length + more.length < capacity) :
    write ⟨p, capacity, buffer, n⟩ more = (.ok (), ⟨p, capacity, buffer ++ more, n⟩) := by
  have hroom : more.length < capacity ∧ buffer.length + more.length ≤ capacity := by omega
  rw [write, if_pos hroom]

theorem writeAll_buffered {pieces : List (List UInt8)}
    (h : buffer.length + pieces.flatten.length < capacity) :
    writeAll ⟨p, capacity, buffer, n⟩ pieces =
      (.ok (), ⟨p, capacity, buffer ++ pieces.flatten, n⟩) := by
  induction pieces generalizing buffer with
  | nil => rw [writeAll, List.flatten_nil, List.append_nil]
  | cons piece pieces ih =>
      rw [List.flatten_cons, List.length_append] at h
      have hpiece : buffer.length + piece.length < capacity := by omega
      have hpieces : (buffer ++ piece).length + pieces.flatten.length < capacity := by
        rw [List.length_append]
        omega
      rw [writeAll, write_buffered hpiece, List.flatten_cons, ← List.append_assoc]
      exact ih hpieces

theorem emit_buffered {r : Record} (h : buffer.length + r.line.length < capacity) :
    emit ⟨p, capacity, buffer, n⟩ r = (.ok (), ⟨p, capacity, buffer ++ r.line, n + 1⟩) := by
  rw [← r.flatten_pieces] at h ⊢
  rw [emit, writeAll_buffered h]

theorem deliver_buffered (h : buffer.length + (Record.lines rs).length < capacity) :
    Sink.deliver (⟨p, capacity, buffer, n⟩ : LineSink) rs =
      (.ok (), ⟨p, capacity, buffer ++ Record.lines rs, n + rs.length⟩) := by
  induction rs generalizing buffer n with
  | nil => simp [Sink.deliver, Record.lines]
  | cons r rs ih =>
      rw [Record.lines_cons, List.length_append] at h
      have hr : buffer.length + r.line.length < capacity := by omega
      have hrs : (buffer ++ r.line).length + (Record.lines rs).length < capacity := by
        rw [List.length_append]
        omega
      rw [Sink.deliver, sink_emit, emit_buffered hr]
      show Sink.deliver _ rs = _
      rw [ih hrs, Record.lines_cons, List.append_assoc, List.length_cons, Nat.add_right_comm,
        Nat.add_assoc]

/-! ## Nothing is refused -/

/-- A pipe without a budget: bytes may stay in the buffer, but their order is kept. -/
theorem write_unlimited (s : LineSink) (hs : s.pipe = given none flushFails bytes)
    (more : List UInt8) :
    ∃ bytes' buffer', bytes' ++ buffer' = bytes ++ s.buffer ++ more ∧
      s.write more = (.ok (), ⟨given none flushFails bytes', s.capacity, buffer', s.written⟩) := by
  obtain ⟨pipe, capacity, buffer, n⟩ := s
  obtain rfl : pipe = _ := hs
  rw [write]
  split
  · exact ⟨bytes, buffer ++ more, (List.append_assoc _ _ _).symm, rfl⟩
  · have hfits : Fits none (bytes ++ buffer) := trivial
    rw [drain_of_fits hfits]
    simp only
    split
    · refine ⟨bytes ++ buffer ++ more, [], List.append_nil _, ?_⟩
      obtain ⟨htaken, hrest⟩ := write_given none flushFails (bytes ++ buffer) more
      have hnil := (hrest trivial).mpr trivial
      simp only [writeThrough, htaken, hnil, if_pos]
    · exact ⟨bytes ++ buffer, more, rfl, rfl⟩

theorem writeAll_unlimited (s : LineSink) (hs : s.pipe = given none flushFails bytes)
    (pieces : List (List UInt8)) :
    ∃ bytes' buffer', bytes' ++ buffer' = bytes ++ s.buffer ++ pieces.flatten ∧
      s.writeAll pieces =
        (.ok (), ⟨given none flushFails bytes', s.capacity, buffer', s.written⟩) := by
  induction pieces generalizing s bytes with
  | nil =>
      obtain ⟨pipe, capacity, buffer, n⟩ := s
      obtain rfl : pipe = _ := hs
      exact ⟨bytes, buffer, (List.append_nil _).symm, rfl⟩
  | cons piece pieces ih =>
      obtain ⟨bytes₁, buffer₁, hpiece, hwrite⟩ := write_unlimited s hs piece
      obtain ⟨bytes₂, buffer₂, hpieces, hrest⟩ :=
        ih ⟨given none flushFails bytes₁, s.capacity, buffer₁, s.written⟩ rfl
      refine ⟨bytes₂, buffer₂, ?_, ?_⟩
      · rw [hpieces, hpiece, List.flatten_cons, List.append_assoc]
      · rw [writeAll, hwrite]
        exact hrest

theorem deliver_unlimited (s : LineSink) (hs : s.pipe = given none flushFails bytes)
    (rs : List Record) :
    ∃ bytes' buffer', bytes' ++ buffer' = bytes ++ s.buffer ++ Record.lines rs ∧
      Sink.deliver s rs = (.ok (),
        ⟨given none flushFails bytes', s.capacity, buffer', s.written + rs.length⟩) := by
  induction rs generalizing s bytes with
  | nil =>
      obtain ⟨pipe, capacity, buffer, n⟩ := s
      obtain rfl : pipe = _ := hs
      exact ⟨bytes, buffer, by simp [Record.lines], rfl⟩
  | cons r rs ih =>
      obtain ⟨bytes₁, buffer₁, hline, hwrite⟩ := writeAll_unlimited s hs r.pieces
      obtain ⟨bytes₂, buffer₂, hlines, hdeliver⟩ :=
        ih ⟨given none flushFails bytes₁, s.capacity, buffer₁, s.written + 1⟩ rfl
      refine ⟨bytes₂, buffer₂, ?_, ?_⟩
      · rw [hlines, hline, r.flatten_pieces, Record.lines_cons, List.append_assoc]
      · rw [Sink.deliver, sink_emit, emit, hwrite]
        show Sink.deliver _ rs = _
        rw [hdeliver, List.length_cons, Nat.add_right_comm, Nat.add_assoc]

end LineSink

end CodeNav
