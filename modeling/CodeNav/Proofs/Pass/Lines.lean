import CodeNav.Proofs.Lines
import CodeNav.Proofs.Pass.Refusal

/-!
# Passes into lines

A pass that writes lines leaves the lines of the records that a pass into memory keeps, cut off where
the pipe's budget ends, byte for byte (`lines_agree_with_memory`). That holds without a buffer, where
a line that does not fit ends the pass, and with a buffer for everything, where bytes reach the pipe
at the flush of a successful pass or when the destination is closed.
-/

namespace CodeNav

open Pipe

namespace File

variable {f : File} {config : Config} {budget : Option Nat} {flushFails : Bool} {capacity : Nat}

/-- The lines of the records that a pass keeps in memory. -/
def lines (f : File) (config : Config) : List UInt8 := Record.lines (f.delivered config)

/-- Without a buffer: a line that does not fit ends the pass. -/
theorem outcomeInto_unbuffered (f : File) (config : Config) (budget : Option Nat)
    (flushFails : Bool) :
    (f.outcomeInto config (LineSink.new (.new budget flushFails) 0)).2.close =
        given budget flushFails (f.lines config) ∧
      (f.outcomeInto config (LineSink.new (.new budget flushFails) 0)).1 =
        if Fits budget (f.lines config) then
          (f.result config).bind fun summary =>
            if flushFails then .error (.io .flushRefused) else .ok summary
        else .error (.io .readerGone) := by
  rw [outcomeInto, LineSink.new, new_eq_given]
  by_cases hfits : Fits budget (f.lines config)
  · have hdelivered : Fits budget ([] ++ Record.lines (f.delivered config)) := hfits
    rw [LineSink.deliver_unbuffered_of_fits hdelivered, if_pos hfits, List.nil_append]
    rcases f.result config with e | summary
    · exact ⟨by rw [LineSink.close_given, List.append_nil]; rfl, rfl⟩
    · have hflush : Fits budget (Record.lines (f.delivered config) ++ []) := by
        rwa [List.append_nil]
      simp only [LineSink.sink_flush]
      rw [LineSink.flush_of_fits hflush, LineSink.close_given, List.append_nil, List.append_nil]
      refine ⟨rfl, ?_⟩
      cases flushFails <;> rfl
  · have hdelivered : ¬Fits budget ([] ++ Record.lines (f.delivered config)) := hfits
    obtain ⟨m, hdeliver⟩ :=
      LineSink.deliver_unbuffered_of_not_fits flushFails 0 fits_nil hdelivered
    rw [hdeliver, if_neg hfits, List.nil_append]
    exact ⟨by rw [LineSink.close_given, List.append_nil]; rfl, rfl⟩

/-- With a buffer for everything: the pipe gets nothing before the pass ends. -/
theorem outcomeInto_buffered (f : File) (config : Config) (budget : Option Nat) (flushFails : Bool)
    (hcapacity : (f.lines config).length < capacity) :
    (f.outcomeInto config (LineSink.new (.new budget flushFails) capacity)).2.close =
        given budget flushFails (f.lines config) ∧
      (f.outcomeInto config (LineSink.new (.new budget flushFails) capacity)).1 =
        (f.result config).bind fun summary =>
          if Fits budget (f.lines config) then
            if flushFails then .error (.io .flushRefused) else .ok summary
          else .error (.io .readerGone) := by
  have hroom : ([] : List UInt8).length + (Record.lines (f.delivered config)).length < capacity := by
    rw [List.length_nil, Nat.zero_add]
    exact hcapacity
  rw [outcomeInto, LineSink.new, new_eq_given, LineSink.deliver_buffered hroom, List.nil_append]
  rcases f.result config with e | summary
  · exact ⟨LineSink.close_given, rfl⟩
  · simp only [LineSink.sink_flush]
    by_cases hfits : Fits budget (f.lines config)
    · have hflush : Fits budget ([] ++ Record.lines (f.delivered config)) := hfits
      rw [LineSink.flush_of_fits hflush, LineSink.close_given, List.append_nil, List.nil_append]
      refine ⟨rfl, ?_⟩
      show _ = if Fits budget (f.lines config) then _ else _
      rw [if_pos hfits]
      cases flushFails <;> rfl
    · -- the flush fails, and what it could not move is tried again when the destination is closed
      have hflush : ¬Fits budget ([] ++ Record.lines (f.delivered config)) := hfits
      obtain ⟨rest, hrun⟩ := LineSink.flush_of_not_fits flushFails capacity
        (0 + (f.delivered config).length) fits_nil hflush
      rw [hrun, LineSink.close_given, given_append_of_not_fits hflush]
      refine ⟨rfl, ?_⟩
      show _ = if Fits budget (f.lines config) then _ else _
      rw [if_neg hfits]
      rfl

/-- **Lines agree with memory.** Let a pass write lines, without a buffer or with one that has room
for all of them. When the destination is closed, its pipe holds the lines of the records that a pass
into memory keeps, as far as its budget goes. The pass ends as the pass into memory does, except that
a line that does not fit ends it at once without a buffer, and a successful pass at its flush with
one; and where all fits, a successful pass still fails if the pipe refuses to flush. -/
theorem lines_agree_with_memory (hf : f.tree.Grown) (config : Config) (budget : Option Nat)
    (flushFails : Bool) (hcapacity : capacity = 0 ∨ (f.lines config).length < capacity) :
    (f.index config (LineSink.new (.new budget flushFails) capacity)).2.sink.close.taken =
        firstOf budget (f.lines config) ∧
      (f.index config (LineSink.new (.new budget flushFails) capacity)).1 =
        match f.result config with
        | .error e =>
            if capacity = 0 ∧ ¬Fits budget (f.lines config) then .error (.io .readerGone)
            else .error e
        | .ok summary =>
            if ¬Fits budget (f.lines config) then .error (.io .readerGone)
            else if flushFails then .error (.io .flushRefused)
            else .ok summary := by
  have hindex := index_eq_outcomeInto hf.linked config (LineSink.new (.new budget flushFails) capacity)
  have hresult := congrArg Prod.fst hindex
  have hsink := congrArg Prod.snd hindex
  simp only at hresult hsink
  rw [hresult, hsink]
  rcases hcapacity with rfl | hcapacity
  · obtain ⟨hclose, hends⟩ := f.outcomeInto_unbuffered config budget flushFails
    rw [hclose, hends]
    refine ⟨rfl, ?_⟩
    by_cases hfits : Fits budget (f.lines config)
    · rcases f.result config with e | summary <;> simp [hfits, Except.bind]
    · rcases f.result config with e | summary <;> simp [hfits]
  · obtain ⟨hclose, hends⟩ := f.outcomeInto_buffered config budget flushFails hcapacity
    rw [hclose, hends]
    refine ⟨rfl, ?_⟩
    have hpos : capacity ≠ 0 := Nat.ne_of_gt (Nat.zero_lt_of_lt hcapacity)
    rcases f.result config with e | summary <;> simp [hpos, Except.bind]

def hoversOnly : Config := ⟨⟨false, false, true, false⟩, .default⟩

set_option maxRecDepth 10000 in
/-- The small file has one hover text, and its line has 145 bytes. Without a buffer, a budget of 100
bytes ends the pass there; with a buffer, the pass over the file with the nameless type still fails
for that reason; and a pipe with room for the line may refuse the flush. -/
theorem demo_lines_agree :
    ((demo.index hoversOnly (LineSink.new (.new (some 100) false) 0)).1 =
        .error (.io .readerGone) ∧
      (demo.index hoversOnly (LineSink.new (.new (some 100) false) 0)).2.sink.close.taken =
        (demo.lines hoversOnly).take 100) ∧
    ((brokenDemo.index hoversOnly (LineSink.new (.new (some 100) false) 200)).1 =
        .error (.missingName (.ofNat 8) .typeDecl) ∧
      (brokenDemo.index hoversOnly (LineSink.new (.new (some 100) false) 200)).2.sink.close.taken =
        (brokenDemo.lines hoversOnly).take 100) ∧
    ((demo.index hoversOnly (LineSink.new (.new (some 145) true) 0)).1 =
        .error (.io .flushRefused) ∧
      (demo.index hoversOnly (LineSink.new (.new (some 145) true) 0)).2.sink.close.taken =
        (demo.lines hoversOnly).take 145) := by
  have hlength : (demo.lines hoversOnly).length = 145 := by decide +kernel
  have hsame : brokenDemo.lines hoversOnly = demo.lines hoversOnly :=
    congrArg Record.lines
      (by decide +kernel : brokenDemo.delivered hoversOnly = demo.delivered hoversOnly)
  have hok : demo.result hoversOnly = .ok ⟨7, 2, ⟨0, 0, 1, 0, 0⟩⟩ := by rfl
  have hfails : brokenDemo.result hoversOnly = .error (.missingName (.ofNat 8) .typeDecl) := by rfl
  have hsmall : ¬Fits (some 100) (demo.lines hoversOnly) := by
    rw [Fits, hlength]
    decide
  have hlarge : Fits (some 145) (demo.lines hoversOnly) := Nat.le_of_eq hlength
  refine ⟨?_, ?_, ?_⟩
  · obtain ⟨htaken, hends⟩ :=
      lines_agree_with_memory demo_grown hoversOnly (some 100) false (Or.inl rfl)
    rw [hok] at hends
    exact ⟨hends.trans (if_pos hsmall), htaken⟩
  · have hroom : (brokenDemo.lines hoversOnly).length < 200 := by
      rw [hsame, hlength]
      decide
    obtain ⟨htaken, hends⟩ :=
      lines_agree_with_memory brokenDemo_grown hoversOnly (some 100) false (Or.inr hroom)
    rw [hfails] at hends
    exact ⟨hends.trans (if_neg (by simp)), htaken⟩
  · obtain ⟨htaken, hends⟩ :=
      lines_agree_with_memory demo_grown hoversOnly (some 145) true (Or.inl rfl)
    rw [hok] at hends
    exact ⟨hends.trans (if_neg (not_not_intro hlarge)), htaken⟩

end File

end CodeNav
