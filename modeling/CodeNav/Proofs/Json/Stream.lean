import CodeNav.Proofs.Json.Tagged
import CodeNav.Proofs.Lines

/-!
# Streams of lines

The text that a line destination writes for a list of facts is known, whatever its buffer
(`LineSink.textFor_eq`). A document holds no line break, so the text can be cut into the documents
that were written, and each of them says which fact it is: nothing is lost
(`LineSink.stream_lossless`).
-/

namespace CodeNav

/-! ## Documents on lines -/

namespace Json

def linesOf (vs : List Json) : String := String.ofList (vs.flatMap fun v => print v ++ ['\n'])

/-- A text cut behind each line break; what follows the last one is left aside. -/
def cutLines (text : String) : List String :=
  (text.toList.splitOn '\n').dropLast.map String.ofList

variable {vs : List Json}

theorem splitOn_linesOf (h : ∀ v ∈ vs, Plain v) :
    (linesOf vs).toList.splitOn '\n' = vs.map print ++ [[]] := by
  rw [linesOf, String.toList_ofList]
  induction vs with
  | nil => rfl
  | cons v vs ih =>
      obtain ⟨hv, hvs⟩ := List.forall_mem_cons.mp h
      rw [List.flatMap_cons, List.append_assoc, List.singleton_append,
        List.splitOn_append_cons_self_of_not_mem hv.newline_notMem, ih hvs]
      rfl

theorem cutLines_linesOf (h : ∀ v ∈ vs, Plain v) : cutLines (linesOf vs) = vs.map text := by
  rw [cutLines, splitOn_linesOf h, List.dropLast_concat, List.map_map]
  rfl

theorem count_linesOf (h : ∀ v ∈ vs, Plain v) : (linesOf vs).toList.count '\n' = vs.length := by
  rw [linesOf, String.toList_ofList]
  induction vs with
  | nil => rfl
  | cons v vs ih =>
      obtain ⟨hv, hvs⟩ := List.forall_mem_cons.mp h
      rw [List.flatMap_cons, List.count_append, List.count_append,
        List.count_eq_zero_of_not_mem hv.newline_notMem, ih hvs, List.length_cons]
      simp [Nat.add_comm]

end Json

/-! ## Bytes -/

theorem fromUTF8?_toUTF8 (s : String) :
    String.fromUTF8? ⟨s.toUTF8.data.toList.toArray⟩ = some s := by
  rw [Array.toArray_toList]
  exact dif_pos s.isValidUTF8

theorem Pipe.textOf_toUTF8 (s : String) : textOf s.toUTF8.data.toList = s := by
  have hrange : List.range 4 = 0 :: [1, 2, 3] := rfl
  rw [textOf, hrange, List.filterMap_cons_some (b := s)]
  · rfl
  · rw [Nat.sub_zero, List.take_length, fromUTF8?_toUTF8]
    rfl

namespace Record

def stream (rs : List Record) : String := Json.linesOf (rs.map toJson)

theorem stream_cons (r : Record) (rs : List Record) :
    stream (r :: rs) = r.jsonText ++ "\n" ++ stream rs := by
  rw [stream, Json.linesOf, List.map_cons, List.flatMap_cons, String.ofList_append,
    String.ofList_append]
  rfl

theorem lines_eq_stream (rs : List Record) : lines rs = (stream rs).toUTF8.data.toList := by
  induction rs with
  | nil => rfl
  | cons r rs ih =>
      rw [stream_cons, toUTF8_append, ← ih]
      rfl

theorem plain_of_mem_map (rs : List Record) : ∀ v ∈ rs.map toJson, Json.Plain v := by
  simp [plain_toJson]

theorem ofJsonText_cutLines (rs : List Record) :
    (Json.cutLines (stream rs)).map ofJsonText = rs.map .ok := by
  rw [stream, Json.cutLines_linesOf (plain_of_mem_map rs), List.map_map, List.map_map]
  apply List.map_congr_left
  intro r _
  have hread := ofJsonText_text (fun _ => false) r
  rwa [Json.withoutNulls_none] at hread

theorem stream_injective : Function.Injective stream := by
  intro rs rs' h
  have hcut := ofJsonText_cutLines rs
  rw [h, ofJsonText_cutLines rs'] at hcut
  exact (List.map_injective_iff.mpr fun _ _ => Except.ok.inj) hcut.symm

end Record

/-! ## What a destination writes -/

namespace LineSink

/-- The text that a destination writes for facts into a pipe that takes everything. -/
def textFor (capacity : Nat) (flushFails : Bool) (rs : List Record) : Except Fault String :=
  match Sink.deliver (new (.new none flushFails) capacity) rs with
  | (.ok (), s) => s.intoPipe.map Pipe.text
  | (.error e, _) => .error e

theorem textFor_eq (capacity : Nat) (flushFails : Bool) (rs : List Record) :
    textFor capacity flushFails rs = .ok (Record.stream rs) := by
  obtain ⟨bytes, buffer, hbytes, hdeliver⟩ :=
    deliver_unlimited (new (.new none flushFails) capacity) Pipe.new_eq_given rs
  have hfits : Pipe.Fits none (bytes ++ buffer) := trivial
  have hlines : bytes ++ buffer = Record.lines rs := hbytes
  rw [textFor, hdeliver]
  simp only
  rw [intoPipe, drain_of_fits hfits, hlines]
  show Except.ok (Pipe.textOf (Record.lines rs)) = _
  rw [Record.lines_eq_stream, Pipe.textOf_toUTF8]

/-- **A stream of lines loses nothing.** The text that a destination writes for facts has one line
break for each of them and ends with it; cut there, its lines are read back as these facts; and no
other list of facts has that text. A symbol is read back from its document in the same way, whether
fields without a value are written as null or left out, and the document is a single line. -/
theorem stream_lossless :
    (∀ (capacity : Nat) (flushFails : Bool) (rs : List Record), ∃ text,
      textFor capacity flushFails rs = .ok text ∧
      text.toList.count '\n' = rs.length ∧
      (text.toList.splitOn '\n').getLast? = some [] ∧
      (Json.cutLines text).map Record.ofJsonText = rs.map .ok ∧
      ∀ (capacity' : Nat) (flushFails' : Bool) (rs' : List Record),
        textFor capacity' flushFails' rs' = .ok text → rs' = rs) ∧
    ∀ (drop : String → Bool) (b : Symbol),
      '\n' ∉ (b.toJson.withoutNulls drop).text.toList ∧
      Symbol.ofJsonText (b.toJson.withoutNulls drop).text = .ok b := by
  constructor
  · intro capacity flushFails rs
    have hplain := Record.plain_of_mem_map rs
    refine ⟨Record.stream rs, textFor_eq capacity flushFails rs, ?_, ?_,
      Record.ofJsonText_cutLines rs, ?_⟩
    · rw [Record.stream, Json.count_linesOf hplain, List.length_map]
    · rw [Record.stream, Json.splitOn_linesOf hplain, List.getLast?_concat]
    · intro capacity' flushFails' rs' h
      rw [textFor_eq] at h
      exact Record.stream_injective (Except.ok.inj h)
  · intro drop b
    constructor
    · rw [Json.text, String.toList_ofList]
      exact (b.plain_toJson.withoutNulls drop).newline_notMem
    · exact b.ofJsonText_text drop

end LineSink

end CodeNav
