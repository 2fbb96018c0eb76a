import CodeNav.Sink.Lines
import Mathlib.Data.List.SplitBy

/-!
# Documents in pieces

The pieces in which a document is written make up its compact form (`flatten_pieces`), so those of a
fact make up its line (`Record.flatten_pieces`).
-/

namespace CodeNav

namespace Json

/-! ## Characters -/

theorem flatten_quotePieces (s : List Char) : (quotePieces s).flatten = quote s := by
  have hcontent : ((s.splitBy fun a b => isVerbatim a && isVerbatim b).map
      (·.flatMap escapeChar)).flatten = s.flatMap escapeChar := by
    rw [← List.flatMap_def, ← List.flatMap_assoc, List.flatMap_id', List.flatten_splitBy]
  rw [quotePieces, List.flatten_append, List.flatten_cons, hcontent, quote]
  rfl

mutual

theorem flatten_pieces : ∀ j : Json, j.pieces.flatten = j.print
  | null | bool _ | number _ | halfPair | broken => List.append_nil _
  | string s => flatten_quotePieces s.toList
  | array items _ => congrArg ('[' :: ·) (flatten_itemPieces items)
  | object fields _ => congrArg ('{' :: ·) (flatten_fieldPieces fields)

theorem flatten_itemPieces : ∀ items : List Json, (itemPieces items).flatten = printItems items
  | [] => rfl
  | [v] => by simp [itemPieces, printItems, flatten_pieces v]
  | v :: w :: rest => by
      simp [itemPieces, printItems, flatten_pieces v, flatten_itemPieces (w :: rest)]

theorem flatten_fieldPieces :
    ∀ fields : List (Option String × Json), (fieldPieces fields).flatten = printFields fields
  | [] => rfl
  | [(k, v)] => by simp [fieldPieces, printFields, flatten_quotePieces, flatten_pieces v]
  | (k, v) :: f :: rest => by
      simp [fieldPieces, printFields, flatten_quotePieces, flatten_pieces v,
        flatten_fieldPieces (f :: rest)]

end

end Json

/-! ## Bytes -/

theorem toUTF8_append (s t : String) :
    (s ++ t).toUTF8.data.toList = s.toUTF8.data.toList ++ t.toUTF8.data.toList := by
  show (s ++ t).toByteArray.data.toList = s.toByteArray.data.toList ++ t.toByteArray.data.toList
  rw [String.toByteArray_append, ByteArray.data_append, Array.toList_append]

theorem flatten_map_toUTF8 (pieces : List (List Char)) :
    (pieces.map fun cs => (String.ofList cs).toUTF8.data.toList).flatten =
      (String.ofList pieces.flatten).toUTF8.data.toList := by
  induction pieces with
  | nil => rfl
  | cons cs pieces ih =>
      rw [List.map_cons, List.flatten_cons, List.flatten_cons, ih, String.ofList_append,
        toUTF8_append]

theorem Record.flatten_pieces (r : Record) : r.pieces.flatten = r.line := by
  rw [pieces, flatten_map_toUTF8, List.flatten_append, Json.flatten_pieces, List.flatten_singleton,
    String.ofList_append]
  rfl

end CodeNav
