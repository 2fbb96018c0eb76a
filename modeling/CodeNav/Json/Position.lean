import CodeNav.Json.Decode
import CodeNav.Json.Print
import CodeNav.Span

/-!
# Ids and ranges in JSON

Ids are numbers; a range is an object of its four positions. The order of a range's ends is not
checked on the way in.
-/

namespace CodeNav

open Json (Shape)

namespace NodeId

def toJson (n : NodeId) : Json := .ofNat n.toNat

def ofJson (j : Json) : Except Json.Fault NodeId := (Json.decodeWord j).map (⟨·⟩)

end NodeId

namespace SymbolId

def toJson (s : SymbolId) : Json := .ofNat s.toNat

def ofJson (j : Json) : Except Json.Fault SymbolId := (Json.decodeWord j).map (⟨·⟩)

end SymbolId

namespace Span

def toJson (r : Span) : Json :=
  .ofFields [("start_line", .ofNat r.startLine.toNat), ("start_column", .ofNat r.startColumn.toNat),
    ("end_line", .ofNat r.endLine.toNat), ("end_column", .ofNat r.endColumn.toNat)]

def shape : Shape Span :=
  Span.mk <$> .required "start_line" Json.decodeWord <*> .required "start_column" Json.decodeWord
    <*> .required "end_line" Json.decodeWord <*> .required "end_column" Json.decodeWord

def ofJson (mode : Shape.Mode) : Json → Except Json.Fault Span := shape.decode mode "struct Span"

end Span

end CodeNav
