import CodeNav.Fact.Basic
import CodeNav.Json.Position

/-!
# Facts in JSON

A fact is an object with the tag `fact`, which names its kind, in front of its fields. Facts are
written one per line, in the compact form.
-/

namespace CodeNav.Record

open Json (Shape)

def toJson : Record → Json
  | definition range target symbol name =>
    .ofFields [("fact", .string FactKind.definition.name), ("range", range.toJson),
      ("target", target.toJson), ("symbol", symbol.toJson), ("name", .string name)]
  | reference range target symbol name isDeclaration =>
    .ofFields [("fact", .string FactKind.reference.name), ("range", range.toJson),
      ("target", .ofOption Span.toJson target), ("symbol", symbol.toJson),
      ("name", .string name), ("is_declaration", .bool isDeclaration)]
  | hover range symbol contents =>
    .ofFields [("fact", .string FactKind.hover.name), ("range", range.toJson),
      ("symbol", symbol.toJson), ("contents", .string contents)]
  | implementation range implementor implemented target =>
    .ofFields [("fact", .string FactKind.implementation.name), ("range", range.toJson),
      ("implementor", .string implementor), ("implemented", .string implemented),
      ("target", .ofOption Span.toJson target)]

/-- The text of a fact, without the end of its line. -/
def jsonText (r : Record) : String := r.toJson.text

private def rangeOf : Json → Except Json.Fault Span := Span.ofJson .asWhole

def definitionShape : Shape Record :=
  definition <$> .required "range" rangeOf <*> .required "target" rangeOf
    <*> .required "symbol" SymbolId.ofJson <*> .required "name" Json.decodeString

def referenceShape : Shape Record :=
  reference <$> .required "range" rangeOf <*> .optional "target" rangeOf
    <*> .required "symbol" SymbolId.ofJson <*> .required "name" Json.decodeString
    <*> .required "is_declaration" Json.decodeBool

def hoverShape : Shape Record :=
  hover <$> .required "range" rangeOf <*> .required "symbol" SymbolId.ofJson
    <*> .required "contents" Json.decodeString

def implementationShape : Shape Record :=
  implementation <$> .required "range" rangeOf <*> .required "implementor" Json.decodeString
    <*> .required "implemented" Json.decodeString <*> .optional "target" rangeOf

def ofFields : FactKind → Json → Except Json.Fault Record
  | .definition => definitionShape.decode .asWhole "struct variant IndexRecord::Definition"
  | .reference => referenceShape.decode .asWhole "struct variant IndexRecord::Reference"
  | .hover => hoverShape.decode .asWhole "struct variant IndexRecord::Hover"
  | .implementation =>
    implementationShape.decode .asWhole "struct variant IndexRecord::Implementation"

def ofJson : Json → Except Json.Fault Record :=
  Json.decodeTagged "fact" "internally tagged enum IndexRecord" (FactKind.all.map (·.name))
    fun name j =>
      match FactKind.ofName? name with
      | some k => ofFields k j
      | none => .error .malformed

def ofJsonText : String → Except Json.Fault Record := Json.decodeText ofJson

end CodeNav.Record
