import CodeNav.Json.Position
import CodeNav.Symbol.Basic

/-!
# Symbols in JSON

A symbol is an object with the tag `binding`, which names its sort, in front of its fields.
-/

namespace CodeNav

open Json (Shape)

private def declarationOf : Json → Except Json.Fault Span := Span.ofJson .asWhole

namespace TypeKind

def ofJson (j : Json) : Except Json.Fault TypeKind := do
  let name ← Json.decodeName (all.map keyword) j
  match ofKeyword? name with
  | some k => .ok k
  | none => .error .malformed

end TypeKind

def TypeSymbol.shape : Shape TypeSymbol :=
  TypeSymbol.mk <$> .required "qualified_name" Json.decodeString
    <*> .required "kind" TypeKind.ofJson <*> .optional "superclass" SymbolId.ofJson
    <*> .required "interfaces" (Json.decodeList SymbolId.ofJson)
    <*> .optional "declaration" declarationOf

def MethodSymbol.shape : Shape MethodSymbol :=
  MethodSymbol.mk <$> .required "name" Json.decodeString
    <*> .optional "declaring_type" SymbolId.ofJson <*> .required "signature" Json.decodeString
    <*> .optional "declaration" declarationOf

def VariableSymbol.shape : Shape VariableSymbol :=
  VariableSymbol.mk <$> .required "name" Json.decodeString
    <*> .required "type_name" Json.decodeString <*> .optional "declaring_type" SymbolId.ofJson
    <*> .optional "declaration" declarationOf

namespace Symbol

def sortName : Symbol → String
  | type _ => "type"
  | method _ => "method"
  | var _ => "variable"

def sortNames : List String := ["type", "method", "variable"]

def toJson (b : Symbol) : Json :=
  .ofFields (("binding", .string b.sortName) ::
    match b with
    | type t =>
      [("qualified_name", .string t.qualifiedName), ("kind", .string t.kind.keyword),
        ("superclass", .ofOption SymbolId.toJson t.superclass),
        ("interfaces", .ofItems (t.interfaces.map SymbolId.toJson)),
        ("declaration", .ofOption Span.toJson t.declaration)]
    | method m =>
      [("name", .string m.name), ("declaring_type", .ofOption SymbolId.toJson m.declaringType),
        ("signature", .string m.signature),
        ("declaration", .ofOption Span.toJson m.declaration)]
    | var v =>
      [("name", .string v.name), ("type_name", .string v.typeName),
        ("declaring_type", .ofOption SymbolId.toJson v.declaringType),
        ("declaration", .ofOption Span.toJson v.declaration)])

def ofJson : Json → Except Json.Fault Symbol :=
  Json.decodeTagged "binding" "internally tagged enum Binding" sortNames fun name j =>
    if name = "type" then
      (TypeSymbol.shape.decode .asWhole "struct TypeBinding" j).map type
    else if name = "method" then
      (MethodSymbol.shape.decode .asWhole "struct MethodBinding" j).map method
    else (VariableSymbol.shape.decode .asWhole "struct VariableBinding" j).map var

def ofJsonText : String → Except Json.Fault Symbol := Json.decodeText ofJson

end Symbol

end CodeNav
