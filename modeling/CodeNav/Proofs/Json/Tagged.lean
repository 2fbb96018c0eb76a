import CodeNav.Json.Record
import CodeNav.Json.Symbol
import CodeNav.Proofs.Json.Decode

/-!
# Facts and symbols, written and decoded

A fact is decoded from its document (`Record.ofJsonText_text`) and a symbol from its own
(`Symbol.ofJsonText_text`), also where a document leaves out fields without a value. The fields behind
the tag are listed once (`Record.fields`, `Symbol.fields`); that they are plain, sound and what the
shape accepts is shown for each variant.
-/

namespace CodeNav

open Json (Plain Shape kept depthLimit)

/-! ## Ids and ranges -/

theorem SymbolId.ofJson_toJson (s : SymbolId) : ofJson s.toJson = .ok s := by
  show (Json.decodeWord (.ofNat s.index.toNat)).map _ = _
  rw [Json.decodeWord_ofNat]
  rfl

theorem SymbolId.plain_toJson (s : SymbolId) : Plain s.toJson := Json.plain_word s.index

theorem Span.ofJson_toJson (r : Span) : ofJson .asWhole r.toJson = .ok r := by
  refine Shape.decode_ofFields _ _ (by decide +kernel) (List.Sublist.refl _) ?_
  refine .seq (.seq (.seq (.map ?_ Span.mk) ?_) ?_) ?_
  · exact Shape.accepts_required (Or.inl rfl) rfl (Json.decodeWord_ofNat r.startLine)
  · exact Shape.accepts_required (Or.inl rfl) rfl (Json.decodeWord_ofNat r.startColumn)
  · exact Shape.accepts_required (Or.inl rfl) rfl (Json.decodeWord_ofNat r.endLine)
  · exact Shape.accepts_required (Or.inl rfl) rfl (Json.decodeWord_ofNat r.endColumn)

theorem Span.plain_toJson (r : Span) : Plain r.toJson := by
  refine .ofFields ?_
  simp [Json.plain_word]

/-! ## Facts -/

namespace Record

def fields : Record → List (String × Json)
  | definition range target symbol name =>
    [("range", range.toJson), ("target", target.toJson), ("symbol", symbol.toJson),
      ("name", .string name)]
  | reference range target symbol name isDeclaration =>
    [("range", range.toJson), ("target", .ofOption Span.toJson target), ("symbol", symbol.toJson),
      ("name", .string name), ("is_declaration", .bool isDeclaration)]
  | hover range symbol contents =>
    [("range", range.toJson), ("symbol", symbol.toJson), ("contents", .string contents)]
  | implementation range implementor implemented target =>
    [("range", range.toJson), ("implementor", .string implementor),
      ("implemented", .string implemented), ("target", .ofOption Span.toJson target)]

theorem toJson_eq (r : Record) :
    r.toJson = .ofFields (("fact", .string r.kind.name) :: r.fields) := by
  cases r <;> rfl

theorem plain_fields (r : Record) : ∀ f ∈ r.fields, Plain f.2 := by
  cases r <;>
    simp [fields, Span.plain_toJson, SymbolId.plain_toJson, Json.plain_ofOption, Plain.string,
      Plain.bool]

theorem isSound_fields (r : Record) : ∀ f ∈ r.fields, f.2.isSound (depthLimit - 1) = true := by
  have hspan : ∀ r : Span, r.toJson.isSound (depthLimit - 1) = true := fun r => rfl
  have hid : ∀ s : SymbolId, s.toJson.isSound (depthLimit - 1) = true := fun s => rfl
  cases r <;> simp [fields, hspan, hid, Json.isSound_ofOption hspan, Json.isSound]

theorem nodup_fields (r : Record) : (r.fields.map (·.1)).Nodup := by
  cases r <;> simp [fields]

theorem ofFields_kept (drop : String → Bool) (r : Record) :
    ofFields r.kind (.ofFields (kept drop r.fields)) = .ok r := by
  have hnodup := r.nodup_fields
  cases r with
  | definition range target symbol name =>
      rw [kind, ofFields]
      refine Shape.decode_kept rfl hnodup ?_
      intro get hget
      simp only [fields, List.forall_mem_cons] at hget
      obtain ⟨hrange, htarget, hsymbol, hname, -⟩ := hget
      refine .seq (.seq (.seq (.map ?_ definition) ?_) ?_) ?_
      · exact Shape.accepts_required hrange rfl range.ofJson_toJson
      · exact Shape.accepts_required htarget rfl target.ofJson_toJson
      · exact Shape.accepts_required hsymbol rfl symbol.ofJson_toJson
      · exact Shape.accepts_required hname rfl rfl
  | reference range target symbol name isDeclaration =>
      rw [kind, ofFields]
      refine Shape.decode_kept rfl hnodup ?_
      intro get hget
      simp only [fields, List.forall_mem_cons] at hget
      obtain ⟨hrange, htarget, hsymbol, hname, hdeclaration, -⟩ := hget
      refine .seq (.seq (.seq (.seq (.map ?_ reference) ?_) ?_) ?_) ?_
      · exact Shape.accepts_required hrange rfl range.ofJson_toJson
      · exact Shape.accepts_optional htarget (fun _ => rfl) Span.ofJson_toJson
      · exact Shape.accepts_required hsymbol rfl symbol.ofJson_toJson
      · exact Shape.accepts_required hname rfl rfl
      · exact Shape.accepts_required hdeclaration rfl rfl
  | hover range symbol contents =>
      rw [kind, ofFields]
      refine Shape.decode_kept rfl hnodup ?_
      intro get hget
      simp only [fields, List.forall_mem_cons] at hget
      obtain ⟨hrange, hsymbol, hcontents, -⟩ := hget
      refine .seq (.seq (.map ?_ hover) ?_) ?_
      · exact Shape.accepts_required hrange rfl range.ofJson_toJson
      · exact Shape.accepts_required hsymbol rfl symbol.ofJson_toJson
      · exact Shape.accepts_required hcontents rfl rfl
  | implementation range implementor implemented target =>
      rw [kind, ofFields]
      refine Shape.decode_kept rfl hnodup ?_
      intro get hget
      simp only [fields, List.forall_mem_cons] at hget
      obtain ⟨hrange, himplementor, himplemented, htarget, -⟩ := hget
      refine .seq (.seq (.seq (.map ?_ implementation) ?_) ?_) ?_
      · exact Shape.accepts_required hrange rfl range.ofJson_toJson
      · exact Shape.accepts_required himplementor rfl rfl
      · exact Shape.accepts_required himplemented rfl rfl
      · exact Shape.accepts_optional htarget (fun _ => rfl) Span.ofJson_toJson

theorem ofJson_withoutNulls (drop : String → Bool) (r : Record) :
    ofJson (r.toJson.withoutNulls drop) = .ok r := by
  have hkind : r.kind ∈ FactKind.all := by
    cases r.kind <;> decide
  have htag : "fact" ∉ r.fields.map (·.1) := by
    cases r <;> simp [fields]
  rw [toJson_eq, ofJson, Json.decodeTagged_withoutNulls drop (List.mem_map_of_mem hkind) htag
    r.isSound_fields, FactKind.ofName?_name]
  exact r.ofFields_kept drop

theorem plain_toJson (r : Record) : Plain r.toJson := by
  rw [toJson_eq]
  exact .ofFields (List.forall_mem_cons.mpr ⟨.string _, r.plain_fields⟩)

/-- **A fact is read back from its text,** whether its fields without a value are written or not. -/
theorem ofJsonText_text (drop : String → Bool) (r : Record) :
    ofJsonText (r.toJson.withoutNulls drop).text = .ok r :=
  Json.decodeText_text (r.plain_toJson.withoutNulls drop) (r.ofJson_withoutNulls drop)

end Record

/-! ## Symbols -/

theorem TypeKind.ofJson_keyword (k : TypeKind) : ofJson (.string k.keyword) = .ok k := by
  cases k <;> rfl

theorem SymbolId.decodeList_ofItems (ids : List SymbolId) :
    Json.decodeList ofJson (.ofItems (ids.map toJson)) = .ok ids :=
  Json.decodeItems_map ofJson_toJson ids

theorem SymbolId.plain_ofItems (ids : List SymbolId) : Plain (.ofItems (ids.map toJson)) := by
  refine .ofItems ?_
  simp [plain_toJson]

namespace Symbol

def fields : Symbol → List (String × Json)
  | type t =>
    [("qualified_name", .string t.qualifiedName), ("kind", .string t.kind.keyword),
      ("superclass", .ofOption SymbolId.toJson t.superclass),
      ("interfaces", .ofItems (t.interfaces.map SymbolId.toJson)),
      ("declaration", .ofOption Span.toJson t.declaration)]
  | method m =>
    [("name", .string m.name), ("declaring_type", .ofOption SymbolId.toJson m.declaringType),
      ("signature", .string m.signature), ("declaration", .ofOption Span.toJson m.declaration)]
  | var v =>
    [("name", .string v.name), ("type_name", .string v.typeName),
      ("declaring_type", .ofOption SymbolId.toJson v.declaringType),
      ("declaration", .ofOption Span.toJson v.declaration)]

theorem toJson_eq (b : Symbol) :
    b.toJson = .ofFields (("binding", .string b.sortName) :: b.fields) := by
  cases b <;> rfl

theorem plain_fields (b : Symbol) : ∀ f ∈ b.fields, Plain f.2 := by
  cases b <;>
    simp [fields, Json.plain_ofOption, Span.plain_toJson, SymbolId.plain_toJson,
      SymbolId.plain_ofItems, Plain.string]

theorem isSound_fields (b : Symbol) : ∀ f ∈ b.fields, f.2.isSound (depthLimit - 1) = true := by
  have hspan : ∀ r : Span, r.toJson.isSound (depthLimit - 1) = true := fun r => rfl
  have hid : ∀ s : SymbolId, s.toJson.isSound (depthLimit - 1) = true := fun s => rfl
  have hids : ∀ ids : List SymbolId,
      (Json.ofItems (ids.map SymbolId.toJson)).isSound (depthLimit - 1) = true := by
    intro ids
    show (true && true && Json.areSound _ (ids.map SymbolId.toJson)) = true
    rw [Json.areSound_map (fun _ => rfl) ids]
    rfl
  cases b <;> simp [fields, hids, Json.isSound_ofOption hspan, Json.isSound_ofOption hid, Json.isSound]

theorem nodup_fields (b : Symbol) : (b.fields.map (·.1)).Nodup := by
  cases b <;> simp [fields]

end Symbol

theorem TypeSymbol.decode_kept (drop : String → Bool) (expected : String) (t : TypeSymbol) :
    shape.decode .asWhole expected (.ofFields (kept drop (Symbol.type t).fields)) = .ok t := by
  refine Shape.decode_kept rfl (Symbol.type t).nodup_fields ?_
  intro get hget
  simp only [Symbol.fields, List.forall_mem_cons] at hget
  obtain ⟨hname, hkind, hsuperclass, hinterfaces, hdeclaration, -⟩ := hget
  refine .seq (.seq (.seq (.seq (.map ?_ TypeSymbol.mk) ?_) ?_) ?_) ?_
  · exact Shape.accepts_required hname rfl rfl
  · exact Shape.accepts_required hkind rfl t.kind.ofJson_keyword
  · exact Shape.accepts_optional hsuperclass (fun _ => rfl) SymbolId.ofJson_toJson
  · exact Shape.accepts_required hinterfaces rfl (SymbolId.decodeList_ofItems t.interfaces)
  · exact Shape.accepts_optional hdeclaration (fun _ => rfl) Span.ofJson_toJson

theorem MethodSymbol.decode_kept (drop : String → Bool) (expected : String) (m : MethodSymbol) :
    shape.decode .asWhole expected (.ofFields (kept drop (Symbol.method m).fields)) = .ok m := by
  refine Shape.decode_kept rfl (Symbol.method m).nodup_fields ?_
  intro get hget
  simp only [Symbol.fields, List.forall_mem_cons] at hget
  obtain ⟨hname, htype, hsignature, hdeclaration, -⟩ := hget
  refine .seq (.seq (.seq (.map ?_ MethodSymbol.mk) ?_) ?_) ?_
  · exact Shape.accepts_required hname rfl rfl
  · exact Shape.accepts_optional htype (fun _ => rfl) SymbolId.ofJson_toJson
  · exact Shape.accepts_required hsignature rfl rfl
  · exact Shape.accepts_optional hdeclaration (fun _ => rfl) Span.ofJson_toJson

theorem VariableSymbol.decode_kept (drop : String → Bool) (expected : String) (v : VariableSymbol) :
    shape.decode .asWhole expected (.ofFields (kept drop (Symbol.var v).fields)) = .ok v := by
  refine Shape.decode_kept rfl (Symbol.var v).nodup_fields ?_
  intro get hget
  simp only [Symbol.fields, List.forall_mem_cons] at hget
  obtain ⟨hname, hsort, htype, hdeclaration, -⟩ := hget
  refine .seq (.seq (.seq (.map ?_ VariableSymbol.mk) ?_) ?_) ?_
  · exact Shape.accepts_required hname rfl rfl
  · exact Shape.accepts_required hsort rfl rfl
  · exact Shape.accepts_optional htype (fun _ => rfl) SymbolId.ofJson_toJson
  · exact Shape.accepts_optional hdeclaration (fun _ => rfl) Span.ofJson_toJson

namespace Symbol

theorem ofJson_withoutNulls (drop : String → Bool) (b : Symbol) :
    ofJson (b.toJson.withoutNulls drop) = .ok b := by
  have hname : b.sortName ∈ sortNames := by
    cases b <;> simp [sortName, sortNames]
  have htag : "binding" ∉ b.fields.map (·.1) := by
    cases b <;> simp [fields]
  rw [toJson_eq, ofJson, Json.decodeTagged_withoutNulls drop hname htag b.isSound_fields]
  cases b with
  | type t =>
      rw [sortName, if_pos rfl, t.decode_kept]
      rfl
  | method m =>
      rw [sortName, if_neg (by decide), if_pos rfl, m.decode_kept]
      rfl
  | var v =>
      rw [sortName, if_neg (by decide), if_neg (by decide), v.decode_kept]
      rfl

theorem plain_toJson (b : Symbol) : Plain b.toJson := by
  rw [toJson_eq]
  exact .ofFields (List.forall_mem_cons.mpr ⟨.string _, b.plain_fields⟩)

/-- **A symbol is read back from its text,** whether its fields without a value are written or
not. -/
theorem ofJsonText_text (drop : String → Bool) (b : Symbol) :
    ofJsonText (b.toJson.withoutNulls drop).text = .ok b :=
  Json.decodeText_text (b.plain_toJson.withoutNulls drop) (b.ofJson_withoutNulls drop)

end Symbol

end CodeNav
