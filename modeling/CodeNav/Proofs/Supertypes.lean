import CodeNav.Proofs.Extraction
import CodeNav.Proofs.Pass.Declared

/-!
# The supertypes of a type, told twice

A type declaration tells its supertypes in two ways: as edges, one for each supertype that the table
knows, and as the words behind the name of the type in its hover text. The edges go through superclass
and interfaces as one list, the text through each of them on its own. Both name the known supertypes
of that list in its order (`supertypeNames`), so the text can be read off the names on the edges
(`hover_tells_edges`).
-/

namespace CodeNav

def Record.implemented? : Record → Option String
  | .implementation _ _ implemented _ => some implemented
  | _ => none

namespace Extraction

variable {t : Tree} {table : SymbolTable} {options : HoverOptions} {ty : TypeSymbol}

/-- The names of the supertypes that the table knows, the superclass first. -/
def supertypeNames (table : SymbolTable) (ty : TypeSymbol) : List String :=
  ty.supertypes.filterMap table.typeName?

/-- The superclass is there, and it is a type that the table knows. -/
def KnowsSuperclass (table : SymbolTable) (ty : TypeSymbol) : Prop :=
  ∃ s super, ty.superclass = some s ∧ table.type? s = some super

/-- Names behind a word; without names, nothing. -/
def listed (word : String) : List String → String
  | [] => ""
  | name :: names => word ++ ", ".intercalate (name :: names)

/-! ## Edges -/

theorem implementation_eq {d i : Node} {x : SymbolId} (hident : t.identifier d = .ok i)
    (hin : t.inTypeDecl i = true) (hbound : table.resolveNamed? d i = some (x, .type ty)) :
    implementation t table d = implementationEdges table i.span ty ty.supertypes := by
  have hnamed : (Script.ofExcept (.ok i) : Script Record Node) = pure i := rfl
  rw [implementation, hident, hnamed, pure_bind, if_pos hin, hbound]
  rfl

theorem implemented?_edge? (table : SymbolTable) (range : Span) (ty : TypeSymbol) (s : SymbolId) :
    (edge? table range ty s).bind Record.implemented? = table.typeName? s := by
  rw [edge?, SymbolTable.typeName?]
  cases table.type? s <;> rfl

/-- Edges name the known supertypes, and there is nothing but edges. -/
theorem implemented_implementationEdges (table : SymbolTable) (range : Span) (ty : TypeSymbol) :
    (implementationEdges table range ty ty.supertypes).offers.map Record.implemented? =
      (supertypeNames table ty).map some := by
  rw [(implementationEdges_spec _ _ _ _).2, supertypeNames, List.map_filterMap, List.map_filterMap]
  refine List.filterMap_congr fun s _ => ?_
  rw [← implemented?_edge? table range ty s, edge?]
  cases table.type? s <;> rfl

/-! ## Text -/

theorem supertypeNames_eq (table : SymbolTable) (ty : TypeSymbol) :
    supertypeNames table ty =
      (ty.superclass.bind table.typeName?).toList ++ ty.interfaces.filterMap table.typeName? := by
  rw [supertypeNames, TypeSymbol.supertypes, List.filterMap_append]
  congr 1
  cases ty.superclass with
  | none => rfl
  | some s => cases h : table.typeName? s <;> simp [h]

theorem knowsSuperclass_iff :
    KnowsSuperclass table ty ↔ (ty.superclass.bind table.typeName?).isSome = true := by
  rw [KnowsSuperclass]
  cases ty.superclass with
  | none => simp
  | some s => simp [SymbolTable.typeName?, Option.isSome_iff_exists]

theorem listed_eq (word : String) (names : List String) :
    (if names.isEmpty then "" else word ++ ", ".intercalate names) = listed word names := by
  cases names <;> rfl

/-- The clause of a known superclass takes the first of the names, and the interfaces are listed
from the rest. -/
theorem supertypesClause_of_known (hknown : KnowsSuperclass table ty) :
    ∃ first rest, supertypeNames table ty = first :: rest ∧
      supertypesClause table ty = " extends " ++ first ++ listed (interfacesWord ty.kind) rest := by
  obtain ⟨first, hfirst⟩ := Option.isSome_iff_exists.mp (knowsSuperclass_iff.mp hknown)
  refine ⟨first, ty.interfaces.filterMap table.typeName?, ?_, ?_⟩
  · rw [supertypeNames_eq, hfirst]
    rfl
  · rw [supertypesClause, listed_eq, hfirst]
    rfl

/-- Without a known superclass, all of the names are interfaces. -/
theorem supertypesClause_of_unknown (hunknown : ¬ KnowsSuperclass table ty) :
    supertypesClause table ty = listed (interfacesWord ty.kind) (supertypeNames table ty) := by
  have hnone : ty.superclass.bind table.typeName? = none :=
    Option.not_isSome_iff_eq_none.mp fun h => hunknown (knowsSuperclass_iff.mpr h)
  rw [supertypesClause, listed_eq, supertypeNames_eq, hnone]
  exact String.empty_append

theorem hover_eq {d i : Node} {x : SymbolId} {b : Symbol} (hident : t.identifier d = .ok i)
    (hbound : table.resolveNamed? d i = some (x, b)) :
    hover t table options d = .offer (.hover i.span x (render table options b)) := by
  have hnamed : (Script.ofExcept (.ok i) : Script Record Node) = pure i := rfl
  rw [hover, hident, hnamed, pure_bind, hbound]

/-! ## Both -/

/-- **Text and edges tell the same supertypes.** Let a name in a type declaration be bound to a type,
with any superclass and interfaces. Its edges are offered, and nothing else; they name the known
supertypes in order. Wherever the same type has a hover text that shows supertypes, the text is the
type itself, then the first of these names if the superclass is known, then the other names as
interfaces. -/
theorem hover_tells_edges {d i h j : Node} {x y : SymbolId} (hshow : options.showSupertypes = true)
    (hident : t.identifier d = .ok i) (hin : t.inTypeDecl i = true)
    (hbound : table.resolveNamed? d i = some (x, .type ty))
    (hident' : t.identifier h = .ok j) (hbound' : table.resolveNamed? h j = some (y, .type ty)) :
    (implementation t table d).result = .ok () ∧
      ∃ names text,
        (implementation t table d).offers.map Record.implemented? = names.map some ∧
        names = ty.supertypes.filterMap table.typeName? ∧
        hover t table options h = .offer (.hover j.span y text) ∧
        (KnowsSuperclass table ty → ∃ first rest, names = first :: rest ∧
          text = ty.kind.keyword ++ " " ++ ty.qualifiedName ++ " extends " ++ first ++
            listed (if ty.kind = .interfaceType then " extends " else " implements ") rest) ∧
        (¬ KnowsSuperclass table ty →
          text = ty.kind.keyword ++ " " ++ ty.qualifiedName ++
            listed (if ty.kind = .interfaceType then " extends " else " implements ") names) := by
  have hword : interfacesWord ty.kind =
      if ty.kind = .interfaceType then " extends " else " implements " := by
    cases ty.kind <;> rfl
  have htext : render table options (.type ty) =
      ty.kind.keyword ++ " " ++ ty.qualifiedName ++ supertypesClause table ty := by
    rw [render, renderType, if_pos hshow]
  have hedges := implementation_eq hident hin hbound
  constructor
  · rw [hedges]
    exact (implementationEdges_spec _ _ _ _).1
  · refine ⟨supertypeNames table ty, render table options (.type ty), ?_, rfl,
      hover_eq hident' hbound', ?_, ?_⟩
    · rw [hedges]
      exact implemented_implementationEdges table i.span ty
    · intro hknown
      obtain ⟨first, rest, hnames, hclause⟩ := supertypesClause_of_known hknown
      refine ⟨first, rest, hnames, ?_⟩
      rw [htext, hclause, hword]
      simp only [String.append_assoc]
    · intro hunknown
      rw [htext, supertypesClause_of_unknown hunknown, hword]

/-- The table of the small file, where `Foo` lists interfaces: a method, an id of nothing, itself,
and its superclass once more. -/
def tangledTable : SymbolTable :=
  { File.demoTable with
    symbols := File.demoTable.symbols.set! 0
      (.type ⟨"demo.Foo", .classType, some ⟨3⟩, [⟨1⟩, ⟨9⟩, ⟨0⟩, ⟨3⟩],
        some (File.demoSpan 1 7)⟩) }

set_option maxRecDepth 10000 in
/-- Of these, the text and the edges tell `Foo` and `Base`. -/
theorem tangledTable_hover_tells_edges :
    ∃ names text,
      (implementation File.demo.tree tangledTable
        ⟨⟨2⟩, .simpleName, some ⟨1⟩, [], some "Foo", File.demoSpan 1 7⟩).offers.map
          Record.implemented? = names.map some ∧
      names = ["demo.Base", "demo.Foo", "demo.Base"] ∧
      hover File.demo.tree tangledTable ⟨true⟩
        ⟨⟨1⟩, .typeDecl, some ⟨0⟩, [⟨2⟩, ⟨3⟩], none, File.demoSpan 1 2⟩ =
          .offer (.hover (File.demoSpan 1 7) ⟨0⟩ text) ∧
      text = "class demo.Foo extends demo.Base implements demo.Foo, demo.Base" := by
  let foo : TypeSymbol := ⟨"demo.Foo", .classType, some ⟨3⟩, [⟨1⟩, ⟨9⟩, ⟨0⟩, ⟨3⟩],
    some (File.demoSpan 1 7)⟩
  let i : Node := ⟨⟨2⟩, .simpleName, some ⟨1⟩, [], some "Foo", File.demoSpan 1 7⟩
  let d : Node := ⟨⟨1⟩, .typeDecl, some ⟨0⟩, [⟨2⟩, ⟨3⟩], none, File.demoSpan 1 2⟩
  have hknown : KnowsSuperclass tangledTable foo := ⟨⟨3⟩, _, rfl, rfl⟩
  have hself : File.demo.tree.identifier i = .ok i := by
    rfl
  have hin : File.demo.tree.inTypeDecl i = true := by
    rfl
  have hbound : tangledTable.resolveNamed? i i = some (⟨0⟩, .type foo) := by
    rfl
  have hident : File.demo.tree.identifier d = .ok i := by
    rfl
  have hbound' : tangledTable.resolveNamed? d i = some (⟨0⟩, .type foo) := by
    rfl
  obtain ⟨-, names, text, hedges, hnames, hhover, hextends, -⟩ :=
    hover_tells_edges rfl hself hin hbound hident hbound'
  have hnames : names = ["demo.Base", "demo.Foo", "demo.Base"] := hnames.trans (by decide +kernel)
  obtain ⟨first, rest, hsplit, htext⟩ := hextends hknown
  obtain ⟨rfl, rfl⟩ := List.cons.inj (hsplit.symm.trans hnames)
  exact ⟨names, text, hedges, hnames, hhover, htext.trans (by decide +kernel)⟩

end Extraction

end CodeNav
