import CodeNav.Proofs.Pass.Refusal
import CodeNav.Proofs.Pass.Toggles

/-!
# Hover text does not matter

How hover text is told decides which text a hover record carries, and nothing else. Leaving out
repetitions compares whole records, text included; yet in one pass the text is a function of the
symbol, so other options rename the hover records without making two of them one or one of them two
(`Record.retold_retold`). Hence two passes whose options differ offer the same records up to that
renaming, hold back the same repetitions and end in the same way (`result_congr`,
`delivered_eq_map_retold`); and supertypes only add to the text of types
(`supertypes_only_lengthen`).
-/

namespace CodeNav

open Extraction

/-! ## Hover text told in other ways -/

section Records

variable {table : SymbolTable} {options options' : HoverOptions} {r : Record}

/-- A record as other options tell it: the text of a hover is rendered anew from its symbol. -/
def Record.retold (table : SymbolTable) (options : HoverOptions) : Record → Record
  | .hover range s contents =>
      .hover range s (((table.symbol? s).map (render table options)).getD contents)
  | r => r

/-- The text of a hover is what the options tell of its symbol. -/
def Record.IsToldBy (table : SymbolTable) (options : HoverOptions) : Record → Prop
  | .hover _ s contents => ∃ b, table.symbol? s = some b ∧ contents = render table options b
  | _ => True

theorem Record.retold_hover {s : SymbolId} {b : Symbol} (hs : table.symbol? s = some b)
    (options : HoverOptions) (range : Span) (contents : String) :
    (Record.hover range s contents).retold table options =
      .hover range s (render table options b) := by
  rw [retold, hs]
  rfl

theorem Record.retold_of_kind_ne (hkind : r.kind ≠ .hover) : r.retold table options = r := by
  cases r with
  | definition => rfl
  | reference => rfl
  | hover => exact absurd rfl hkind
  | implementation => rfl

theorem Record.isToldBy_of_kind_ne (hkind : r.kind ≠ .hover) : r.IsToldBy table options := by
  cases r with
  | definition => trivial
  | reference => trivial
  | hover => exact absurd rfl hkind
  | implementation => trivial

@[simp] theorem Record.kind_retold (r : Record) : (r.retold table options).kind = r.kind := by
  cases r <;> rfl

/-- Telling a record in another way can be undone, so records that differ still differ. -/
theorem Record.retold_retold (h : r.IsToldBy table options) :
    (r.retold table options').retold table options = r := by
  cases r with
  | definition => rfl
  | reference => rfl
  | hover range s contents =>
      obtain ⟨b, hs, rfl⟩ := h
      rw [retold_hover hs, retold_hover hs]
  | implementation => rfl

theorem Record.eq_of_retold_eq {r' : Record} (h : r.IsToldBy table options)
    (h' : r'.IsToldBy table options)
    (heq : r.retold table options' = r'.retold table options') : r = r' := by
  calc r
    _ = (r.retold table options').retold table options := (retold_retold h).symm
    _ = (r'.retold table options').retold table options := by rw [heq]
    _ = r' := retold_retold h'

end Records

/-! ## One collection -/

namespace Extraction

variable {t : Tree} {table : SymbolTable} {options : HoverOptions} {d : Node} {kind : FactKind}
  {r : Record}

theorem isToldBy_of_mem_extraction (h : t.Linked) (hd : d ∈ t.nodes)
    (hr : r ∈ (extraction t table options kind d).offers) : r.IsToldBy table options := by
  by_cases hkind : kind = .hover
  · subst hkind
    obtain ⟨ident, -, s, b, hresolve, hfact⟩ := mem_offers_hover hr
    cases hfact
    exact ⟨b, symbol?_of_resolveNamed? hresolve, rfl⟩
  · apply Record.isToldBy_of_kind_ne
    rw [kind_of_mem_extraction h hd hr]
    exact hkind

theorem maps_hover (t : Tree) (table : SymbolTable) (options options' : HoverOptions) (d : Node) :
    Script.Maps (Record.retold table options') (hover t table options d)
      (hover t table options' d) := by
  apply Script.Maps.bind ⟨rfl, rfl⟩
  intro ident
  cases hresolve : table.resolveNamed? d ident with
  | none => exact ⟨rfl, rfl⟩
  | some x =>
      obtain ⟨s, b⟩ := x
      refine ⟨rfl, ?_⟩
      have hs := symbol?_of_resolveNamed? hresolve
      rw [Script.offers_offer, Script.offers_offer, List.map_singleton, Record.retold_hover hs]

/-- **Other options tell each collection anew.** -/
theorem maps_extraction (h : t.Linked) (hd : d ∈ t.nodes) (table : SymbolTable)
    (options options' : HoverOptions) (kind : FactKind) :
    Script.Maps (Record.retold table options') (extraction t table options kind d)
      (extraction t table options' kind d) := by
  by_cases hkind : kind = .hover
  · subst hkind
    exact maps_hover t table options options' d
  · -- nothing but hover text looks at the options
    have hsame : extraction t table options' kind d = extraction t table options kind d := by
      cases kind with
      | definition => rfl
      | reference => rfl
      | hover => exact absurd rfl hkind
      | implementation => rfl
    refine ⟨congrArg Script.result hsame, ?_⟩
    have hkept : ∀ r ∈ (extraction t table options kind d).offers,
        r.retold table options' = r := by
      intro r hr
      apply Record.retold_of_kind_ne
      rw [kind_of_mem_extraction h hd hr]
      exact hkind
    rw [hsame, List.map_congr_left hkept, List.map_id']

end Extraction

namespace File

variable {f : File} {c c' : Config}

/-! ## Two passes with different options -/

theorem tasks_congr (hfacts : c.facts = c'.facts) : f.tasks c = f.tasks c' := by
  unfold tasks factsAt
  rw [hfacts]

theorem maps_script (hf : f.tree.Linked) (hfacts : c.facts = c'.facts) :
    Script.Maps (Record.retold f.table c'.hover) (f.script c) (f.script c') := by
  obtain ⟨hoffers, hresult⟩ := f.offers_script c
  obtain ⟨hoffers', hresult'⟩ := f.offers_script c'
  have hcollections : Script.Maps (Record.retold f.table c'.hover)
      (forM (f.tasks c) (f.collection c)) (forM (f.tasks c) (f.collection c')) := by
    apply Script.maps_forM
    intro task htask
    exact maps_extraction hf (mem_nodes_of_mem_tasks hf htask) f.table c.hover c'.hover task.2
  constructor
  · rw [hresult, hresult', ← tasks_congr hfacts]
    exact hcollections.result_eq
  · rw [hoffers, hoffers', ← tasks_congr hfacts]
    exact hcollections.offers_eq

theorem isToldBy_of_mem_script (hf : f.tree.Linked) (config : Config) {r : Record}
    (hr : r ∈ (f.script config).offers) : r.IsToldBy f.table config.hover := by
  rw [(f.offers_script config).1] at hr
  obtain ⟨task, htask, hr⟩ := Script.mem_offers_forM hr
  exact isToldBy_of_mem_extraction hf (mem_nodes_of_mem_tasks hf htask) hr

theorem retold_injOn_script (hf : f.tree.Linked) (config : Config) (options : HoverOptions) :
    ∀ r ∈ (f.script config).offers, ∀ r' ∈ (f.script config).offers,
      r.retold f.table options = r'.retold f.table options → r = r' := by
  intro r hr r' hr' heq
  exact Record.eq_of_retold_eq (isToldBy_of_mem_script hf config hr)
    (isToldBy_of_mem_script hf config hr') heq

/-- **The records are told anew, one by one.** -/
theorem delivered_eq_map_retold (hf : f.tree.Linked) (hfacts : c.facts = c'.facts) :
    f.delivered c' = (f.delivered c).map (Record.retold f.table c'.hover) := by
  rw [delivered_eq hf, delivered_eq hf, ← (f.offers_script c).1, ← (f.offers_script c').1,
    (maps_script hf hfacts).offers_eq, eraseDups_map (retold_injOn_script hf c c'.hover)]

theorem result_congr (hf : f.tree.Linked) (hfacts : c.facts = c'.facts) :
    f.result c = f.result c' := by
  have hnever := MemorySink.neverFails_empty
  have hmaps := maps_script hf hfacts
  obtain ⟨m, hm, hindex⟩ := index_hasTaken hf c hnever
  obtain ⟨m', hm', hindex'⟩ := index_hasTaken hf c' hnever
  rw [hmaps.result_eq] at hindex'
  rw [result, result, hindex, hindex']
  cases (f.script c).result with
  | error e => rfl
  | ok u =>
      obtain ⟨k, hconclude, -⟩ := conclude_of_hasTaken hnever hm (.ofNodes f.prunes f.visible)
      obtain ⟨k', hconclude', -⟩ := conclude_of_hasTaken hnever hm' (.ofNodes f.prunes f.visible)
      have hcounts : m.counts = m'.counts := by
        rw [hmaps.offers_eq] at hm'
        exact hm.counts_eq_of_map hm' (fun r => r.kind_retold)
          (retold_injOn_script hf c c'.hover)
      rw [hconclude, hconclude', hcounts]

end File

/-! ## Supertypes -/

/-- The second record is the first one, or it is the hover of a type and says in addition which
supertypes the type has. -/
inductive Record.Elaborates (table : SymbolTable) : Record → Record → Prop
  | same (r : Record) : Elaborates table r r
  | supertypes {s : SymbolId} {ty : TypeSymbol} (range : Span) (contents : String)
      (hs : table.symbol? s = some (.type ty)) :
      Elaborates table (.hover range s contents)
        (.hover range s (contents ++ supertypesClause table ty))

def Config.showing (config : Config) (supertypes : Bool) : Config :=
  { config with hover.showSupertypes := supertypes }

theorem Record.elaborates_retold {table : SymbolTable} {options options' : HoverOptions}
    {r : Record} (hoff : options.showSupertypes = false) (hon : options'.showSupertypes = true)
    (h : r.IsToldBy table options) : Elaborates table r (r.retold table options') := by
  cases r with
  | definition => exact .same _
  | reference => exact .same _
  | implementation => exact .same _
  | hover range s contents =>
      obtain ⟨b, hs, rfl⟩ := h
      rw [retold_hover hs]
      cases b with
      | method => exact .same _
      | var => exact .same _
      | type ty =>
          have htext : render table options' (.type ty) =
              render table options (.type ty) ++ supertypesClause table ty := by
            simp [render, renderType, hoff, hon]
          rw [htext]
          exact .supertypes range _ hs

namespace File

variable {f : File}

/-- **Supertypes only lengthen hover text.** Showing them or not, a pass ends with the same fault or
the same summary, repetitions included, and keeps as many records; these agree one by one, except
that the hover of a type goes on with its supertypes where they are shown. -/
theorem supertypes_only_lengthen (hf : f.tree.Grown) (config : Config) :
    f.result (config.showing false) = f.result (config.showing true) ∧
      List.Forall₂ (Record.Elaborates f.table) (f.delivered (config.showing false))
        (f.delivered (config.showing true)) := by
  have hfacts : (config.showing false).facts = (config.showing true).facts := rfl
  refine ⟨result_congr hf.linked hfacts, ?_⟩
  rw [delivered_eq_map_retold hf.linked hfacts, List.forall₂_map_right_iff, List.forall₂_same]
  intro r hr
  rw [delivered_eq hf.linked, ← (f.offers_script _).1, List.mem_eraseDups] at hr
  exact Record.elaborates_retold rfl rfl (isToldBy_of_mem_script hf.linked _ hr)

set_option maxRecDepth 10000 in
/-- In the small file the hover of `Foo` gains its superclass, at the second place of five; the file
with the nameless type fails alike. -/
theorem demo_supertypes :
    (demo.delivered (Config.default.showing false))[1]? =
        some (.hover (demoSpan 1 7) ⟨0⟩ "class demo.Foo") ∧
      (demo.delivered (Config.default.showing true))[1]? =
        some (.hover (demoSpan 1 7) ⟨0⟩ "class demo.Foo extends demo.Base") ∧
      demo.result (Config.default.showing false) = demo.result (Config.default.showing true) ∧
      brokenDemo.result (Config.default.showing false) =
        .error (.missingName (.ofNat 8) .typeDecl) ∧
      List.Forall₂ (Record.Elaborates brokenDemo.table)
        (brokenDemo.delivered (Config.default.showing false))
        (brokenDemo.delivered (Config.default.showing true)) := by
  obtain ⟨hresult, -⟩ := supertypes_only_lengthen demo_grown .default
  obtain ⟨hbroken, hrecords⟩ := supertypes_only_lengthen brokenDemo_grown .default
  refine ⟨by decide +kernel, by decide +kernel, hresult, ?_, hrecords⟩
  rw [hbroken]
  rfl

end File

end CodeNav
