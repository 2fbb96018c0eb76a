import CodeNav.Proofs.Extraction
import CodeNav.Proofs.Pass.Taken
import CodeNav.Proofs.Route

/-!
# No record is made up

Every record has a reason: a node that the pass has entered and that its route sends to the
collection in question, an identifier at or below that node, and a symbol which this identifier
stands for. The data of the record is read off the identifier and the symbol. `Justified` spells
this out for each kind of fact, and `taken_justified` is the theorem: whatever a destination takes,
refuses or breaks off, it only ever takes justified records.
-/

namespace CodeNav

open Extraction

namespace File

/-- At `n`, the identifier `i` stands for the symbol `b` with the id `s`: by its own binding, or,
where it has none, by the binding of `n`, which it names. -/
structure StandsFor (f : File) (n i : Node) (s : SymbolId) (b : Symbol) : Prop where
  below : i ∈ f.tree.preorder n
  isIdentifier : f.tree.identifier i = .ok i
  defined : f.table.symbol? s = some b
  resolves : f.table.resolve? i.id = some (s, b) ∨
    f.table.resolve? i.id = none ∧ f.tree.identifier n = .ok i ∧
      f.table.resolve? n.id = some (s, b)

/-- The reason for a record, where `visited` are the nodes that may be one. -/
def Justified (f : File) (config : Config) (visited : List Node) : Record → Prop
  | .definition range target s name =>
      ∃ n ∈ visited, .definition ∈ f.factsAt config n ∧ ∃ i b, f.StandsFor n i s b ∧
        range = i.span ∧ i.name = some name ∧ target = b.declaration?.getD range
  | .reference range target s name isDeclaration =>
      ∃ n ∈ visited, .reference ∈ f.factsAt config n ∧ ∃ i b, f.StandsFor n i s b ∧
        range = i.span ∧ i.name = some name ∧ target = b.declaration? ∧
        (isDeclaration = true ↔ target = some range)
  | .hover range s contents =>
      ∃ n ∈ visited, .hover ∈ f.factsAt config n ∧ ∃ i b, f.StandsFor n i s b ∧
        range = i.span ∧ contents = render f.table config.hover b
  | .implementation range implementor implemented target =>
      ∃ n ∈ visited, .implementation ∈ f.factsAt config n ∧
        n.kind = .simpleName ∧ f.tree.parentKind? n = some .typeDecl ∧
        ∃ x t, f.table.resolve? n.id = some (x, .type t) ∧ range = n.span ∧
          implementor = t.qualifiedName ∧
          ∃ s ∈ t.supertypes, ∃ u, f.table.type? s = some u ∧
            implemented = u.qualifiedName ∧ target = u.declaration

variable {f : File} {config : Config} {n owner i : Node} {k : FactKind} {r : Record}
  {visited : List Node} {s : SymbolId} {b : Symbol}

/-- What an identifier resolves to through the node that it names, or through itself, it stands for.
-/
theorem standsFor_of_resolveNamed? (hf : f.tree.Linked) (hn : n ∈ f.tree.nodes)
    (howner : owner ∈ f.tree.preorder n) (hcase : owner = n ∨ owner = i)
    (hident : f.tree.identifier owner = .ok i)
    (hresolve : f.table.resolveNamed? owner i = some (s, b)) : f.StandsFor n i s b := by
  have hbelow : i ∈ f.tree.preorder n := by
    rcases identifier_cases hident with rfl | ⟨-, hchild, -⟩
    · exact howner
    · exact hf.mem_preorder_of_mem_children hn howner hchild
  have hresolves : f.table.resolve? i.id = some (s, b) ∨
      f.table.resolve? i.id = none ∧ f.table.resolve? owner.id = some (s, b) := by
    rwa [SymbolTable.resolveNamed?, Option.or_eq_some_iff] at hresolve
  refine ⟨hbelow, identifier_of_identifier hident, symbol?_of_resolveNamed? hresolve, ?_⟩
  · rcases hcase with rfl | rfl
    · exact hresolves.imp_right fun h => ⟨h.1, hident, h.2⟩
    · -- through itself there is no second binding to fall back on
      rcases hresolves with h | ⟨hnone, h⟩
      · exact Or.inl h
      · rw [hnone] at h
        cases h

/-- A fact about an identifier at or below a visited node is justified by that node. -/
theorem justified_of_isFactAbout (hf : f.tree.Linked) (hn : n ∈ f.tree.nodes)
    (hvisited : n ∈ visited) (hk : k ∈ f.factsAt config n) (howner : owner ∈ f.tree.preorder n)
    (hcase : owner = n ∨ owner = i) (hr : IsFactAbout f.tree f.table config.hover k owner i r) :
    f.Justified config visited r := by
  obtain ⟨hident, s, b, hresolve, hfact⟩ := hr
  have hstands := standsFor_of_resolveNamed? hf hn howner hcase hident hresolve
  cases k with
  | definition =>
      obtain ⟨name, hname, rfl⟩ := Option.map_eq_some_iff.mp hfact
      exact ⟨n, hvisited, hk, i, b, hstands, rfl, hname, rfl⟩
  | reference =>
      obtain ⟨name, hname, rfl⟩ := Option.map_eq_some_iff.mp hfact
      exact ⟨n, hvisited, hk, i, b, hstands, rfl, hname, rfl, decide_eq_true_iff⟩
  | hover =>
      cases hfact
      exact ⟨n, hvisited, hk, i, b, hstands, rfl, rfl⟩
  | implementation => cases hfact

theorem justified_of_mem_implementation (hvisited : n ∈ visited)
    (hk : .implementation ∈ f.factsAt config n)
    (hr : r ∈ (implementation f.tree f.table n).offers) : f.Justified config visited r := by
  obtain ⟨hkind, hin⟩ := of_implementation_mem_facts (List.mem_of_mem_filter hk)
  have hname : n.kind.isName = true := by
    rw [hkind]
    rfl
  obtain ⟨-, x, t, hresolve, s, hs, hedge⟩ := (mem_offers_implementation_iff hname).mp hr
  obtain ⟨u, hu, rfl⟩ := Option.map_eq_some_iff.mp hedge
  exact ⟨n, hvisited, hk, hkind, of_decide_eq_true hin, x, t, hresolve, rfl, rfl, s, hs, u, hu, rfl,
    rfl⟩

theorem justified_of_mem_offers_work (hf : f.tree.Linked) (hn : n ∈ f.tree.nodes)
    (hvisited : n ∈ visited) (hr : r ∈ (f.work config n).offers) :
    f.Justified config visited r := by
  obtain ⟨k, hk, hr⟩ := mem_offers_work hr
  by_cases hkind : k = .implementation
  · subst hkind
    exact justified_of_mem_implementation hvisited hk hr
  · obtain ⟨owner, i, howner, hcase, hfact⟩ := mem_offers_extraction hf hn hkind hr
    exact justified_of_isFactAbout hf hn hvisited hk howner hcase hfact

/-- **No record is made up.** Whatever a destination does, each record that it takes in a pass is
justified by a node that this pass has entered. -/
theorem taken_justified {σ : Type} [Sink σ] (hf : f.tree.Grown) (config : Config) (s : σ)
    (hr : r ∈ (f.index config (Ledger.opened s)).2.sink.taken) :
    f.Justified config (f.enteredInto config (Ledger.opened s)) r := by
  have hkept := kept_entered f config s
  rw [hkept.taken_eq, List.mem_reverse] at hr
  obtain ⟨n, hn, hr⟩ := List.mem_flatMap.mp (hkept.subset hr)
  have hmem := mem_nodes_of_visible hf.linked (visible_of_entered hf.linked hn)
  exact justified_of_mem_offers_work hf.linked hmem hn hr

set_option maxRecDepth 10000 in
/-- In the small file, a destination that refuses its fourth record has taken three by then. The
third is the edge from `Foo` to `Base`, and the name of `Foo` is the reason for it. -/
theorem demo_taken_justified :
    ∃ r, (demo.index .default (Ledger.opened (MemorySink.refusing (· = 3) false))).2.sink.taken[2]? =
        some r ∧
      r = .implementation (demoSpan 1 7) "demo.Foo" "demo.Base" none ∧
      demo.Justified .default
        (demo.enteredInto .default (Ledger.opened (MemorySink.refusing (· = 3) false))) r := by
  refine ⟨_, rfl, rfl, ?_⟩
  apply taken_justified demo_grown .default (MemorySink.refusing (· = 3) false)
  exact List.mem_of_getElem? (i := 2) rfl

end File

end CodeNav
