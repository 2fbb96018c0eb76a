import CodeNav.Proofs.Pass.Justified

/-!
# Whose binding makes an edge

Edges to supertypes are collected at a name that stands directly in a type declaration, and nowhere
else (`IsEdgeOf`). A name is its own identifier, so only its own binding counts there. A successful
pass misses none of these edges and makes no other (`edges_of_own_binding`). The definition and the
hover text of a type are collected at the declaration, where the binding of the declaration counts as
well: a type that only its declaration is bound to has both, and no edges (`boundAbove_no_edge`).

Nor does a name have to name the declaration that it stands in: where several names stand in one
declaration, each has the edges of the type that it is bound to (`edge_stands_at_name`,
`namesSupertype_edge`).
-/

namespace CodeNav

open Extraction

namespace File

variable {σ : Type} [Sink σ] {f : File} {config : Config} {n i : Node} {r : Record}

/-- An edge of the type that a name is bound to, where the name stands directly in a type
declaration. -/
def IsEdgeOf (f : File) (i : Node) (r : Record) : Prop :=
  i.kind = .simpleName ∧ f.tree.parentKind? i = some .typeDecl ∧
    ∃ x t, f.table.resolve? i.id = some (x, .type t) ∧
      ∃ s ∈ t.supertypes, edge? f.table i.span t s = some r

theorem identifier_mem_visible (hf : f.tree.Linked) (hn : n ∈ f.visible) (hkind : n.kind = .typeDecl)
    (hident : f.tree.identifier n = .ok i) (hname : i.kind = .simpleName) :
    i ∈ f.visible ∧ f.tree.parentKind? i = some .typeDecl := by
  obtain ⟨hmem, habove⟩ := (mem_visible_iff hf).mp hn
  rcases identifier_cases hident with rfl | ⟨-, hchild, -⟩
  · rw [hkind] at hname
    cases hname
  · have hopen : f.prunes n = false := by
      rw [prunes, route, hkind]
      rfl
    constructor
    · refine (mem_visible_iff hf).mpr ⟨hf.mem_of_mem_children hmem hchild, fun a ha => ?_⟩
      rcases (hf.mem_ancestors_child hmem hchild).mp ha with rfl | ha
      · exact hopen
      · exact habove a ha
    · rw [Tree.parentKind?, hf.parent?_of_mem_children hmem hchild, Option.map_some, hkind]

theorem implementation_mem_factsAt (hon : config.facts.implementations = true)
    (hkind : i.kind = .simpleName) (hparent : f.tree.parentKind? i = some .typeDecl) :
    .implementation ∈ f.factsAt config i :=
  List.mem_filter.mpr ⟨implementation_mem_facts hkind (decide_eq_true hparent), hon⟩

/-- Where edges are collected, they are those of the name. -/
theorem mem_offers_implementation_iff_isEdgeOf (hk : .implementation ∈ f.factsAt config i) :
    r ∈ (implementation f.tree f.table i).offers ↔ f.IsEdgeOf i r := by
  obtain ⟨hkind, hin⟩ := of_implementation_mem_facts (List.mem_of_mem_filter hk)
  have hname : i.kind.isName = true := by
    rw [hkind]
    rfl
  rw [Extraction.mem_offers_implementation_iff hname]
  constructor
  · rintro ⟨-, hedge⟩
    exact ⟨hkind, of_decide_eq_true hin, hedge⟩
  · rintro ⟨-, -, hedge⟩
    exact ⟨hin, hedge⟩

theorem exists_isEdgeOf_of_taken (hf : f.tree.Linked) {s : σ} (hr : r.kind = .implementation)
    (hmem : r ∈ (f.index config (Ledger.opened s)).2.sink.taken) :
    ∃ i ∈ f.enteredInto config (Ledger.opened s), f.IsEdgeOf i r := by
  have hkept := kept_entered f config s
  rw [hkept.taken_eq, List.mem_reverse] at hmem
  obtain ⟨i, hi, hmem⟩ := List.mem_flatMap.mp (hkept.subset hmem)
  obtain ⟨k, hk, hmem⟩ := mem_offers_work hmem
  have hnode := mem_nodes_of_visible hf (visible_of_entered hf hi)
  obtain rfl : k = .implementation := (kind_of_mem_extraction hf hnode hmem).symm.trans hr
  exact ⟨i, hi, (mem_offers_implementation_iff_isEdgeOf hk).mp hmem⟩

/-- **Edges come from the bindings of names, all of them.** In a successful pass that collects edges,
the destination takes the edges of the names that stand directly in a type declaration and are
themselves bound to a type, and no other edge. The simple name that names an entered type declaration
is one of the names that count. -/
theorem edges_of_own_binding (hf : f.tree.Grown) (hon : config.facts.implementations = true) {s : σ}
    {summary : Summary} (hok : (f.index config (Ledger.opened s)).1 = .ok summary) :
    (∀ r, r.kind = .implementation →
      (r ∈ (f.index config (Ledger.opened s)).2.sink.taken ↔
        ∃ i ∈ f.enteredInto config (Ledger.opened s), f.IsEdgeOf i r)) ∧
    ∀ n ∈ f.enteredInto config (Ledger.opened s), n.kind = .typeDecl →
      ∀ i, f.tree.identifier n = .ok i → i.kind = .simpleName →
        i ∈ f.enteredInto config (Ledger.opened s) ∧ f.tree.parentKind? i = some .typeDecl := by
  have hlinked := hf.linked
  obtain ⟨hscript, htaken⟩ := taken_of_ok hlinked hok
  constructor
  · intro r hr
    constructor
    · exact exists_isEdgeOf_of_taken hlinked hr
    · rintro ⟨i, hi, hedge⟩
      have hk := implementation_mem_factsAt hon hedge.1 hedge.2.1
      obtain ⟨-, hoffers⟩ :=
        mem_offers_script_of_ok hscript (visible_of_entered hlinked hi) hk
      exact htaken (hoffers ((mem_offers_implementation_iff_isEdgeOf hk).mpr hedge))
  · rw [enteredInto_of_ok hlinked hok]
    intro n hn hkind i hident hname
    exact identifier_mem_visible hlinked hn hkind hident hname

set_option maxRecDepth 10000 in
/-- In the small file, the name `Foo` is bound to a type, and its edge to `Base` is taken. -/
theorem demo_edges :
    .implementation (demoSpan 1 7) "demo.Foo" "demo.Base" none ∈
      (demo.index .default (Ledger.opened MemorySink.empty)).2.sink.taken := by
  let i : Node := ⟨⟨2⟩, .simpleName, some ⟨1⟩, [], some "Foo", demoSpan 1 7⟩
  have hok : (demo.index .default (Ledger.opened MemorySink.empty)).1 =
      .ok ⟨7, 2, ⟨1, 2, 1, 1, 1⟩⟩ := by
    rfl
  have hi : i ∈ demo.enteredInto .default (Ledger.opened MemorySink.empty) :=
    List.mem_of_getElem? (i := 2) rfl
  have hedge : demo.IsEdgeOf i (.implementation (demoSpan 1 7) "demo.Foo" "demo.Base" none) :=
    ⟨rfl, rfl, ⟨0⟩, _, rfl, ⟨3⟩, List.mem_singleton_self _, rfl⟩
  exact ((edges_of_own_binding demo_grown rfl hok).1 _ rfl).mpr ⟨i, hi, hedge⟩

/-- The beginning of the small file, where the declaration of `Foo` is bound and its name is not. -/
def boundAbove : File :=
  { demo with
    tree := (demoSteps.take 3).foldl Tree.attempt .empty
    table := { demoTable with bindings := [(⟨1⟩, ⟨0⟩)] } }

set_option maxRecDepth 10000 in
/-- A declaration that is bound in place of its name: the name resolves through the declaration, so
the type is defined and has a hover text, but the edge to its superclass is missing. -/
theorem boundAbove_no_edge :
    ∃ n i foo base,
      n ∈ boundAbove.enteredInto .default (Ledger.opened MemorySink.empty) ∧
      n.kind = .typeDecl ∧ boundAbove.tree.identifier n = .ok i ∧ i.kind = .simpleName ∧
      boundAbove.table.resolveNamed? n i = some (⟨0⟩, .type foo) ∧
      ⟨3⟩ ∈ foo.supertypes ∧ boundAbove.table.type? ⟨3⟩ = some base ∧
      (boundAbove.index .default (Ledger.opened MemorySink.empty)).1 =
        .ok ⟨3, 1, ⟨1, 0, 1, 0, 0⟩⟩ ∧
      (boundAbove.index .default (Ledger.opened MemorySink.empty)).2.sink.taken =
        [.definition i.span i.span ⟨0⟩ "Foo",
          .hover i.span ⟨0⟩ "class demo.Foo extends demo.Base"] ∧
      .implementation i.span foo.qualifiedName base.qualifiedName base.declaration ∉
        (boundAbove.index .default (Ledger.opened MemorySink.empty)).2.sink.taken := by
  have htaken : (boundAbove.index .default (Ledger.opened MemorySink.empty)).2.sink.taken =
      [.definition (demoSpan 1 7) (demoSpan 1 7) ⟨0⟩ "Foo",
        .hover (demoSpan 1 7) ⟨0⟩ "class demo.Foo extends demo.Base"] := by
    decide +kernel
  refine ⟨⟨⟨1⟩, .typeDecl, some ⟨0⟩, [⟨2⟩], none, demoSpan 1 2⟩,
    ⟨⟨2⟩, .simpleName, some ⟨1⟩, [], some "Foo", demoSpan 1 7⟩,
    ⟨"demo.Foo", .classType, some ⟨3⟩, [], some (demoSpan 1 7)⟩,
    ⟨"demo.Base", .classType, none, [], none⟩,
    List.mem_of_getElem? (i := 1) rfl, rfl, rfl, rfl, rfl, List.mem_singleton_self _, rfl, rfl,
    htaken, ?_⟩
  rw [htaken]
  simp

/-! ## More than one name in a declaration -/

/-- **Every name in a declaration has edges of its own.** Whatever the destination does, an edge that
it takes stands at a simple name directly in a type declaration, both of them entered, and that name
is itself bound to a type. It is the first name there, which names the declaration, or any name
behind it. -/
theorem edge_stands_at_name (hf : f.tree.Grown)
    (hspans : ∀ d ∈ f.tree.nodes, ∀ e ∈ f.tree.nodes, d.span = e.span → d = e) (s : σ)
    (hkind : r.kind = .implementation)
    (hmem : r ∈ (f.index config (Ledger.opened s)).2.sink.taken) :
    ∃ n ∈ f.enteredInto config (Ledger.opened s), n.kind = .typeDecl ∧
      ∃ i ∈ f.enteredInto config (Ledger.opened s), i ∈ f.tree.children n ∧
        i.kind = .simpleName ∧ (∃ x t, f.table.resolve? i.id = some (x, .type t)) ∧
        r.range = i.span ∧ (∀ d ∈ f.tree.nodes, r.range = d.span → d = i) ∧
        ∃ first before after, f.tree.identifier n = .ok first ∧
          f.tree.children n = before ++ first :: after ∧
          (∀ c ∈ before, c.kind.isName = false) ∧ (i = first ∨ i ∈ after) := by
  have hlinked := hf.linked
  obtain ⟨i, hi, hname, hparent, x, t, hresolve, y, -, hedge⟩ :=
    exists_isEdgeOf_of_taken hlinked hkind hmem
  have hnode := mem_nodes_of_visible hlinked (visible_of_entered hlinked hi)
  have hrange := range_of_edge? hedge
  obtain ⟨n, hn, hdecl⟩ := Option.map_eq_some_iff.mp hparent
  have hchild := hlinked.mem_children_of_parent? hnode hn
  have hentered : n ∈ f.enteredInto config (Ledger.opened s) :=
    mem_of_prefix_enteredInto hlinked (List.prefix_refl _) hi
      ((hlinked.mem_ancestors_iff hnode hn).mpr (Or.inl rfl))
  have hsame : ∀ d ∈ f.tree.nodes, r.range = d.span → d = i := fun d hd hspan =>
    hspans d hd i hnode (hspan.symm.trans hrange)
  have howner : n.kind.isName = false := by
    rw [hdecl]
    rfl
  have hident : i.kind.isName = true := by
    rw [hname]
    rfl
  exact ⟨n, hentered, hdecl, i, hi, hchild, hname, ⟨x, t, hresolve⟩, hrange, hsame,
    identifier_of_mem_children howner hchild hident⟩

theorem demo_spans : ∀ d ∈ demo.tree.nodes, ∀ e ∈ demo.tree.nodes, d.span = e.span → d = e := by
  decide +kernel

set_option maxRecDepth 10000 in
/-- In the small file, the edge to `Base` stands at the name `Foo`, the first child of its
declaration. -/
theorem demo_edge_stands_at_name :
    ∃ n ∈ demo.enteredInto .default (Ledger.opened MemorySink.empty), n.kind = .typeDecl ∧
      ∃ i ∈ demo.enteredInto .default (Ledger.opened MemorySink.empty), i ∈ demo.tree.children n ∧
        demoSpan 1 7 = i.span := by
  have hmem : .implementation (demoSpan 1 7) "demo.Foo" "demo.Base" none ∈
      (demo.index .default (Ledger.opened MemorySink.empty)).2.sink.taken := by
    decide +kernel
  obtain ⟨n, hn, hdecl, i, hi, hchild, -, -, hrange, -⟩ :=
    edge_stands_at_name demo_grown demo_spans MemorySink.empty rfl hmem
  exact ⟨n, hn, hdecl, i, hi, hchild, hrange⟩

/-- A declaration that names its supertype: a second name stands behind its own, and both are bound
to types. -/
def namesSupertype : File where
  document := "Sub.java"
  tree := List.foldl Tree.attempt .empty
    [.root .compilationUnit (demoSpan 1 1),
     .child ⟨0⟩ .typeDecl none (demoSpan 5 2),
     .child ⟨1⟩ .simpleName (some "Sub") (demoSpan 5 7),
     .child ⟨1⟩ .simpleName (some "Foo") (demoSpan 5 20)]
  table := {
    symbols := demoTable.symbols.push (.type ⟨"demo.Sub", .classType, some ⟨0⟩, [], none⟩)
    bindings := [(⟨2⟩, ⟨4⟩), (⟨3⟩, ⟨0⟩)] }

set_option maxRecDepth 10000 in
/-- The name of the supertype has an edge as well, from the supertype to the one above it, though it
names no type declaration. -/
theorem namesSupertype_edge :
    namesSupertype.tree.Grown ∧
      (∀ d ∈ namesSupertype.tree.nodes, ∀ e ∈ namesSupertype.tree.nodes, d.span = e.span → d = e) ∧
      (namesSupertype.index .default (Ledger.opened MemorySink.empty)).1 =
        .ok ⟨4, 2, ⟨2, 0, 1, 2, 1⟩⟩ ∧
      .implementation (demoSpan 5 7) "demo.Sub" "demo.Foo" (some (demoSpan 1 7)) ∈
        (namesSupertype.index .default (Ledger.opened MemorySink.empty)).2.sink.taken ∧
      .implementation (demoSpan 5 20) "demo.Foo" "demo.Base" none ∈
        (namesSupertype.index .default (Ledger.opened MemorySink.empty)).2.sink.taken ∧
      ∀ n ∈ namesSupertype.enteredInto .default (Ledger.opened MemorySink.empty),
        n.kind = .typeDecl → ∃ i, namesSupertype.tree.identifier n = .ok i ∧
          i.span ≠ demoSpan 5 20 := by
  refine ⟨⟨_, rfl⟩, by decide +kernel, by rfl, by decide +kernel, by decide +kernel, ?_⟩
  have hnames : ∀ n ∈ namesSupertype.enteredInto .default (Ledger.opened MemorySink.empty),
      n.kind = .typeDecl → namesSupertype.tree.identifier n =
        .ok ⟨⟨2⟩, .simpleName, some ⟨1⟩, [], some "Sub", demoSpan 5 7⟩ := by
    decide +kernel
  intro n hn hkind
  exact ⟨_, hnames n hn hkind, by decide⟩

end File

end CodeNav
