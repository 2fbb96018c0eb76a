import CodeNav.Proofs.Extraction
import CodeNav.Proofs.Pass.Declared
import CodeNav.Proofs.Route
import CodeNav.Proofs.Syntax.Redraw

/-!
# Pruned gates hide what is below them

Two runs of a pass: one on a file, and one on the file with everything below an invocation or a
qualified name redrawn and bound otherwise. If the route of that node is to prune, the two runs are
the same (`index_redrawn`). Both the walk and the loop over a method stop at the node, so each reads
only nodes that are not below it; the lemmas go through what a pass reads, from bindings to routes to
scripts.
-/

namespace CodeNav

open Extraction

namespace File

/-- The file with a new look and new bindings for what is below `p`. -/
def redrawn (f : File) (p : Node) (look : NodeId → Look) (bindings : List (NodeId × SymbolId)) :
    File where
  document := f.document
  tree := f.tree.redraw p look
  table := { f.table with bindings := bindings }

/-- The bindings are those of the file, except for nodes below `p`. -/
def BoundAlike (f : File) (p : Node) (bindings : List (NodeId × SymbolId)) : Prop :=
  ∀ n, (∀ d ∈ f.tree.nodes, d.id = n → p ∉ f.tree.ancestors d) →
    bindings.lookup n = f.table.bindings.lookup n

variable {f : File} {p d declared ident : Node} {look : NodeId → Look}
  {bindings : List (NodeId × SymbolId)}

/-! ## Bindings and routes -/

section Outside

variable (hf : f.tree.Linked) (hbound : f.BoundAlike p bindings) (hd : d ∈ f.tree.nodes)
  (hout : p ∉ f.tree.ancestors d)

include hf hbound hd hout

theorem resolve?_redrawn :
    (f.redrawn p look bindings).table.resolve? d.id = f.table.resolve? d.id := by
  have hlookup : bindings.lookup d.id = f.table.bindings.lookup d.id := by
    apply hbound
    intro e he hid
    rw [hf.eq_of_id_eq he hd hid]
    exact hout
  have hbound? : (f.redrawn p look bindings).table.bound? d.id = f.table.bound? d.id := hlookup
  unfold SymbolTable.resolve?
  rw [hbound?]
  rfl

omit hbound in
theorem parentKind?_redrawn :
    (f.redrawn p look bindings).tree.parentKind? d = f.tree.parentKind? d :=
  hf.parentKind?_redraw hd hout

omit hbound in
theorem inTypeDecl_redrawn : (f.redrawn p look bindings).tree.inTypeDecl d = f.tree.inTypeDecl d := by
  unfold Tree.inTypeDecl
  rw [parentKind?_redrawn hf hd hout]

/-- The route of a node reads its own kind and binding, and the kind of its parent. -/
theorem route_redrawn :
    route (f.redrawn p look bindings).tree (f.redrawn p look bindings).table d =
      route f.tree f.table d := by
  have hresolve : (f.redrawn p look bindings).table.resolve? d.id = f.table.resolve? d.id :=
    resolve?_redrawn hf hbound hd hout
  have hcall : invocationRoute (f.redrawn p look bindings).table d = invocationRoute f.table d := by
    unfold invocationRoute SymbolTable.methodAt?
    rw [hresolve]
    rfl
  have hname :
      qualifiedNameRoute (f.redrawn p look bindings).table d = qualifiedNameRoute f.table d := by
    unfold qualifiedNameRoute SymbolTable.variableAt?
    rw [hresolve]
    rfl
  unfold route
  rw [inTypeDecl_redrawn hf hd hout, hcall, hname]

theorem isShut_redrawn :
    isShut (f.redrawn p look bindings).tree (f.redrawn p look bindings).table d =
      isShut f.tree f.table d := by
  rw [isShut, isShut, route_redrawn hf hbound hd hout]

theorem prunes_redrawn : (f.redrawn p look bindings).prunes d = f.prunes d := by
  rw [prunes, prunes, route_redrawn hf hbound hd hout]

theorem resolveNamed?_redrawn (hident : ident ∈ f.tree.nodes)
    (hident_out : p ∉ f.tree.ancestors ident) :
    (f.redrawn p look bindings).table.resolveNamed? d ident = f.table.resolveNamed? d ident := by
  unfold SymbolTable.resolveNamed?
  rw [resolve?_redrawn hf hbound hd hout, resolve?_redrawn hf hbound hident hident_out]

theorem referenceOf_redrawn (hident : ident ∈ f.tree.nodes)
    (hident_out : p ∉ f.tree.ancestors ident) :
    referenceOf (f.redrawn p look bindings).table d ident = referenceOf f.table d ident := by
  rw [referenceOf, referenceOf, resolveNamed?_redrawn hf hbound hd hout hident hident_out]

theorem site_redrawn :
    site (f.redrawn p look bindings).tree (f.redrawn p look bindings).table declared d =
      site f.tree f.table declared d := by
  have hnotes : gateNotes (f.redrawn p look bindings).tree (f.redrawn p look bindings).table d =
      gateNotes f.tree f.table d := by
    unfold gateNotes
    rw [route_redrawn hf hbound hd hout, isShut_redrawn hf hbound hd hout]
  have hreported : isReported (f.redrawn p look bindings).tree declared d =
      isReported f.tree declared d := by
    unfold isReported
    rw [parentKind?_redrawn hf hd hout]
  rw [site, site, hnotes, hreported, isShut_redrawn hf hbound hd hout,
    referenceOf_redrawn hf hbound hd hout hd hout]

end Outside

/-! ## Collections -/

section Collections

variable (hf : f.tree.Linked) (hbound : f.BoundAlike p bindings) (hd : d ∈ f.tree.nodes)
  (hout : p ∉ f.tree.ancestors d) (hne : d ≠ p)

include hf hd hout hne

theorem identifier_redrawn :
    (f.redrawn p look bindings).tree.identifier d = f.tree.identifier d := by
  have hchildren : (f.redrawn p look bindings).tree.children d = f.tree.children d :=
    hf.children_redraw hd hout hne
  rw [Tree.identifier, Tree.identifier, hchildren]

theorem notMem_ancestors_identifier (hident : f.tree.identifier d = .ok ident) :
    p ∉ f.tree.ancestors ident := by
  rcases identifier_cases hident with rfl | ⟨-, hchild, -⟩
  · exact hout
  · exact hf.notMem_ancestors_child hd hout hne hchild

include hbound

theorem definition_redrawn :
    definition (f.redrawn p look bindings).tree (f.redrawn p look bindings).table d =
      definition f.tree f.table d := by
  rw [definition, definition, identifier_redrawn hf hd hout hne]
  refine Script.ofExcept_bind_congr fun ident hident => ?_
  have hident_out := notMem_ancestors_identifier hf hd hout hne hident
  rw [resolveNamed?_redrawn hf hbound hd hout (mem_of_identifier hf hd hident) hident_out]

theorem hover_redrawn (options : HoverOptions) :
    hover (f.redrawn p look bindings).tree (f.redrawn p look bindings).table options d =
      hover f.tree f.table options d := by
  rw [hover, hover, identifier_redrawn hf hd hout hne]
  refine Script.ofExcept_bind_congr fun ident hident => ?_
  have hident_out := notMem_ancestors_identifier hf hd hout hne hident
  rw [resolveNamed?_redrawn hf hbound hd hout (mem_of_identifier hf hd hident) hident_out]
  rfl

theorem implementation_redrawn :
    implementation (f.redrawn p look bindings).tree (f.redrawn p look bindings).table d =
      implementation f.tree f.table d := by
  rw [implementation, implementation, identifier_redrawn hf hd hout hne]
  refine Script.ofExcept_bind_congr fun ident hident => ?_
  have hmem := mem_of_identifier hf hd hident
  have hident_out := notMem_ancestors_identifier hf hd hout hne hident
  have hedges : ∀ range declared supertypes,
      implementationEdges (f.redrawn p look bindings).table range declared supertypes =
        implementationEdges f.table range declared supertypes :=
    implementationEdges_congr rfl
  rw [inTypeDecl_redrawn hf hmem hident_out, resolveNamed?_redrawn hf hbound hd hout hmem hident_out]
  simp only [hedges]

/-- The loop over a method stops at `p` as the walk does. -/
theorem reference_redrawn (hshut : isShut f.tree f.table p = true) :
    reference (f.redrawn p look bindings).tree (f.redrawn p look bindings).table d =
      reference f.tree f.table d := by
  have hg : (f.redrawn p look bindings).tree.Linked := hf.redraw p look
  have hmem : d ∈ (f.redrawn p look bindings).tree.nodes := Tree.mem_nodes_redraw hd hout
  have hchildren : (f.redrawn p look bindings).tree.children d = f.tree.children d :=
    hf.children_redraw hd hout hne
  have hagenda : (f.redrawn p look bindings).tree.agenda
      (isShut (f.redrawn p look bindings).tree (f.redrawn p look bindings).table)
        (f.tree.children d) = f.tree.agenda (isShut f.tree f.table) (f.tree.children d) :=
    hf.agenda_redraw hshut (fun x hx hx_out => isShut_redrawn hf hbound hx hx_out) fun c hc =>
      ⟨hf.mem_of_mem_children hd hc, hf.notMem_ancestors_child hd hout hne hc⟩
  rw [reference_eq hg _ hmem, reference_eq hf _ hd, identifier_redrawn hf hd hout hne]
  refine Script.ofExcept_bind_congr fun ident hident => ?_
  have hident_out := notMem_ancestors_identifier hf hd hout hne hident
  rw [referenceOf_redrawn hf hbound hd hout (mem_of_identifier hf hd hident) hident_out,
    hchildren, hagenda]
  congr 1
  funext _
  -- what the loop comes to is not below `p`
  refine Script.forM_congr fun x hx => ?_
  obtain ⟨c, hc, hxc⟩ := List.mem_flatMap.mp hx
  exact site_redrawn hf hbound (mem_agenda_children hf hd hx)
    (hf.notMem_ancestors_of_mem_preorderUntil hshut (hf.mem_of_mem_children hd hc)
      (hf.notMem_ancestors_child hd hout hne hc) hxc)

theorem extraction_redrawn (hshut : isShut f.tree f.table p = true) (options : HoverOptions)
    (kind : FactKind) :
    extraction (f.redrawn p look bindings).tree (f.redrawn p look bindings).table options kind d =
      extraction f.tree f.table options kind d := by
  cases kind with
  | definition => exact definition_redrawn hf hbound hd hout hne
  | reference => exact reference_redrawn hf hbound hd hout hne hshut
  | hover => exact hover_redrawn hf hbound hd hout hne options
  | implementation => exact implementation_redrawn hf hbound hd hout hne

end Collections

/-! ## Two runs -/

section Runs

variable (hf : f.tree.Linked) (hbound : f.BoundAlike p bindings) (hgate : isGate p = true)
  (hprune : f.prunes p = true)

include hf hprune

theorem notMem_ancestors_of_visible (hd : d ∈ f.visible) : p ∉ f.tree.ancestors d := by
  intro hp
  rw [((mem_visible_iff hf).mp hd).2 p hp] at hprune
  cases hprune

include hbound

theorem visible_redrawn : (f.redrawn p look bindings).visible = f.visible := by
  have hg : (f.redrawn p look bindings).tree.Linked := hf.redraw p look
  have hroot : (f.redrawn p look bindings).tree.root? = f.tree.root? := hf.root?_redraw
  rw [visible_eq_toEnter hg, visible_eq_toEnter hf, Tree.toEnter, Tree.toEnter, hroot]
  refine hf.agenda_redraw hprune (fun x hx hx_out => prunes_redrawn hf hbound hx hx_out) ?_
  intro r hr
  exact ⟨Tree.Linked.mem_of_mem_root? hr, hf.notMem_ancestors_root (Option.mem_toList.mp hr)⟩

include hgate

theorem work_redrawn (config : Config) (hd : d ∈ f.visible) :
    (f.redrawn p look bindings).work config d = f.work config d := by
  have hmem := mem_nodes_of_visible hf hd
  have hout := notMem_ancestors_of_visible hf hprune hd
  have hroute : route (f.redrawn p look bindings).tree (f.redrawn p look bindings).table d =
      route f.tree f.table d := route_redrawn hf hbound hmem hout
  have hshut : isShut f.tree f.table p = true := by
    rw [isShut, hgate]
    exact hprune
  rw [work, work, factsAt, factsAt, hroute]
  congr 1
  funext _
  refine Script.forM_congr fun k hk => ?_
  -- at `p` itself nothing is collected
  have hne : d ≠ p := by
    rintro rfl
    rw [facts_of_isGate f.tree f.table hgate] at hk
    exact absurd hk List.not_mem_nil
  exact extraction_redrawn hf hbound hmem hout hne hshut config.hover k

end Runs

/-- **What is below a pruned gate is not read.** Let the route of an invocation or a qualified name
`p` be to prune, and give the nodes below `p` any look and any bindings. Then the pass ends the same,
with the same summary or the same fault, and leaves the same destination and the same log. -/
theorem index_redrawn {σ : Type} [Sink σ] (hf : f.tree.Grown)
    (hkind : p.kind = .methodInvocation ∨ p.kind = .qualifiedName) (hprune : f.prunes p = true)
    (look : NodeId → Look) (hbound : f.BoundAlike p bindings) (config : Config) (s : σ) :
    (f.redrawn p look bindings).index config s = f.index config s := by
  have hlinked := hf.linked
  have hgate : isGate p = true := by
    rw [isGate, Bool.or_eq_true, decide_eq_true_eq, decide_eq_true_eq]
    exact hkind
  have hvisible : (f.redrawn p look bindings).visible = f.visible :=
    visible_redrawn hlinked hbound hprune
  have hscript : (f.redrawn p look bindings).script config = f.script config := by
    rw [script, script, hvisible]
    exact Script.forM_congr fun d hd => work_redrawn hlinked hbound hgate hprune config hd
  have hsize : (f.redrawn p look bindings).tree.size = f.tree.size := Tree.size_redraw ..
  have hcount : WalkStats.ofNodes (f.redrawn p look bindings).prunes f.visible =
      WalkStats.ofNodes f.prunes f.visible := by
    unfold WalkStats.ofNodes
    rw [List.countP_congr fun d hd => ?_]
    rw [prunes_redrawn hlinked hbound (mem_nodes_of_visible hlinked hd)
      (notMem_ancestors_of_visible hlinked hprune hd)]
  have hg : (f.redrawn p look bindings).tree.Linked := hlinked.redraw p look
  rw [index_eq hg, index_eq hlinked, hscript, hvisible, hcount, hsize]
  rfl

set_option maxRecDepth 10000 in
/-- In the small file the call hides its argument, which may as well be a nameless type that is bound
to another symbol. -/
theorem demo_index_redrawn :
    ∃ (p : Node) (look : NodeId → Look) (bindings : List (NodeId × SymbolId)),
      p ∈ demo.tree.nodes ∧ demo.BoundAlike p bindings ∧
      (demo.redrawn p look bindings).tree ≠ demo.tree ∧
      (demo.redrawn p look bindings).index .default MemorySink.empty =
        demo.index .default MemorySink.empty := by
  let call : Node := ⟨⟨5⟩, .methodInvocation, some ⟨3⟩, [⟨6⟩], none, demoSpan 3 1⟩
  let look : NodeId → Look := fun _ => ⟨.typeDecl, none, demoSpan 9 9⟩
  let bindings : List (NodeId × SymbolId) := (⟨6⟩, ⟨3⟩) :: demoTable.bindings
  have hbound : demo.BoundAlike call bindings := by
    intro n hn
    have hne : n ≠ ⟨6⟩ := by
      rintro rfl
      exact hn ⟨⟨6⟩, .simpleName, some ⟨5⟩, [], some "x", demoSpan 3 5⟩ (by decide +kernel) rfl
        (by decide +kernel)
    change ((⟨6⟩, ⟨3⟩) :: demoTable.bindings).lookup n = demoTable.bindings.lookup n
    rw [List.lookup_cons, beq_eq_false_iff_ne.mpr hne]
  refine ⟨call, look, bindings, by decide +kernel, hbound, by decide +kernel, ?_⟩
  exact index_redrawn demo_grown (Or.inl rfl) rfl look hbound .default MemorySink.empty

end File

end CodeNav
