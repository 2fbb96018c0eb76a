import CodeNav.Proofs.Extraction
import CodeNav.Proofs.Pass.Taken

/-!
# One fact per identifier

An identifier is reached in several ways: through the declaration that it names, on its own, and from
every method around it. All of them give the same record, or none. So, where the ranges of nodes
tell nodes apart, no destination ever takes two definitions, two references or two hovers of one
range (`one_fact_per_range`), whatever it refuses in between.
-/

namespace CodeNav

open Extraction

namespace File

variable {σ : Type} [Sink σ] {f : File} {r r' : Record}

/-- Two facts of one kind and one range are equal, if ranges tell nodes apart. -/
theorem eq_of_range_eq (hf : f.tree.Linked)
    (hspan : ∀ d ∈ f.tree.nodes, ∀ e ∈ f.tree.nodes, d.span = e.span → d = e) {config : Config}
    (hkind : r.kind ≠ .implementation) (hr : r ∈ (f.script config).offers)
    (hr' : r' ∈ (f.script config).offers) (hkinds : r.kind = r'.kind)
    (hrange : r.range = r'.range) : r = r' := by
  -- each record is a fact about an identifier, through a node of the tree
  have habout : ∀ {r : Record}, r ∈ (f.script config).offers → r.kind ≠ .implementation →
      ∃ owner ident, owner ∈ f.tree.nodes ∧
        IsFactAbout f.tree f.table config.hover r.kind owner ident r := by
    intro r hr hkind
    obtain ⟨d, hd, k, hr⟩ := mem_offers_script hr
    have hd := mem_nodes_of_visible hf hd
    obtain rfl := kind_of_mem_extraction hf hd hr
    obtain ⟨owner, ident, howner, -, hfact⟩ := mem_offers_extraction hf hd hkind hr
    exact ⟨owner, ident, ((hf.mem_preorder_iff hd).mp howner).1, hfact⟩
  obtain ⟨owner, ident, howner, hfact⟩ := habout hr hkind
  obtain ⟨owner', ident', howner', hfact'⟩ := habout hr' (hkinds ▸ hkind)
  rw [← hkinds] at hfact'
  have hident : ident = ident' :=
    hspan _ (mem_of_identifier hf howner hfact.1) _ (mem_of_identifier hf howner' hfact'.1)
      (by rw [← hfact.range_eq, ← hfact'.range_eq, hrange])
  subst hident
  exact hfact.unique hf howner howner' hfact'

/-- **One fact per range.** In a tree where different nodes have different ranges, no two of the
definitions that a destination takes in a pass have the same range; nor have two of the references,
or two of the hovers. The pass may succeed or fail, and the destination may refuse what it likes. -/
theorem one_fact_per_range (hf : f.tree.Grown)
    (hspan : ∀ d ∈ f.tree.nodes, ∀ e ∈ f.tree.nodes, d.span = e.span → d = e) (config : Config)
    (s : σ) {kind : FactKind} (hkind : kind ≠ .implementation) :
    (((f.index config (Ledger.opened s)).2.sink.taken.filter (·.kind = kind)).map
      (·.range)).Nodup := by
  have hkept := kept_index hf.linked config s
  have hnodup : (f.index config (Ledger.opened s)).2.sink.taken.Nodup := by
    rw [hkept.taken_eq]
    exact List.nodup_reverse.mpr hkept.nodup
  have hoffered : ∀ r ∈ (f.index config (Ledger.opened s)).2.sink.taken,
      r ∈ (f.script config).offers := by
    intro r hr
    rw [hkept.taken_eq, List.mem_reverse] at hr
    exact hkept.subset hr
  refine List.Nodup.map_on ?_ (hnodup.filter _)
  intro r hr r' hr' hrange
  obtain ⟨hr, hrk⟩ := List.mem_filter.mp hr
  obtain ⟨hr', hrk'⟩ := List.mem_filter.mp hr'
  have hrk : r.kind = kind := of_decide_eq_true hrk
  have hrk' : r'.kind = kind := of_decide_eq_true hrk'
  exact eq_of_range_eq hf.linked hspan (hrk ▸ hkind) (hoffered r hr) (hoffered r' hr')
    (hrk.trans hrk'.symm) hrange

set_option maxRecDepth 10000 in
/-- In the small file the type is defined through its declaration and on its own, which is one
definition; the ranges of its references differ. -/
theorem demo_one_reference_per_range :
    (∀ d ∈ demo.tree.nodes, ∀ e ∈ demo.tree.nodes, d.span = e.span → d = e) ∧
      ((demo.index .default (Ledger.opened MemorySink.empty)).2.sink.taken.map (·.kind)) =
        [.definition, .hover, .implementation, .reference, .reference] ∧
      (((demo.index .default (Ledger.opened MemorySink.empty)).2.sink.taken.filter
        (·.kind = .reference)).map (·.range)).Nodup := by
  have hspan : ∀ d ∈ demo.tree.nodes, ∀ e ∈ demo.tree.nodes, d.span = e.span → d = e := by
    decide +kernel
  have hkind : FactKind.reference ≠ .implementation := by decide
  exact ⟨hspan, rfl, one_fact_per_range demo_grown hspan .default MemorySink.empty hkind⟩

end File

end CodeNav
