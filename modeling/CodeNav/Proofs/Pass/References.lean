import CodeNav.Proofs.Extraction
import CodeNav.Proofs.Pass.Taken
import CodeNav.Proofs.Route

/-!
# No reference below a method is lost

The references of a method are collected by a loop of its own, not by the walk that decides which
nodes are visible. The loop stops at shut gates only, and a shut gate stops the walk as well; so it
comes to every node below the method that the walk enters (`mem_loop_of_visible`). What it offers
there is taken in every pass that succeeds (`references_taken`).
-/

namespace CodeNav

namespace Extraction

variable {t : Tree} {table : SymbolTable} {m d declared owner ident : Node} {s : SymbolId}
  {b : Symbol}

/-- The record of a reference to the symbol `b`, which is written with the given name. -/
def referenceRecord (ident : Node) (s : SymbolId) (b : Symbol) (name : String) : Record :=
  .reference ident.span b.declaration? s name (b.declaration? = some ident.span)

theorem referenceOf_of_ok (hresolve : table.resolveNamed? owner ident = some (s, b))
    (hok : (referenceOf table owner ident).result = .ok ()) :
    ∃ name, ident.name = some name ∧
      referenceRecord ident s b name ∈ (referenceOf table owner ident).offers := by
  rw [referenceOf, hresolve] at hok ⊢
  obtain ⟨name, hname, -⟩ := Script.result_bind_eq_ok_iff.mp hok
  refine ⟨name, text_eq_ok_iff.mp hname, ?_⟩
  exact Script.mem_offers_ofExcept_bind.mpr ⟨name, hname, List.mem_singleton_self _⟩

theorem site_of_ok (hshut : isShut t table d = false) (hreported : isReported t declared d = true)
    (hresolve : table.resolve? d.id = some (s, b))
    (hok : (site t table declared d).result = .ok ()) :
    ∃ name, d.name = some name ∧ referenceRecord d s b name ∈ (site t table declared d).offers := by
  have hself : table.resolveNamed? d d = some (s, b) := by
    rw [SymbolTable.resolveNamed?, Option.or_self, hresolve]
  rw [site, if_pos ⟨hshut, hreported⟩] at hok ⊢
  obtain ⟨_, -, hok⟩ := Script.result_bind_eq_ok_iff.mp hok
  obtain ⟨name, hname, hr⟩ := referenceOf_of_ok hself hok
  exact ⟨name, hname, Script.mem_offers_bind.mpr (Or.inr ⟨(), Script.result_notes _, hr⟩)⟩

/-- A method whose references are collected without a fault offers that of every bound name which
its loop comes to, of its own name too. -/
theorem reference_of_ok (h : t.Linked) (hm : m ∈ t.nodes) (hd : d ∈ t.nodes)
    (hloop : d ∈ t.agenda (isShut t table) (t.children m)) (hshut : isShut t table d = false)
    (hname : d.kind.isName = true) (hsegment : t.parentKind? d ≠ some .qualifiedName)
    (hresolve : table.resolve? d.id = some (s, b)) (hok : (reference t table m).result = .ok ()) :
    ∃ name, d.name = some name ∧ referenceRecord d s b name ∈ (reference t table m).offers := by
  rw [reference_eq h table hm] at hok ⊢
  obtain ⟨declared, hdeclared, hok⟩ := Script.result_bind_eq_ok_iff.mp hok
  obtain ⟨_, hown, hsites⟩ := Script.result_bind_eq_ok_iff.mp hok
  by_cases hid : d.id = declared.id
  · -- the name of the method itself is collected ahead of the loop
    obtain rfl := h.eq_of_id_eq hd (mem_of_identifier h hm hdeclared) hid
    have hresolve' : table.resolveNamed? m d = some (s, b) := by
      rw [SymbolTable.resolveNamed?, hresolve, Option.some_or]
    obtain ⟨name, hname, hr⟩ := referenceOf_of_ok hresolve' hown
    refine ⟨name, hname, ?_⟩
    exact Script.mem_offers_ofExcept_bind.mpr
      ⟨d, hdeclared, Script.mem_offers_bind.mpr (Or.inl hr)⟩
  · have hreported : isReported t declared d = true := by
      simp [isReported, hid, hname, hsegment]
    rw [Script.result_forM_eq_ok_iff] at hsites
    obtain ⟨name, hname, hr⟩ := site_of_ok hshut hreported hresolve (hsites d hloop)
    refine ⟨name, hname, ?_⟩
    refine Script.mem_offers_ofExcept_bind.mpr ⟨declared, hdeclared, ?_⟩
    refine Script.mem_offers_bind.mpr (Or.inr ⟨(), hown, ?_⟩)
    rw [Script.offers_forM_of_ok hsites]
    exact List.mem_flatMap.mpr ⟨d, hloop, hr⟩

end Extraction

open Extraction

namespace File

variable {σ : Type} [Sink σ] {f : File} {config : Config} {m d : Node}

theorem shows_of_visible (hd : d ∈ f.visible) : f.tree.shows f.prunes d = true :=
  (List.mem_filter.mp hd).2

/-- **The loop over a method misses nothing that the walk enters.** -/
theorem mem_loop_of_visible (hf : f.tree.Linked) (hm : m ∈ f.visible) (hd : d ∈ f.visible)
    (hbelow : m ∈ f.tree.ancestors d) :
    d ∈ f.tree.agenda (isShut f.tree f.table) (f.tree.children m) := by
  apply hf.mem_agenda_children_of_shows (mem_nodes_of_visible hf hm)
    (mem_nodes_of_visible hf hd) hbelow
  rw [Tree.shows_iff]
  intro a ha
  have hopen : f.prunes a = false := Tree.shows_iff.mp (shows_of_visible hd) a ha
  rw [isShut, Bool.and_eq_false_iff]
  exact Or.inr hopen

/-- **No reference below a method is lost.** In a pass that succeeds and collects references, let a
method and a name below it be entered by the walk. If the name is bound, is no segment of a
qualified name and is no pruned gate itself, the destination has taken its reference, whatever the
destination is. -/
theorem references_taken (hf : f.tree.Grown) (hon : config.facts.references = true) {s : σ}
    {summary : Summary} (hok : (f.index config (Ledger.opened s)).1 = .ok summary)
    (hm : m ∈ f.enteredInto config (Ledger.opened s)) (hmethod : m.kind = .methodDecl)
    (hd : d ∈ f.enteredInto config (Ledger.opened s)) (hbelow : m ∈ f.tree.ancestors d)
    (hname : d.kind = .simpleName ∨ d.kind = .qualifiedName) {x : SymbolId} {b : Symbol}
    (hbound : f.table.resolve? d.id = some (x, b))
    (hsegment : f.tree.parentKind? d ≠ some .qualifiedName)
    (hopen : ¬(d.kind = .qualifiedName ∧ f.prunes d = true)) :
    ∃ name, d.name = some name ∧
      .reference d.span b.declaration? x name (b.declaration? = some d.span) ∈
        (f.index config (Ledger.opened s)).2.sink.taken := by
  have hlinked := hf.linked
  have hm := visible_of_entered hlinked hm
  have hd := visible_of_entered hlinked hd
  have hisName : d.kind.isName = true := by
    rcases hname with hkind | hkind <;> rw [hkind] <;> rfl
  have hshut : isShut f.tree f.table d = false := by
    by_cases hgate : isGate d = true
    · have hkind : d.kind = .qualifiedName := by
        rcases isGate_iff.mp hgate with hkind | hkind
        · rw [hkind] at hisName
          cases hisName
        · exact hkind
      have hprunes : f.prunes d = false := Bool.eq_false_iff.mpr fun h => hopen ⟨hkind, h⟩
      rw [isShut, Bool.and_eq_false_iff]
      exact Or.inr hprunes
    · rw [isShut, Bool.eq_false_iff.mpr hgate, Bool.false_and]
  have hfacts : FactKind.reference ∈ f.factsAt config m :=
    List.mem_filter.mpr ⟨reference_mem_facts hmethod, hon⟩
  obtain ⟨hscript, htaken⟩ := taken_of_ok hlinked hok
  obtain ⟨hcollected, hoffers⟩ := mem_offers_script_of_ok hscript hm hfacts
  obtain ⟨name, hname, hr⟩ := reference_of_ok hlinked (mem_nodes_of_visible hlinked hm)
    (mem_nodes_of_visible hlinked hd) (mem_loop_of_visible hlinked hm hd hbelow) hshut hisName
    hsegment hbound hcollected
  exact ⟨name, hname, htaken (hoffers hr)⟩

set_option maxRecDepth 10000 in
/-- In the small file, the last name below the method refers to the variable `x`. -/
theorem demo_references_taken :
    ∃ m d, m ∈ demo.enteredInto .default (Ledger.opened MemorySink.empty) ∧ m.kind = .methodDecl ∧
      d ∈ demo.enteredInto .default (Ledger.opened MemorySink.empty) ∧ m ∈ demo.tree.ancestors d ∧
      demo.table.resolve? d.id = some (⟨2⟩, .var ⟨"x", "int", none, none⟩) ∧
      .reference (demoSpan 4 5) none ⟨2⟩ "x" false ∈
        (demo.index .default (Ledger.opened MemorySink.empty)).2.sink.taken := by
  let m : Node := ⟨⟨3⟩, .methodDecl, some ⟨1⟩, [⟨4⟩, ⟨5⟩, ⟨7⟩], none, demoSpan 2 1⟩
  let d : Node := ⟨⟨7⟩, .simpleName, some ⟨3⟩, [], some "x", demoSpan 4 5⟩
  have hok : (demo.index .default (Ledger.opened MemorySink.empty)).1 =
      .ok ⟨7, 2, ⟨1, 2, 1, 1, 1⟩⟩ := by
    rfl
  have hm : m ∈ demo.enteredInto .default (Ledger.opened MemorySink.empty) :=
    List.mem_of_getElem? (i := 3) rfl
  have hd : d ∈ demo.enteredInto .default (Ledger.opened MemorySink.empty) :=
    List.mem_of_getElem? (i := 6) rfl
  have hbelow : m ∈ demo.tree.ancestors d := List.mem_of_getElem? (i := 0) rfl
  obtain ⟨name, hname, hr⟩ := references_taken demo_grown rfl hok hm rfl hd hbelow (Or.inl rfl) rfl
    (by decide +kernel) (by decide)
  cases hname
  exact ⟨m, d, hm, rfl, hd, hbelow, rfl, hr⟩

end File

end CodeNav
