import CodeNav.Proofs.Extraction
import CodeNav.Proofs.Pass.Memory
import CodeNav.Proofs.Route

/-!
# Why a pass fails

Names that stand for nothing never fail a pass: whatever the table says, or does not say, they are
noted and skipped. Only two flaws of the tree do. Either a node that is entered and should have a
name has none, or a name that stands for something is blank (`Extraction.IsBlank`).
`fault_is_flaw` says so for every table, every configuration and every destination that never
fails, so a tree without the two flaws is always indexed.
-/

namespace CodeNav

namespace Extraction

variable {t : Tree} {table : SymbolTable} {options : HoverOptions} {d : Node} {k : FactKind}
  {e : Fault}

/-! ## The two flaws -/

/-- Facts are collected at the node under a name that it should have: it is a declaration, or a type
reference that stands directly in a type declaration. -/
def ExpectsName (t : Tree) (d : Node) : Prop :=
  d.kind = .typeDecl ∨ d.kind = .methodDecl ∨ d.kind = .simpleVarDecl ∨
    d.kind = .simpleType ∧ t.inTypeDecl d = true

/-- A name without text that stands for something, by its own binding or by that of the node that it
names. -/
def IsBlank (t : Tree) (table : SymbolTable) (n : Node) : Prop :=
  n.kind.isName = true ∧ n.name = none ∧
    ((table.resolve? n.id).isSome = true ∨
      ∃ p, t.parent? n = some p ∧ ExpectsName t p ∧ (table.resolve? p.id).isSome = true)

instance (t : Tree) (d : Node) : Decidable (ExpectsName t d) := inferInstanceAs (Decidable (_ ∨ _))

/-- Facts are collected at a name, or at a node that should have one. -/
theorem expectsName_of_mem_facts (hk : k ∈ (route t table d).facts) :
    d.kind = .simpleName ∨ ExpectsName t d := by
  rcases kind_of_mem_facts hk with hkind | hkind | hkind | hkind | hkind
  · exact Or.inr (Or.inl hkind)
  · exact Or.inr (Or.inr (Or.inl hkind))
  · exact Or.inr (Or.inr (Or.inr (Or.inl hkind)))
  · -- a type reference elsewhere is passed by
    have hin : t.inTypeDecl d = true := by
      by_contra hin
      unfold route at hk
      rw [hkind] at hk
      simp [hin, Route.pass] at hk
    exact Or.inr (Or.inr (Or.inr (Or.inr ⟨hkind, hin⟩)))
  · exact Or.inl hkind

theorem isName_of_identifier {owner ident : Node} (hident : t.identifier owner = .ok ident)
    (htext : ident.name = none) : ident.kind.isName = true := by
  rw [Tree.identifier] at hident
  split at hident
  · rename_i hname
    exact Except.ok.inj hident ▸ hname
  · split at hident
    · rename_i c hfind
      have hkind := List.find?_some (p := fun c : Node => c.kind.isName) hfind
      exact Except.ok.inj hident ▸ hkind
    · split at hident
      · rename_i hsome
        rw [Except.ok.inj hident, htext] at hsome
        cases hsome
      · cases hident

theorem isBlank_of_isTextless (h : t.Linked) (hd : d ∈ t.nodes)
    (hk : k ∈ (route t table d).facts) (he : IsTextless t table d e) :
    ∃ n ∈ t.nodes, IsBlank t table n ∧ e = .missingName n.id n.kind := by
  obtain ⟨owner, ident, x, howner, hwhich, hident, hresolve, htext⟩ := he
  obtain ⟨hnone, rfl⟩ := text_eq_error_iff.mp htext
  have hmem := ((h.mem_preorder_iff hd).mp howner).1
  have hname := isName_of_identifier hident hnone
  refine ⟨ident, mem_of_identifier h hmem hident, ⟨hname, hnone, ?_⟩, rfl⟩
  rcases identifier_cases hident with rfl | ⟨hnot, hchild, -⟩
  · -- the name is its own owner, so the binding is its own
    rw [SymbolTable.resolveNamed?, Option.or_self] at hresolve
    exact Or.inl (by rw [hresolve, Option.isSome_some])
  · -- the name is a child of `d`, which facts are collected at
    have hown : owner = d := by
      rcases hwhich with hown | hown
      · exact hown
      · rw [hown, hname] at hnot
        cases hnot
    subst hown
    have hexpects : ExpectsName t owner := by
      rcases expectsName_of_mem_facts hk with hkind | hexpects
      · rw [hkind] at hnot
        cases hnot
      · exact hexpects
    rw [SymbolTable.resolveNamed?, Option.or_eq_some_iff] at hresolve
    rcases hresolve with hresolve | ⟨-, hresolve⟩
    · exact Or.inl (by rw [hresolve, Option.isSome_some])
    · exact Or.inr ⟨owner, h.parent?_of_mem_children hmem hchild, hexpects,
        by rw [hresolve, Option.isSome_some]⟩

/-- **Why a collection fails.** Where facts are collected, only the two flaws are faults. -/
theorem flaw_of_extraction (h : t.Linked) (hd : d ∈ t.nodes) (hk : k ∈ (route t table d).facts)
    (he : (extraction t table options k d).result = .error e) :
    ∃ n ∈ t.nodes, e = .missingName n.id n.kind ∧
      (n = d ∧ ExpectsName t n ∧ ¬ IsNamed t n ∨ IsBlank t table n) := by
  rcases fault_of_extraction h hd he with he | he
  · obtain ⟨hname, hnamed, rfl⟩ := identifier_eq_error_iff.mp he
    refine ⟨d, hd, rfl, Or.inl ⟨rfl, ?_, hnamed⟩⟩
    rcases expectsName_of_mem_facts hk with hkind | hexpects
    · rw [hkind] at hname
      cases hname
    · exact hexpects
  · obtain ⟨n, hn, hblank, rfl⟩ := isBlank_of_isTextless h hd hk he
    exact ⟨n, hn, rfl, Or.inr hblank⟩

theorem identifier_of_extraction (hok : (extraction t table options k d).result = .ok ()) :
    ∃ ident, t.identifier d = .ok ident := by
  cases k <;>
    obtain ⟨ident, hident, -⟩ := Script.result_bind_eq_ok_iff.mp hok <;>
    exact ⟨ident, hident⟩

/-- A definition that succeeds has found text wherever the identifier resolves. -/
theorem text_of_definition {ident : Node} {x : SymbolId × Symbol}
    (hident : t.identifier d = .ok ident) (hx : table.resolveNamed? d ident = some x)
    (hok : (definition t table d).result = .ok ()) : ident.name.isSome = true := by
  obtain ⟨ident', hident', hok⟩ := Script.result_bind_eq_ok_iff.mp hok
  obtain rfl := Except.ok.inj (hident.symm.trans hident')
  rw [hx] at hok
  obtain ⟨name, hname, -⟩ := Script.result_bind_eq_ok_iff.mp hok
  rw [text_eq_ok_iff.mp hname, Option.isSome_some]

end Extraction

namespace File

open Extraction

variable {σ : Type} [Sink σ] {s : σ} {f : File} {config : Config}

/-! ## A whole pass -/

theorem ok_or_flaw (hf : f.tree.Linked) (config : Config) (hs : Sink.NeverFails s) :
    (∃ summary, (f.index config s).1 = .ok summary) ∨
      ∃ n ∈ f.tree.nodes, (f.index config s).1 = .error (.missingName n.id n.kind) ∧
        (n ∈ f.enteredInto config s ∧ ExpectsName f.tree n ∧ ¬ IsNamed f.tree n ∨
          IsBlank f.tree f.table n) := by
  rcases hfailing : f.failing? config with _ | ⟨d, k⟩
  · obtain ⟨summary, hok, -⟩ := index_of_failing?_eq_none hf hs hfailing
    exact Or.inl ⟨summary, hok⟩
  · right
    obtain ⟨before, rest, e, hsplit, -, he⟩ := split_of_failing? hfailing
    have htask : (d, k) ∈ f.tasks config := by simp [hsplit]
    obtain ⟨hd, hk⟩ := mem_tasks.mp htask
    have hentered := List.mem_of_getLast? (getLast?_enteredInto hf hs hfailing)
    obtain ⟨n, hn, rfl, hflaw⟩ :=
      flaw_of_extraction hf (mem_nodes_of_visible hf hd) (List.mem_of_mem_filter hk) he
    refine ⟨n, hn, index_of_failing? hf hs hfailing he, ?_⟩
    rcases hflaw with ⟨rfl, hexpects, hnamed⟩ | hblank
    · exact Or.inl ⟨hentered, hexpects, hnamed⟩
    · exact Or.inr hblank

theorem collection_of_ok (hf : f.tree.Linked) (hs : Sink.NeverFails s) {summary : Summary}
    (hok : (f.index config s).1 = .ok summary) {d : Node} (hd : d ∈ f.visible) {k : FactKind}
    (hk : k ∈ f.factsAt config d) : (f.collection config (d, k)).result = .ok () := by
  rcases hfailing : f.failing? config with _ | task
  · exact failing?_eq_none_iff.mp hfailing (d, k) (mem_tasks.mpr ⟨hd, hk⟩)
  · obtain ⟨-, -, e, -, -, he⟩ := split_of_failing? hfailing
    rw [index_of_failing? hf hs hfailing he] at hok
    cases hok

/-- **Only a flawed tree fails.** Whatever the table and the configuration are, a pass into a
destination that never fails ends in one of two ways. It succeeds, and then it has found a name at
each visible node where it collects facts, and a text for each definition that resolves. Or it fails
at a node of the tree that lacks its name: an entered one that should have a name, or a blank one.
So a tree where every name has text, and every node that should have a name does, is always
indexed. -/
theorem fault_is_flaw (hf : f.tree.Grown) (config : Config) (hs : Sink.NeverFails s) :
    ((∃ summary, (f.index config s).1 = .ok summary) ∨
      ∃ id n, f.tree.get? id = some n ∧
        (f.index config s).1 = .error (.missingName id n.kind) ∧
        (n ∈ f.enteredInto config s ∧ ExpectsName f.tree n ∧ ¬ IsNamed f.tree n ∨
          IsBlank f.tree f.table n)) ∧
    ((∀ n ∈ f.tree.nodes, n.kind.isName = true → n.name.isSome = true) →
      (∀ n ∈ f.tree.nodes, ExpectsName f.tree n → IsNamed f.tree n) →
      ∃ summary, (f.index config s).1 = .ok summary) ∧
    ∀ summary, (f.index config s).1 = .ok summary →
      ∀ d ∈ f.visible, ∀ k ∈ f.factsAt config d, ∃ ident, f.tree.identifier d = .ok ident ∧
        (k = .definition → (f.table.resolveNamed? d ident).isSome = true →
          ident.name.isSome = true) := by
  have hends := ok_or_flaw hf.linked config hs
  refine ⟨?_, ?_, ?_⟩
  · rcases hends with hok | ⟨n, hn, he, hflaw⟩
    · exact Or.inl hok
    · exact Or.inr ⟨n.id, n, hf.linked.get?_id hn, he, hflaw⟩
  · intro htext hnamed
    rcases hends with hok | ⟨n, hn, -, ⟨-, hexpects, hnot⟩ | ⟨hname, hnone, -⟩⟩
    · exact hok
    · exact absurd (hnamed n hn hexpects) hnot
    · have hsome := htext n hn hname
      rw [hnone] at hsome
      cases hsome
  · intro summary hok d hd k hk
    have hcollection := collection_of_ok hf.linked hs hok hd hk
    obtain ⟨ident, hident⟩ := identifier_of_extraction hcollection
    refine ⟨ident, hident, ?_⟩
    rintro rfl hresolve
    obtain ⟨x, hx⟩ := Option.isSome_iff_exists.mp hresolve
    exact text_of_definition hident hx hcollection

/-- A type whose name has no text; the declaration is bound, and the name is not. -/
def blankDemo : File where
  document := "Foo.java"
  tree := [.root .compilationUnit (demoSpan 1 1), .child ⟨0⟩ .typeDecl none (demoSpan 1 2),
    .child ⟨1⟩ .simpleName none (demoSpan 1 7)].foldl Tree.attempt .empty
  table := ⟨#[.type ⟨"demo.Foo", .classType, none, [], none⟩], [(⟨1⟩, ⟨0⟩)]⟩

theorem blankDemo_grown : blankDemo.tree.Grown := ⟨_, rfl⟩

set_option maxRecDepth 10000 in
/-- The small file has neither flaw. The one with the nameless type has the first, and fails at that
type; the one with the blank name has the second, and fails at that name. -/
theorem demo_fault_is_flaw :
    (∃ summary, (demo.index .default MemorySink.empty).1 = .ok summary ∧
      ∀ d ∈ demo.visible, ∀ k ∈ demo.factsAt .default d,
        ∃ ident, demo.tree.identifier d = .ok ident) ∧
    (∃ n ∈ brokenDemo.enteredInto .default MemorySink.empty,
      (brokenDemo.index .default MemorySink.empty).1 = .error (.missingName (.ofNat 8) n.kind) ∧
        ExpectsName brokenDemo.tree n ∧ ¬ IsNamed brokenDemo.tree n) ∧
    ∃ n, blankDemo.tree.get? ⟨2⟩ = some n ∧
      (blankDemo.index .default MemorySink.empty).1 = .error (.missingName ⟨2⟩ n.kind) ∧
      IsBlank blankDemo.tree blankDemo.table n := by
  have hnever := MemorySink.neverFails_empty
  refine ⟨?_, ?_, ?_⟩
  · obtain ⟨-, hok, hnames⟩ := fault_is_flaw demo_grown .default hnever
    obtain ⟨summary, hsummary⟩ := hok (by decide) (by decide)
    refine ⟨summary, hsummary, fun d hd k hk => ?_⟩
    obtain ⟨ident, hident, -⟩ := hnames summary hsummary d hd k hk
    exact ⟨ident, hident⟩
  · have hrun : (brokenDemo.index .default MemorySink.empty).1 =
        .error (.missingName (.ofNat 8) .typeDecl) := by
      rfl
    rcases (fault_is_flaw brokenDemo_grown .default hnever).1 with
      ⟨summary, hok⟩ | ⟨id, n, -, he, hflaw⟩
    · cases hok.symm.trans hrun
    · obtain ⟨rfl, hkind⟩ := Fault.missingName.inj (Except.error.inj (he.symm.trans hrun))
      rcases hflaw with ⟨hentered, hexpects, hnamed⟩ | ⟨hname, -⟩
      · exact ⟨n, hentered, he, hexpects, hnamed⟩
      · rw [hkind] at hname
        cases hname
  · have hrun : (blankDemo.index .default MemorySink.empty).1 =
        .error (.missingName ⟨2⟩ .simpleName) := by
      rfl
    rcases (fault_is_flaw blankDemo_grown .default hnever).1 with
      ⟨summary, hok⟩ | ⟨id, n, hn, he, hflaw⟩
    · cases hok.symm.trans hrun
    · obtain ⟨rfl, hkind⟩ := Fault.missingName.inj (Except.error.inj (he.symm.trans hrun))
      rcases hflaw with ⟨-, hexpects, -⟩ | hblank
      · -- a name is not expected to have one
        rcases hexpects with h | h | h | ⟨h, -⟩ <;>
          exact absurd (hkind.symm.trans h) (by decide)
      · exact ⟨n, hn, he, hblank⟩

end File

end CodeNav
