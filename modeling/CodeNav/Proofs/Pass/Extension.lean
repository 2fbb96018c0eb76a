import CodeNav.Proofs.Extraction
import CodeNav.Proofs.Pass.Memory
import CodeNav.Proofs.Route

/-!
# More bindings lose nothing

A table extends another if it has the same symbols and keeps every binding. With more bindings, more
gates open, more names stand for something, and a collection offers at least what it offered before,
as long as it does not fail for one of the new names (`covers_extraction`).

There is one thing that a new binding can take away. A declaration stands for what its name is bound
to, and its own binding counts only where the name has none; so to bind the name of a declaration
that is bound itself replaces one symbol by another. The comparison is therefore about tables that
bind the names of declarations, and not the declarations (`BindsNames`).
-/

namespace CodeNav

open Extraction

/-! ## Extensions of a table -/

/-- `table'` extends `table`: it has the same symbols, and keeps what is bound. -/
structure SymbolTable.Extends (table' table : SymbolTable) : Prop where
  symbols_eq : table'.symbols = table.symbols
  bound : ∀ n s, table.bound? n = some s → table'.bound? n = some s

/-- A declaration or type reference that has a name below it is not bound itself. -/
def SymbolTable.BindsNames (table : SymbolTable) (t : Tree) : Prop :=
  ∀ d ∈ t.nodes,
    (d.kind = .typeDecl ∨ d.kind = .methodDecl ∨ d.kind = .simpleVarDecl ∨ d.kind = .simpleType) →
    (∃ c ∈ t.children d, c.kind.isName = true) → table.bound? d.id = none

variable {t : Tree} {table table' : SymbolTable} {d ident declared : Node} {k : FactKind}

namespace SymbolTable

theorem extends_of_bind {n : NodeId} {s : SymbolId} (hbind : table.bind n s = .ok table')
    (hfree : table.bound? n = none) : table'.Extends table := by
  obtain ⟨-, rfl⟩ := bind_eq_ok_iff.mp hbind
  refine ⟨rfl, ?_⟩
  intro m s' hs'
  rw [bound?_cons]
  by_cases hm : m = n
  · rw [hm, hfree] at hs'
    cases hs'
  · rw [if_neg hm]
    exact hs'

namespace Extends

variable (h : table'.Extends table)

include h

theorem symbol?_eq (s : SymbolId) : table'.symbol? s = table.symbol? s := by
  rw [symbol?, symbol?, h.symbols_eq]

theorem type?_eq : table'.type? = table.type? := by
  funext s
  rw [type?, type?, h.symbol?_eq]

theorem knowsType_eq (owner : Option SymbolId) :
    table'.knowsType owner = table.knowsType owner := by
  rw [knowsType, knowsType, h.type?_eq]

theorem render_eq (options : HoverOptions) (b : Symbol) :
    render table' options b = render table options b := by
  have hname : table'.typeName? = table.typeName? := by
    funext s
    rw [typeName?, typeName?, h.type?_eq]
  cases b with
  | type ty =>
      rw [render, render, renderType, renderType, supertypesClause, supertypesClause, hname]
  | method m => rfl
  | var v => rfl

theorem resolve?_mono {n : NodeId} {x : SymbolId × Symbol} (hx : table.resolve? n = some x) :
    table'.resolve? n = some x := by
  obtain ⟨s, hs, hx⟩ := Option.bind_eq_some_iff.mp hx
  rw [resolve?, h.bound n s hs, Option.bind_some, h.symbol?_eq]
  exact hx

theorem methodAt?_mono {n : NodeId} {m : MethodSymbol} (hm : table.methodAt? n = some m) :
    table'.methodAt? n = some m := by
  obtain ⟨x, hx, hm⟩ := Option.bind_eq_some_iff.mp hm
  rw [methodAt?, h.resolve?_mono hx]
  exact hm

theorem variableAt?_mono {n : NodeId} {v : VariableSymbol} (hv : table.variableAt? n = some v) :
    table'.variableAt? n = some v := by
  obtain ⟨x, hx, hv⟩ := Option.bind_eq_some_iff.mp hv
  rw [variableAt?, h.resolve?_mono hx]
  exact hv

/-! ## Gates open -/

theorem signal_mono (hd : (route t table d).signal = .descend) :
    (route t table' d).signal = .descend := by
  by_cases hgate : isGate d = true
  · unfold route at hd ⊢
    rcases isGate_iff.mp hgate with hkind | hkind
    · rw [hkind] at hd ⊢
      obtain ⟨m, hm, hknown⟩ := signal_invocationRoute_iff.mp hd
      rw [← h.knowsType_eq] at hknown
      exact signal_invocationRoute_iff.mpr ⟨m, h.methodAt?_mono hm, hknown⟩
    · rw [hkind] at hd ⊢
      obtain ⟨v, hv, hknown⟩ := signal_qualifiedNameRoute_iff.mp hd
      rw [← h.knowsType_eq] at hknown
      exact signal_qualifiedNameRoute_iff.mpr ⟨v, h.variableAt?_mono hv, hknown⟩
  · rw [route_eq_of_not_isGate t table' table (Bool.eq_false_iff.mpr hgate)]
    exact hd

theorem prune_of_prune (hd : (route t table' d).signal = .prune) :
    (route t table d).signal = .prune := by
  cases hsignal : (route t table d).signal with
  | prune => rfl
  | descend =>
      rw [h.signal_mono hsignal] at hd
      cases hd

theorem isShut_of_isShut (hd : isShut t table' d = true) : isShut t table d = true := by
  obtain ⟨hgate, hprune⟩ := Bool.and_eq_true_iff.mp hd
  rw [isShut, hgate, h.prune_of_prune (of_decide_eq_true hprune)]
  rfl

/-! ## Names resolve -/

variable (hnames : table'.BindsNames t)

omit hnames in
theorem resolveNamed?_self_mono {x : SymbolId × Symbol} (hx : table.resolveNamed? d d = some x) :
    table'.resolveNamed? d d = some x := by
  rw [resolveNamed?, Option.or_self] at hx ⊢
  exact h.resolve?_mono hx

include hnames

/-- Where facts are collected, a name that stands for something stands for the same with more
bindings. -/
theorem resolveNamed?_mono (hd : d ∈ t.nodes) (hk : k ∈ (route t table d).facts)
    (hident : t.identifier d = .ok ident) {x : SymbolId × Symbol}
    (hx : table.resolveNamed? d ident = some x) : table'.resolveNamed? d ident = some x := by
  rcases identifier_cases hident with rfl | ⟨hname, hchild, hisName⟩
  · exact h.resolveNamed?_self_mono hx
  · -- a node with a name below it is not bound itself, so the name resolves through its own binding
    have hne : d.kind ≠ .simpleName := by
      intro hsimple
      rw [hsimple] at hname
      cases hname
    have hkind := kind_of_mem_facts hk
    simp only [hne, or_false] at hkind
    have hfree := hnames d hd hkind ⟨ident, hchild, hisName⟩
    rw [resolveNamed?, Option.or_eq_some_iff] at hx
    rcases hx with hx | ⟨-, hx⟩
    · rw [resolveNamed?, h.resolve?_mono hx, Option.some_or]
    · obtain ⟨s, hs, -⟩ := Option.bind_eq_some_iff.mp (h.resolve?_mono hx)
      rw [hfree] at hs
      cases hs

end Extends

end SymbolTable

/-! ## Collections cover -/

namespace Extraction

open Script (Covers covers_of_silent covers_forM)

theorem covers_referenceOf {owner : Node}
    (hmono : ∀ x, table.resolveNamed? owner ident = some x →
      table'.resolveNamed? owner ident = some x) :
    (referenceOf table' owner ident).Covers (referenceOf table owner ident) := by
  rw [referenceOf, referenceOf]
  cases hx : table.resolveNamed? owner ident with
  | none => exact covers_of_silent rfl rfl
  | some x =>
      rw [hmono x hx]
      exact Covers.refl _

section Covers

variable (h : table'.Extends table)

include h

theorem covers_site (d : Node) : (site t table' declared d).Covers (site t table declared d) := by
  rw [site, site]
  apply Covers.bind (covers_of_silent (Script.result_notes _) (Script.offers_notes _))
  intro _ _
  by_cases hopen : isShut t table d = false ∧ isReported t declared d = true
  · have hopen' : isShut t table' d = false := by
      apply Bool.eq_false_iff.mpr
      intro hshut
      rw [h.isShut_of_isShut hshut] at hopen
      cases hopen.1
    rw [if_pos hopen, if_pos ⟨hopen', hopen.2⟩]
    exact covers_referenceOf fun x => h.resolveNamed?_self_mono
  · rw [if_neg hopen]
    exact covers_of_silent rfl rfl

variable (hnames : table'.BindsNames t) (hd : d ∈ t.nodes)

include hnames hd

theorem covers_definition (hk : k ∈ (route t table d).facts) :
    (definition t table' d).Covers (definition t table d) := by
  rw [definition, definition]
  apply Covers.bind (Covers.refl _)
  intro ident hident
  cases hx : table.resolveNamed? d ident with
  | none => exact covers_of_silent rfl rfl
  | some x =>
      rw [h.resolveNamed?_mono hnames hd hk hident hx]
      exact Covers.refl _

theorem covers_hover (options : HoverOptions) (hk : k ∈ (route t table d).facts) :
    (hover t table' options d).Covers (hover t table options d) := by
  rw [hover, hover]
  apply Covers.bind (Covers.refl _)
  intro ident hident
  cases hx : table.resolveNamed? d ident with
  | none => exact covers_of_silent rfl rfl
  | some x =>
      obtain ⟨s, b⟩ := x
      rw [h.resolveNamed?_mono hnames hd hk hident hx]
      simp only [h.render_eq]
      exact Covers.refl _

theorem covers_implementation (hk : k ∈ (route t table d).facts) :
    (implementation t table' d).Covers (implementation t table d) := by
  rw [implementation, implementation]
  apply Covers.bind (Covers.refl _)
  intro ident hident
  by_cases hin : t.inTypeDecl ident = true
  · rw [if_pos hin, if_pos hin]
    cases htype : (table.resolveNamed? d ident).bind (·.2.asType?) with
    | none => exact covers_of_silent rfl rfl
    | some declared =>
        obtain ⟨x, hx, hdeclared⟩ := Option.bind_eq_some_iff.mp htype
        rw [h.resolveNamed?_mono hnames hd hk hident hx, Option.bind_some, hdeclared]
        simp only [implementationEdges_congr h.type?_eq]
        exact Covers.refl _
  · rw [if_neg hin, if_neg hin]
    exact Covers.refl _

theorem covers_reference (hlinked : t.Linked) (hk : k ∈ (route t table d).facts) :
    (reference t table' d).Covers (reference t table d) := by
  rw [reference_eq hlinked table' hd, reference_eq hlinked table hd]
  apply Covers.bind (Covers.refl _)
  intro declared hdeclared
  apply Covers.bind (covers_referenceOf fun x => h.resolveNamed?_mono hnames hd hk hdeclared)
  intro _ _
  -- a gate that is shut with more bindings is shut with fewer, so the loop goes further
  have hagenda : (t.agenda (isShut t table) (t.children d)).Sublist
      (t.agenda (isShut t table') (t.children d)) :=
    hlinked.agenda_mono (fun _ => h.isShut_of_isShut) fun c hc => hlinked.mem_of_mem_children hd hc
  apply covers_forM hagenda.subset
  intro x _
  exact covers_site h x

/-- **A collection with more bindings** offers at least as much, unless it fails. -/
theorem covers_extraction (hlinked : t.Linked) (options : HoverOptions)
    (hk : k ∈ (route t table d).facts) :
    (extraction t table' options k d).Covers (extraction t table options k d) := by
  cases k with
  | definition => exact covers_definition h hnames hd hk
  | reference => exact covers_reference h hnames hd hlinked hk
  | hover => exact covers_hover h hnames hd options hk
  | implementation => exact covers_implementation h hnames hd hk

end Covers

end Extraction

/-! ## Passes with more bindings -/

namespace File

def withTable (f : File) (table : SymbolTable) : File := { f with table := table }

variable {f : File} {config : Config}

section Extension

variable (h : table'.Extends f.table)

include h

theorem prunes_of_prunes (hd : (f.withTable table').prunes d = true) : f.prunes d = true :=
  decide_eq_true (h.prune_of_prune (of_decide_eq_true hd))

theorem visible_sublist : f.visible.Sublist (f.withTable table').visible := by
  apply List.monotone_filter_right
  intro d hd
  rw [List.all_eq_true] at hd ⊢
  intro a ha
  have hopen := hd a ha
  rw [Bool.not_eq_true'] at hopen ⊢
  apply Bool.eq_false_iff.mpr
  intro hprunes
  rw [prunes_of_prunes h hprunes] at hopen
  cases hopen

theorem tasks_subset (config : Config) : f.tasks config ⊆ (f.withTable table').tasks config := by
  intro task htask
  obtain ⟨hd, hk⟩ := mem_tasks.mp htask
  rw [factsAt, facts_route_eq f.tree f.table table'] at hk
  exact mem_tasks.mpr ⟨(visible_sublist h).subset hd, hk⟩

theorem covers_tasks (hf : f.tree.Linked) (hnames : table'.BindsNames f.tree) (config : Config) :
    (forM ((f.withTable table').tasks config) ((f.withTable table').collection config)).Covers
      (forM (f.tasks config) (f.collection config)) := by
  apply Script.covers_forM (tasks_subset h config)
  intro task htask
  obtain ⟨hd, hk⟩ := mem_tasks.mp htask
  exact covers_extraction h hnames (mem_nodes_of_visible hf hd) hf config.hover
    (List.mem_of_mem_filter hk)

end Extension

/-- **More bindings lose nothing.** Let a table extend the one of the file, and let it bind the
names of declarations, not the declarations. If a pass with the larger table succeeds, so does the
pass with the smaller one. The larger table has all the nodes and all the records of the smaller
one, and at least as many of each kind. -/
theorem more_bindings_lose_nothing (hf : f.tree.Grown) (h : table'.Extends f.table)
    (hnames : table'.BindsNames f.tree) {summary' : Summary}
    (hok : (f.withTable table').result config = .ok summary') :
    ∃ summary, f.result config = .ok summary ∧
      (f.entered config).Sublist ((f.withTable table').entered config) ∧
      f.delivered config ⊆ (f.withTable table').delivered config ∧
      summary.nodesVisited ≤ summary'.nodesVisited ∧
      ∀ k, summary.facts.of k ≤ summary'.facts.of k := by
  have hf := hf.linked
  have hf' : (f.withTable table').tree.Linked := hf
  have hnone' := failing?_eq_none_of_result hf' hok
  obtain ⟨hresult, hoffers⟩ := covers_tasks h hf hnames config ()
    (Script.result_forM_eq_ok_iff.mpr (failing?_eq_none_iff.mp hnone'))
  have hnone := failing?_eq_none_iff.mpr (Script.result_forM_eq_ok_iff.mp hresult)
  obtain ⟨summary, hrun, hvisited, -, hcounts⟩ := result_of_failing?_eq_none hf hnone
  obtain ⟨summary₁, hrun', hvisited', -, hcounts'⟩ := result_of_failing?_eq_none hf' hnone'
  obtain rfl := Except.ok.inj (hrun'.symm.trans hok)
  have hvisible := visible_sublist h
  refine ⟨summary, hrun, ?_, ?_, ?_, ?_⟩
  · rw [entered_of_failing?_eq_none hf hnone, entered_of_failing?_eq_none hf' hnone']
    exact hvisible
  · rw [delivered_eq hf, delivered_eq hf']
    intro r hr
    exact List.mem_eraseDups.mpr (hoffers (List.mem_eraseDups.mp hr))
  · rw [hvisited, hvisited']
    exact hvisible.length_le
  · intro k
    rw [hcounts, hcounts', delivered_eq hf, delivered_eq hf']
    exact length_filter_eraseDups_le hoffers _

set_option maxRecDepth 10000 in
/-- Once the call in the small file is bound to the method `run`, whose type is known, the pass goes
below it and finds one more reference. -/
theorem demo_more_bindings :
    ∃ table' summary', demoTable.bind ⟨5⟩ ⟨1⟩ = .ok table' ∧
      (demo.withTable table').result .default = .ok summary' ∧ summary'.nodesVisited = 8 ∧
      summary'.facts.of .reference = 3 ∧
      ∃ summary, demo.result .default = .ok summary ∧ summary.nodesVisited = 7 ∧
        summary.facts.of .reference = 2 ∧
        (demo.entered .default).Sublist ((demo.withTable table').entered .default) ∧
        demo.delivered .default ⊆ (demo.withTable table').delivered .default ∧
        ∀ k, summary.facts.of k ≤ summary'.facts.of k := by
  let table' : SymbolTable := { demoTable with bindings := (⟨5⟩, ⟨1⟩) :: demoTable.bindings }
  have hbind : demoTable.bind ⟨5⟩ ⟨1⟩ = .ok table' := by
    rfl
  have hrun : demo.result .default = .ok ⟨7, 2, ⟨1, 2, 1, 1, 1⟩⟩ := by
    rfl
  have hrun' : (demo.withTable table').result .default = .ok ⟨8, 1, ⟨1, 3, 1, 1, 1⟩⟩ := by
    rfl
  have hnames : table'.BindsNames demo.tree := by
    unfold SymbolTable.BindsNames
    decide +kernel
  obtain ⟨summary, hok, hentered, hdelivered, -, hcounts⟩ :=
    more_bindings_lose_nothing demo_grown (SymbolTable.extends_of_bind hbind rfl) hnames hrun'
  obtain rfl := Except.ok.inj (hrun.symm.trans hok)
  exact ⟨table', _, hbind, hrun', rfl, rfl, _, hok, rfl, rfl, hentered, hdelivered, hcounts⟩

end File

end CodeNav
