import CodeNav.Proofs.Extraction
import CodeNav.Proofs.Pass.Refusal
import CodeNav.Proofs.Route

/-!
# Definitions come first

A hover text and the edges of a type build on the definition of the name that they are about. Every
route that asks for them asks for the definition before them, at the same node, and a collection
resolves the name in one way whatever it is collected for. So each of these records is offered after
its definition. Leaving out repetitions keeps that order, and so does breaking off: a destination
that takes the hover text of a name, or an edge, has the definition already
(`taken_builds_on_definitions`).
-/

namespace CodeNav

/-! ## Records with what they build on -/

/-- The definition that a hover text or an edge builds on is among the records `rs`. -/
def Record.BuildsOn (table : SymbolTable) (rs : List Record) : Record → Prop
  | .hover range s _ => ∃ target name, .definition range target s name ∈ rs
  | .implementation range implementor _ _ =>
      ∃ target s name t, .definition range target s name ∈ rs ∧
        table.symbol? s = some (.type t) ∧ t.qualifiedName = implementor
  | .definition .. | .reference .. => True

/-- Every record comes after what it builds on. -/
def Founded (table : SymbolTable) (rs : List Record) : Prop :=
  ∀ before r after, rs = before ++ r :: after → r.BuildsOn table before

section Founded

variable {table : SymbolTable} {rs rs' : List Record} {r : Record}

theorem Record.BuildsOn.mono (h : r.BuildsOn table rs) (hsub : rs ⊆ rs') : r.BuildsOn table rs' := by
  cases r with
  | definition => trivial
  | reference => trivial
  | hover range s contents =>
      obtain ⟨target, name, hmem⟩ := h
      exact ⟨target, name, hsub hmem⟩
  | implementation range implementor implemented target =>
      obtain ⟨target, s, name, t, hmem, htype⟩ := h
      exact ⟨target, s, name, t, hsub hmem, htype⟩

theorem Record.buildsOn_of_kind (hkind : r.kind = .definition ∨ r.kind = .reference) :
    r.BuildsOn table rs := by
  cases r with
  | definition => trivial
  | reference => trivial
  | hover => rcases hkind with hkind | hkind <;> cases hkind
  | implementation => rcases hkind with hkind | hkind <;> cases hkind

theorem founded_nil (table : SymbolTable) : Founded table [] := by
  intro before r after h
  simp at h

theorem founded_of_forall (h : ∀ r ∈ rs, ∀ before, r.BuildsOn table before) :
    Founded table rs := by
  rintro before r after rfl
  exact h r (List.mem_append_right before List.mem_cons_self) before

/-- Records follow records, if each of them builds on what is in front of it by then. -/
theorem Founded.append_of_splits (h : Founded table rs)
    (h' : ∀ before r after, rs' = before ++ r :: after → r.BuildsOn table (rs ++ before)) :
    Founded table (rs ++ rs') := by
  intro before r after heq
  rcases List.append_eq_append_iff.mp heq with ⟨more, rfl, hsplit⟩ | ⟨_ | ⟨x, more⟩, rfl, hsplit⟩
  · exact h' more r after hsplit
  · rw [List.append_nil] at h'
    have hfirst := h' [] r after hsplit.symm
    rwa [List.append_nil] at hfirst
  · obtain ⟨rfl, -⟩ := List.cons.inj hsplit
    exact h before r more rfl

theorem Founded.append_of_forall (h : Founded table rs) (h' : ∀ r ∈ rs', r.BuildsOn table rs) :
    Founded table (rs ++ rs') := by
  apply h.append_of_splits
  rintro before r after rfl
  exact (h' r (List.mem_append_right before List.mem_cons_self)).mono
    (List.subset_append_left rs before)

theorem Founded.append (h : Founded table rs) (h' : Founded table rs') :
    Founded table (rs ++ rs') := by
  apply h.append_of_splits
  intro before r after hsplit
  exact (h' before r after hsplit).mono (List.subset_append_right rs before)

theorem Founded.of_prefix (h : Founded table rs') (hpre : rs <+: rs') : Founded table rs := by
  obtain ⟨more, rfl⟩ := hpre
  rintro before r after rfl
  exact h before r (after ++ more) (by simp)

theorem founded_concat_iff :
    Founded table (rs ++ [r]) ↔ Founded table rs ∧ r.BuildsOn table rs := by
  constructor
  · intro h
    exact ⟨h.of_prefix (List.prefix_append rs [r]), h rs r [] rfl⟩
  · rintro ⟨hrs, hr⟩
    apply hrs.append_of_forall
    rintro x hx
    obtain rfl := List.mem_singleton.mp hx
    exact hr

/-- The first occurrence of a record comes after the first occurrence of what it builds on. -/
theorem Founded.eraseDups (h : Founded table rs) : Founded table rs.eraseDups := by
  induction rs using List.reverseRecOn with
  | nil => exact founded_nil table
  | append_singleton rs r ih =>
      obtain ⟨hrs, hr⟩ := founded_concat_iff.mp h
      rw [eraseDups_concat]
      split
      · exact ih hrs
      · rw [founded_concat_iff]
        exact ⟨ih hrs, hr.mono fun x hx => List.mem_eraseDups.mpr hx⟩

end Founded

/-! ## Scripts -/

section Scripts

variable {α β : Type} {table : SymbolTable}

theorem founded_bind {s : Script Record α} {next : α → Script Record β}
    (hs : Founded table s.offers) (hnext : ∀ a, s.result = .ok a → Founded table (next a).offers) :
    Founded table (s >>= next).offers := by
  cases hresult : s.result with
  | error e =>
      rw [Script.offers_bind_of_error hresult]
      exact hs
  | ok a =>
      rw [Script.offers_bind_of_ok hresult]
      exact hs.append (hnext a hresult)

theorem founded_forM {f : α → Script Record Unit} {l : List α}
    (h : ∀ x ∈ l, Founded table (f x).offers) : Founded table (forM l f).offers := by
  induction l with
  | nil => exact founded_nil table
  | cons x l ih =>
      obtain ⟨hx, hl⟩ := List.forall_mem_cons.mp h
      rw [List.forM_cons]
      exact founded_bind hx fun _ _ => ih hl

end Scripts

/-! ## Collections at one node -/

namespace Extraction

variable {t : Tree} {table : SymbolTable} {options : HoverOptions} {d ident : Node} {k : FactKind}
  {s : SymbolId} {b : Symbol} {r : Record}

theorem definition_of_ok (hident : t.identifier d = .ok ident)
    (hresolve : table.resolveNamed? d ident = some (s, b))
    (hok : (definition t table d).result = .ok ()) :
    ∃ target name, .definition ident.span target s name ∈ (definition t table d).offers := by
  obtain ⟨ident', hident', hrest⟩ := Script.result_bind_eq_ok_iff.mp hok
  obtain rfl := Except.ok.inj (hident.symm.trans hident')
  rw [hresolve] at hrest
  obtain ⟨name, hname, -⟩ := Script.result_bind_eq_ok_iff.mp hrest
  refine ⟨b.declaration?.getD ident.span, name, ?_⟩
  rw [definition]
  refine Script.mem_offers_ofExcept_bind.mpr ⟨ident, hident, ?_⟩
  rw [hresolve]
  exact Script.mem_offers_ofExcept_bind.mpr ⟨name, hname, List.mem_singleton_self _⟩

/-- **What is collected at a node builds on the definition there.** -/
theorem buildsOn_definition (h : t.Linked) (hd : d ∈ t.nodes)
    (hok : (definition t table d).result = .ok ())
    (hr : r ∈ (extraction t table options k d).offers) :
    r.BuildsOn table (definition t table d).offers := by
  cases k with
  | definition => exact Record.buildsOn_of_kind (Or.inl (kind_of_mem_extraction h hd hr))
  | reference => exact Record.buildsOn_of_kind (Or.inr (kind_of_mem_extraction h hd hr))
  | hover =>
      obtain ⟨ident, hident, s, b, hresolve, hfact⟩ := mem_offers_hover hr
      cases hfact
      exact definition_of_ok hident hresolve hok
  | implementation =>
      obtain ⟨ident, s, declared, hident, -, hresolve, x, -, hedge⟩ := mem_offers_implementation hr
      obtain ⟨super, -, rfl⟩ := Option.map_eq_some_iff.mp hedge
      obtain ⟨target, name, hmem⟩ := definition_of_ok hident hresolve hok
      exact ⟨target, s, name, declared, hmem, symbol?_of_resolveNamed? hresolve, rfl⟩

end Extraction

namespace File

open Extraction

variable {σ : Type} [Sink σ] {f : File} {config : Config}

/-! ## A whole pass -/

theorem founded_work (hf : f.tree.Linked) (hon : config.facts.definitions = true) {d : Node}
    (hd : d ∈ f.tree.nodes) : Founded f.table (f.work config d).offers := by
  rw [work]
  apply founded_bind
  · rw [Script.offers_notes]
    exact founded_nil f.table
  intro _ _
  rcases facts_route_cases f.tree f.table d with hfacts | hfacts | ⟨rest, hfacts⟩
  · rw [factsAt, hfacts]
    exact founded_nil f.table
  · -- references build on nothing
    apply founded_forM
    intro k hk
    have hk : k ∈ (route f.tree f.table d).facts := List.mem_of_mem_filter hk
    rw [hfacts, List.mem_singleton] at hk
    subst hk
    apply founded_of_forall
    intro r hr before
    exact Record.buildsOn_of_kind (Or.inr (kind_of_mem_extraction hf hd hr))
  · have hfirst : f.factsAt config d = .definition :: rest.filter config.facts.enabled := by
      rw [factsAt, hfacts]
      exact List.filter_cons_of_pos hon
    have hdefinition : Founded f.table (f.collection config (d, .definition)).offers := by
      apply founded_of_forall
      intro r hr before
      exact Record.buildsOn_of_kind (Or.inl (kind_of_mem_extraction hf hd hr))
    rw [hfirst, List.forM_cons]
    cases hresult : (f.collection config (d, .definition)).result with
    | error e =>
        rw [Script.offers_bind_of_error hresult]
        exact hdefinition
    | ok u =>
        rw [Script.offers_bind_of_ok hresult]
        apply hdefinition.append_of_forall
        intro r hr
        obtain ⟨k, -, hr⟩ := Script.mem_offers_forM hr
        exact buildsOn_definition hf hd hresult hr

theorem founded_script (hf : f.tree.Linked) (hon : config.facts.definitions = true) :
    Founded f.table (f.script config).offers :=
  founded_forM fun _ hd => founded_work hf hon (mem_nodes_of_visible hf hd)

/-- **Definitions come first.** In a pass that collects definitions, a destination takes a hover text
or an edge only if it has taken the definition that the record builds on, of the same name and the
same symbol, before. The pass may succeed or fail, and the destination may refuse what it likes. -/
theorem taken_builds_on_definitions (hf : f.tree.Grown) (hon : config.facts.definitions = true)
    (s : σ) {before after : List Record} {r : Record}
    (htaken : (f.index config (Ledger.opened s)).2.sink.taken = before ++ r :: after) :
    r.BuildsOn f.table before := by
  have hdelivered : Founded f.table (f.delivered config) := by
    rw [delivered_eq hf.linked, ← (f.offers_script config).1]
    exact (founded_script hf.linked hon).eraseDups
  exact hdelivered.of_prefix (taken_prefix_delivered hf.linked config s) before r after htaken

set_option maxRecDepth 10000 in
/-- In the small file, a destination that refuses its fourth record has taken the definition of
`Foo`, then its hover text and its edge to `Base`. -/
theorem demo_builds_on_definitions :
    ∃ before hover edge,
      (demo.index .default (Ledger.opened (MemorySink.refusing (· = 3) false))).2.sink.taken =
        before ++ [hover, edge] ∧
      hover = .hover (demoSpan 1 7) ⟨0⟩ "class demo.Foo extends demo.Base" ∧
      hover.BuildsOn demo.table before ∧
      edge = .implementation (demoSpan 1 7) "demo.Foo" "demo.Base" none ∧
      edge.BuildsOn demo.table (before ++ [hover]) := by
  let definition : Record := .definition (demoSpan 1 7) (demoSpan 1 7) ⟨0⟩ "Foo"
  let hover : Record := .hover (demoSpan 1 7) ⟨0⟩ "class demo.Foo extends demo.Base"
  let edge : Record := .implementation (demoSpan 1 7) "demo.Foo" "demo.Base" none
  have htaken :
      (demo.index .default (Ledger.opened (MemorySink.refusing (· = 3) false))).2.sink.taken =
        [definition, hover, edge] := by
    decide +kernel
  have htaken' : [definition, hover, edge] = [definition, hover] ++ edge :: [] := rfl
  refine ⟨[definition], hover, edge, htaken, rfl, ?_, rfl, ?_⟩
  · exact taken_builds_on_definitions demo_grown rfl _ htaken
  · exact taken_builds_on_definitions demo_grown rfl _ (htaken.trans htaken')

end File

end CodeNav
