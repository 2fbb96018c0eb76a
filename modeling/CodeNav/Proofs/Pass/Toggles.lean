import CodeNav.Proofs.Extraction
import CodeNav.Proofs.Pass.Memory

/-!
# Toggles only filter

Switching facts off takes records away and does nothing else: a pass with fewer facts goes through
the collections of the pass with more that are still on (`tasks_eq_filter`), and each collection
offers records of its own kind. So the records of the one are those of the other with some kinds left
out, until the other fails; what happens then depends on whether it fails in a collection that is
still on (`toggles_only_filter`).
-/

namespace CodeNav

open Extraction

def Config.collects (config : Config) (task : Node × FactKind) : Bool :=
  config.facts.enabled task.2

def Config.keeps (config : Config) (r : Record) : Bool := config.facts.enabled r.kind

namespace File

variable {f : File} {config c c' : Config} {task : Node × FactKind}

/-! ## Two passes -/

theorem collection_congr (hhover : c.hover = c'.hover) : f.collection c = f.collection c' := by
  funext task
  unfold collection
  rw [hhover]

theorem tasks_eq_filter (f : File)
    (hle : ∀ k, c.facts.enabled k = true → c'.facts.enabled k = true) :
    f.tasks c = (f.tasks c').filter c.collects := by
  unfold tasks
  rw [List.filter_flatMap]
  refine List.flatMap_congr fun d _ => ?_
  rw [List.filter_map, factsAt, factsAt]
  congr 1
  rw [Function.comp_def, List.filter_filter]
  refine List.filter_congr fun k _ => ?_
  show c.facts.enabled k = (c.facts.enabled k && c'.facts.enabled k)
  cases hk : c.facts.enabled k with
  | false => rfl
  | true => rw [hle k hk, Bool.and_true]

theorem mem_nodes_of_mem_tasks (hf : f.tree.Linked) (h : task ∈ f.tasks config) :
    task.1 ∈ f.tree.nodes :=
  mem_nodes_of_visible hf (mem_tasks.mp h).1

theorem offered_filter (hf : f.tree.Linked) (c : Config) {l : List (Node × FactKind)}
    (hl : ∀ task ∈ l, task.1 ∈ f.tree.nodes) :
    f.offered config (l.filter c.collects) = (f.offered config l).filter c.keeps := by
  induction l with
  | nil => rfl
  | cons task l ih =>
      obtain ⟨htask, hl⟩ := List.forall_mem_cons.mp hl
      have hsplit : f.offered config (task :: l) =
          (f.collection config task).offers ++ f.offered config l := rfl
      have hkeeps : ∀ r ∈ (f.collection config task).offers, c.keeps r = c.collects task := by
        intro r hr
        unfold Config.keeps Config.collects
        rw [kind_of_mem_extraction hf htask hr]
      rw [hsplit, List.filter_append, ← ih hl]
      by_cases hon : c.collects task = true
      · have hall : ∀ r ∈ (f.collection config task).offers, c.keeps r = true := by
          intro r hr
          rw [hkeeps r hr]
          exact hon
        rw [List.filter_cons_of_pos hon, List.filter_eq_self.mpr hall]
        rfl
      · have hnone : ∀ r ∈ (f.collection config task).offers, ¬c.keeps r = true := by
          intro r hr
          rw [hkeeps r hr]
          exact hon
        rw [List.filter_cons_of_neg hon, List.filter_eq_nil_iff.mpr hnone, List.nil_append]

/-- What filtering leaves of a pass that fails: the offers of the collections that are kept, up to
the failing one. -/
theorem delivered_filter_of_split (hf : f.tree.Linked) (c : Config)
    {before rest : List (Node × FactKind)} {e : Fault}
    (hsplit : f.tasks config = before ++ task :: rest)
    (hbefore : ∀ x ∈ before, (f.collection config x).result = .ok ())
    (he : (f.collection config task).result = .error e) :
    (f.delivered config).filter c.keeps =
      (f.offered config ((before ++ [task]).filter c.collects)).eraseDups := by
  have hnodes : ∀ x ∈ before ++ [task], x.1 ∈ f.tree.nodes := by
    intro x hx
    have hmem : x ∈ f.tasks config := by
      rw [hsplit, List.append_cons]
      exact List.mem_append_left rest hx
    exact mem_nodes_of_mem_tasks hf hmem
  rw [delivered_of_split hf hsplit hbefore he, ← eraseDups_filter, ← offered_filter hf c hnodes]

section Toggles

variable (hf : f.tree.Linked) (hhover : c.hover = c'.hover)
  (hle : ∀ k, c.facts.enabled k = true → c'.facts.enabled k = true)

include hf hhover hle

theorem delivered_of_failing?_eq_none (h : f.failing? c' = none) :
    f.failing? c = none ∧
      f.delivered c = (f.delivered c').filter c.keeps := by
  have hok := failing?_eq_none_iff.mp h
  have hok' : ∀ x ∈ f.tasks c, (f.collection c x).result = .ok () := by
    intro x hx
    rw [tasks_eq_filter f hle] at hx
    rw [collection_congr hhover]
    exact hok x (List.mem_of_mem_filter hx)
  refine ⟨failing?_eq_none_iff.mpr hok', ?_⟩
  rw [delivered_eq hf, delivered_eq hf, Script.offers_forM_of_ok hok', Script.offers_forM_of_ok hok,
    ← eraseDups_filter, collection_congr hhover, tasks_eq_filter f hle]
  exact congrArg List.eraseDups
    (offered_filter hf c fun x hx => mem_nodes_of_mem_tasks hf hx)

/-- The pass with more facts fails in a collection that is on in both: there both fail. -/
theorem delivered_of_enabled (h : f.failing? c' = some task)
    (hon : c.collects task = true) :
    f.failing? c = some task ∧
      f.delivered c = (f.delivered c').filter c.keeps := by
  obtain ⟨before, rest, e, hsplit, hbefore, he⟩ := split_of_failing? h
  have hsplit' : f.tasks c = before.filter c.collects ++
      task :: rest.filter c.collects := by
    rw [tasks_eq_filter f hle, hsplit, List.filter_append, List.filter_cons_of_pos hon]
  have hbefore' : ∀ x ∈ before.filter c.collects,
      (f.collection c x).result = .ok () := by
    intro x hx
    rw [collection_congr hhover]
    exact hbefore x (List.mem_of_mem_filter hx)
  have he' : (f.collection c task).result = .error e := by
    rw [collection_congr hhover]
    exact he
  have hkept : before.filter c.collects ++ [task] =
      (before ++ [task]).filter c.collects := by
    rw [List.filter_append, List.filter_cons_of_pos hon, List.filter_nil]
  refine ⟨failing?_of_split hsplit' hbefore' he', ?_⟩
  rw [delivered_of_split hf hsplit' hbefore' he', hkept,
    delivered_filter_of_split hf c hsplit hbefore he]
  unfold offered
  rw [collection_congr hhover]

/-- The pass with more facts fails in a collection that is off in the other, which goes on from
there. -/
theorem delivered_of_disabled (h : f.failing? c' = some task)
    (hoff : ¬c.collects task = true) :
    (f.delivered c').filter c.keeps <+: f.delivered c := by
  obtain ⟨before, rest, e, hsplit, hbefore, he⟩ := split_of_failing? h
  have hsplit' : f.tasks c = before.filter c.collects ++
      rest.filter c.collects := by
    rw [tasks_eq_filter f hle, hsplit, List.filter_append, List.filter_cons_of_neg hoff]
  have hbefore' : ∀ x ∈ before.filter c.collects,
      (f.collection c' x).result = .ok () := fun x hx => hbefore x (List.mem_of_mem_filter hx)
  have hkept : (before ++ [task]).filter c.collects =
      before.filter c.collects := by
    rw [List.filter_append, List.filter_cons_of_neg hoff, List.filter_nil, List.append_nil]
  -- the collections before the failing one come first in both passes
  rw [delivered_filter_of_split hf c hsplit hbefore he, hkept, delivered_eq hf, collection_congr hhover,
    hsplit', Script.offers_forM_append hbefore']
  exact eraseDups_prefix (List.prefix_append _ _)

end Toggles

/-- **Toggles only filter.** Let two configurations differ in their toggles alone, and let all that
is on in `c` be on in `c'`. If the pass with `c'` succeeds, so does the one with `c`: it enters the
same nodes, and its records are those of the other that belong to facts which are on, with the same
counts. If the pass with `c'` fails, it does so in a collection at the last node that it entered. The
pass with `c` fails there too if the fact is on, and keeps the same records up to the filter; if the
fact is off, it delivers at least those. -/
theorem toggles_only_filter (hf : f.tree.Grown) (hhover : c.hover = c'.hover)
    (hle : ∀ k, c.facts.enabled k = true → c'.facts.enabled k = true) :
    (∀ summary', f.result c' = .ok summary' →
      ∃ summary, f.result c = .ok summary ∧
        f.entered c = f.entered c' ∧
        summary.nodesVisited = summary'.nodesVisited ∧
        summary.subtreesPruned = summary'.subtreesPruned ∧
        f.delivered c = (f.delivered c').filter c.keeps ∧
        ∀ k, c.facts.enabled k = true → summary.facts.of k = summary'.facts.of k) ∧
    ∀ e, f.result c' = .error e →
      ∃ d k, f.failing? c' = some (d, k) ∧ (f.entered c').getLast? = some d ∧
        (f.collection c' (d, k)).result = .error e ∧
        (c.facts.enabled k = true →
          f.result c = .error e ∧ f.delivered c = (f.delivered c').filter c.keeps) ∧
        (c.facts.enabled k = false →
          (f.delivered c').filter c.keeps <+: f.delivered c) := by
  have hlinked := hf.linked
  cases hfailing : f.failing? c' with
  | none =>
      -- both passes go through all of their collections
      obtain ⟨hnone, hdelivered⟩ := delivered_of_failing?_eq_none hlinked hhover hle hfailing
      obtain ⟨summary', hrun', hvisited', hpruned', hcounts'⟩ :=
        result_of_failing?_eq_none hlinked hfailing
      obtain ⟨summary, hrun, hvisited, hpruned, hcounts⟩ :=
        result_of_failing?_eq_none hlinked hnone
      constructor
      · intro s hs
        obtain rfl := Except.ok.inj (hrun'.symm.trans hs)
        refine ⟨summary, hrun, ?_, ?_, ?_, hdelivered, ?_⟩
        · rw [entered_of_failing?_eq_none hlinked hnone,
            entered_of_failing?_eq_none hlinked hfailing]
        · rw [hvisited, hvisited']
        · rw [hpruned, hpruned']
        · intro k hk
          rw [hcounts, hcounts', hdelivered, List.filter_filter]
          congr 1
          refine List.filter_congr fun r _ => ?_
          by_cases hrk : r.kind = k
          · have hkeep : c.keeps r = true := by
              rw [Config.keeps, hrk]
              exact hk
            rw [hkeep, Bool.and_true]
          · simp [hrk]
      · intro e he
        cases hrun'.symm.trans he
  | some task =>
      obtain ⟨d, k⟩ := task
      obtain ⟨before, rest, e', -, -, he'⟩ := split_of_failing? hfailing
      have hrun' := result_of_failing? hlinked hfailing he'
      constructor
      · intro s hs
        cases hrun'.symm.trans hs
      · intro e he
        obtain rfl := Except.error.inj (hrun'.symm.trans he)
        refine ⟨d, k, rfl, getLast?_entered hlinked hfailing, he', ?_, ?_⟩
        · intro hon
          obtain ⟨hsome, hdelivered⟩ := delivered_of_enabled hlinked hhover hle hfailing hon
          refine ⟨result_of_failing? hlinked hsome ?_, hdelivered⟩
          rw [collection_congr hhover]
          exact he'
        · intro hoff
          apply delivered_of_disabled hlinked hhover hle hfailing
          show ¬c.facts.enabled k = true
          rw [hoff]
          exact Bool.false_ne_true

set_option maxRecDepth 10000 in
/-- Without hovers, the small file gives the four other records. The one with the nameless type fails
at that type with hovers as without them, for its definition is collected first. -/
theorem demo_toggles_only_filter :
    ∃ c : Config, c.facts.enabled .hover = false ∧
      demo.delivered c = (demo.delivered .default).filter c.keeps ∧
      (demo.delivered c).length = 4 ∧
      brokenDemo.result c = .error (.missingName (.ofNat 8) .typeDecl) ∧
      brokenDemo.delivered c = (brokenDemo.delivered .default).filter c.keeps := by
  let c : Config := ⟨⟨true, true, false, true⟩, .default⟩
  have hhover : c.hover = Config.default.hover := rfl
  have hle : ∀ k, c.facts.enabled k = true → Config.default.facts.enabled k = true := by
    intro k _
    cases k <;> rfl
  have hrun : demo.result .default = .ok ⟨7, 2, ⟨1, 2, 1, 1, 1⟩⟩ := by
    rfl
  have hbroken : brokenDemo.result .default = .error (.missingName (.ofNat 8) .typeDecl) := by
    rfl
  obtain ⟨summary, -, -, -, -, hdelivered, -⟩ :=
    (toggles_only_filter demo_grown hhover hle).1 _ hrun
  obtain ⟨d, k, hfailing, -, -, hon, -⟩ :=
    (toggles_only_filter brokenDemo_grown hhover hle).2 _ hbroken
  have hfirst : (brokenDemo.failing? .default).map Prod.snd = some .definition := by
    rfl
  have hk : k = .definition := by
    rw [hfailing] at hfirst
    exact Option.some.inj hfirst
  subst hk
  exact ⟨c, rfl, hdelivered, rfl, hon rfl⟩

end File

end CodeNav
