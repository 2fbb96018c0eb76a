import CodeNav.Proofs.Mentions

/-!
# Methods within methods

The references of a method take in all that is below it, and so those of a method within it. When a
pass comes to the inner method, the outer one has been entered (`mem_of_prefix_enteredInto`), and
what the inner one mentions was mentioned there, except perhaps its own name: that may be bound
through the declaration of the method, or be a qualified name that shuts itself off
(`mem_mentions_above`). So entering the inner method adds the reference of its own name or nothing
(`nested_method_adds_own_name`).
-/

namespace CodeNav

open Extraction

/-! ## What both mention -/

section Above

variable {t : Tree} {table : SymbolTable} {n m i j d : Node} {x : Mention}

theorem ne_identifier_of_below (h : t.Linked) (hn : n ∈ t.nodes) (hj : t.identifier n = .ok j)
    (hm : m ∈ t.nodes) (habove : n ∈ t.ancestors m) (hbelow : m ∈ t.ancestors d) : d ≠ j := by
  have hnm := (h.ancestor_lt hm n habove).2
  rintro rfl
  have hmn : m = n ∨ m ∈ t.ancestors n := by
    rcases identifier_cases hj with rfl | ⟨-, hchild, -⟩
    · exact Or.inr hbelow
    · exact (h.mem_ancestors_child hn hchild).mp hbelow
  rcases hmn with rfl | hmn
  · omega
  · have := (h.ancestor_lt hn m hmn).2
    omega

/-- The method `m` is below `n`, and the walk comes to it. -/
structure IsNested (t : Tree) (table : SymbolTable) (n m : Node) : Prop where
  outer_mem : n ∈ t.nodes
  inner_mem : m ∈ t.nodes
  above : n ∈ t.ancestors m
  isMethod : m.kind = .methodDecl
  shown : ∀ a ∈ t.ancestors m, (route t table a).signal ≠ .prune

/-- A name below the inner method that nothing there shuts off is not shut off from the outer one
either: the inner method is no gate, and no gate above it is shut. -/
theorem IsNested.isMentioned (h : t.Linked) (hnm : IsNested t table n m)
    (hj : t.identifier n = .ok j) (hd : d ∈ t.nodes) (hbelow : m ∈ t.ancestors d)
    (hname : d.kind = .simpleName ∨ d.kind = .qualifiedName)
    (hsegment : t.parentKind? d ≠ some .qualifiedName)
    (hpath : ∀ a ∈ t.path m d,
      ¬((a.kind = .methodInvocation ∨ a.kind = .qualifiedName) ∧
        (route t table a).signal = .prune)) :
    IsMentioned t table n j d where
  isName := hname
  ne_own := ne_identifier_of_below h hnm.outer_mem hj hnm.inner_mem hnm.above hbelow
  not_segment := hsegment
  path_open := by
    intro a ha
    obtain ⟨had, -⟩ := Tree.mem_path_iff.mp ha
    rcases had with rfl | had
    · exact hpath a (Tree.mem_path_iff.mpr ⟨Or.inl rfl, hbelow⟩)
    · rcases h.ancestors_chain hd had hbelow with rfl | ham | hma
      · simp [hnm.isMethod]
      · exact fun hshut => hnm.shown a ham hshut.2
      · exact hpath a (Tree.mem_path_iff.mpr ⟨Or.inr had, hma⟩)

/-- **The outer method mentions what the inner one does.** Only the name of the inner method itself
may be missing. -/
theorem mem_mentions_above (h : t.Linked) (hnm : IsNested t table n m)
    (hj : t.identifier n = .ok j) (hx : x ∈ mentions t table m i) :
    (table.resolveNamed? m i).map (Mention.mk i) = some x ∨ x ∈ mentions t table n j := by
  rcases mem_mentions_iff.mp hx with hown | ⟨hbelow, hmentioned, hresolve⟩
  · exact Or.inl hown
  · refine Or.inr (mem_mentions_iff.mpr (Or.inr ⟨?_, ?_, hresolve⟩))
    · exact h.descendants_subset hnm.inner_mem hnm.above hbelow
    · obtain ⟨hd, hbelow⟩ := (h.mem_descendants_iff hnm.inner_mem).mp hbelow
      exact hnm.isMentioned h hj hd hbelow hmentioned.isName hmentioned.not_segment
        hmentioned.path_open

theorem mem_mentions_above_of_bound (h : t.Linked) (hnm : IsNested t table n m)
    (hj : t.identifier n = .ok j) (hi : i ∈ t.children m) (hname : i.kind = .simpleName)
    (hbound : (table.resolve? i.id).isSome = true) (hx : x ∈ mentions t table m i) :
    x ∈ mentions t table n j := by
  rcases mem_mentions_above h hnm hj hx with hown | habove
  · obtain ⟨y, hy⟩ := Option.isSome_iff_exists.mp hbound
    rw [SymbolTable.resolveNamed?, hy, Option.some_or, Option.map_some] at hown
    obtain rfl := Option.some.inj hown
    have hmem := h.mem_of_mem_children hnm.inner_mem hi
    have hbelow : m ∈ t.ancestors i := (h.mem_ancestors_child hnm.inner_mem hi).mpr (Or.inl rfl)
    have hsegment : t.parentKind? i ≠ some .qualifiedName := by
      simp [Tree.parentKind?, h.parent?_of_mem_children hnm.inner_mem hi, hnm.isMethod]
    have hpath : ∀ a ∈ t.path m i,
        ¬((a.kind = .methodInvocation ∨ a.kind = .qualifiedName) ∧
          (route t table a).signal = .prune) := by
      intro a ha
      obtain ⟨rfl | hai, hma⟩ := Tree.mem_path_iff.mp ha
      · simp [hname]
      · -- above `i` there are only `m` and what is above it
        have hlt := (h.ancestor_lt (h.ancestor_lt hmem a hai).1 m hma).2
        rcases (h.mem_ancestors_child hnm.inner_mem hi).mp hai with rfl | ham
        · omega
        · have := (h.ancestor_lt hnm.inner_mem a ham).2
          omega
    refine mem_mentions_iff.mpr (Or.inr ⟨?_, ?_, hy⟩)
    · exact (h.mem_descendants_iff hnm.outer_mem).mpr
        ⟨hmem, h.ancestors_trans hmem hbelow hnm.above⟩
    · exact hnm.isMentioned h hj hmem hbelow (Or.inl hname) hsegment hpath
  · exact habove

def ownReference? (t : Tree) (table : SymbolTable) (m : Node) : Option Record :=
  match t.identifier m with
  | .error _ => none
  | .ok i => ((table.resolveNamed? m i).map (Mention.mk i)).bind Mention.record?

theorem of_ownReference? {r : Record} (hr : ownReference? t table m = some r) :
    ∃ i, t.identifier m = .ok i ∧ r.kind = .reference ∧ r.range = i.span := by
  unfold ownReference? at hr
  split at hr
  · cases hr
  · rename_i i hi
    obtain ⟨x, hx, hrecord⟩ := Option.bind_eq_some_iff.mp hr
    obtain ⟨y, -, rfl⟩ := Option.map_eq_some_iff.mp hx
    obtain ⟨name, -, rfl⟩ := Option.map_eq_some_iff.mp hrecord
    exact ⟨i, hi, rfl, rfl⟩

/-- What the inner method offers, the outer one offered, or it is the reference of the inner method's
own name. -/
theorem mem_offers_above {r : Record} (h : t.Linked) (hnm : IsNested t table n m)
    (hok : (reference t table n).result = .ok ()) (hr : r ∈ (reference t table m).offers) :
    r ∈ (reference t table n).offers ∨ ownReference? t table m = some r := by
  obtain ⟨j, hj, -⟩ := Script.result_bind_eq_ok_iff.mp hok
  cases hi : t.identifier m with
  | error e =>
      rw [reference, hi] at hr
      cases hr
  | ok i =>
      obtain ⟨x, hx, hrecord⟩ := exists_mention_of_mem_offers h hnm.inner_mem hi hr
      rcases mem_mentions_above h hnm hj hx with hown | habove
      · right
        rw [ownReference?, hi]
        exact Option.bind_eq_some_iff.mpr ⟨x, hown, hrecord⟩
      · exact Or.inl (mem_offers_of_mention h hnm.outer_mem hj hok habove hrecord)

theorem fault_of_nested {e : Fault} (h : t.Linked) (hnm : IsNested t table n m)
    (hok : (reference t table n).result = .ok ())
    (he : (reference t table m).result = .error e) :
    t.identifier m = .error e ∨ ∃ i, t.identifier m = .ok i ∧ i.text = .error e := by
  obtain ⟨j, hj, -⟩ := Script.result_bind_eq_ok_iff.mp hok
  cases hi : t.identifier m with
  | error e' =>
      rw [reference, hi] at he
      cases he
      exact Or.inl rfl
  | ok i =>
      rw [result_reference h hnm.inner_mem hi] at he
      obtain ⟨x, hx, he⟩ := Script.exists_of_result_forM_eq_error he
      obtain ⟨hillegible, rfl⟩ := Mention.result_script_eq_error_iff.mp he
      rcases mem_mentions_above h hnm hj hx with hown | habove
      · obtain ⟨y, -, rfl⟩ := Option.map_eq_some_iff.mp hown
        exact Or.inr ⟨i, rfl, text_eq_error_iff.mpr ⟨by simpa [Mention.IsLegible] using hillegible,
          rfl⟩⟩
      · exact absurd ((reference_eq_ok_iff h hnm.outer_mem hj).mp hok x habove) hillegible

/-- If its own name is a simple name with a binding of its own, the inner method succeeds and offers
nothing that the outer one did not. -/
theorem nested_of_bound (h : t.Linked) (hnm : IsNested t table n m)
    (hok : (reference t table n).result = .ok ()) (hi : t.identifier m = .ok i)
    (hchild : i ∈ t.children m) (hname : i.kind = .simpleName)
    (hbound : (table.resolve? i.id).isSome = true) :
    (reference t table m).result = .ok () ∧
      (reference t table m).offers ⊆ (reference t table n).offers := by
  obtain ⟨j, hj, -⟩ := Script.result_bind_eq_ok_iff.mp hok
  have habove : ∀ x ∈ mentions t table m i, x ∈ mentions t table n j := fun x hx =>
    mem_mentions_above_of_bound h hnm hj hchild hname hbound hx
  constructor
  · have hlegible := (reference_eq_ok_iff h hnm.outer_mem hj).mp hok
    exact (reference_eq_ok_iff h hnm.inner_mem hi).mpr fun x hx => hlegible x (habove x hx)
  · intro r hr
    obtain ⟨x, hx, hrecord⟩ := exists_mention_of_mem_offers h hnm.inner_mem hi hr
    exact mem_offers_of_mention h hnm.outer_mem hj hok (habove x hx) hrecord

end Above

/-! ## In a pass -/

namespace File

variable {σ : Type} [Sink σ] {f : File} {config : Config}

theorem work_of_method (hon : config.facts.references = true) {m : Node}
    (hm : m.kind = .methodDecl) :
    (f.work config m).result = (reference f.tree f.table m).result ∧
      (f.work config m).offers = (reference f.tree f.table m).offers := by
  have hfacts : f.factsAt config m = [.reference] := by
    have hroute : (route f.tree f.table m).facts = [.reference] := by
      rw [route, hm]
      rfl
    rw [factsAt, hroute]
    exact List.filter_cons_of_pos hon
  have hnotes : (Script.notes (route f.tree f.table m).notice.toList :
      Script Record Unit).result = .ok () := Script.result_notes _
  have hwork : f.work config m = Script.notes (route f.tree f.table m).notice.toList >>= fun _ =>
      reference f.tree f.table m := by
    rw [work, hfacts, List.forM_cons, List.forM_nil, bind_pure]
    rfl
  constructor
  · rw [hwork, Script.bind_of_ok hnotes]
  · rw [hwork, Script.offers_bind_of_ok hnotes, Script.offers_notes, List.nil_append]

omit [Sink σ] in
theorem offers_visit (f : File) (config : Config) (m : Node) :
    (f.visit config m).offers = (f.work config m).offers := by
  rw [visit_eq]
  cases h : (f.work config m).result with
  | error e => exact Script.offers_bind_of_error h _
  | ok u => rw [Script.offers_bind_of_ok h, Script.offers_pure, List.append_nil]

theorem enter_method (hon : config.facts.references = true) {s : σ} (hs : Sink.NeverFails s)
    {offered : List Record} {c : Context σ} (hc : Context.HasTaken s offered c) {m : Node}
    (hm : m.kind = .methodDecl) :
    ∃ c', f.enter config c m =
        (((reference f.tree f.table m).result).map fun _ => .descend, c') ∧
      Context.HasTaken s (offered ++ (reference f.tree f.table m).offers) c' := by
  obtain ⟨hresult, hoffers⟩ := work_of_method (f := f) hon hm
  obtain ⟨c', hperform, hc'⟩ := hc.perform hs (f.work config m)
  refine ⟨c', ?_, hoffers ▸ hc'⟩
  have hsignal : (route f.tree f.table m).signal = .descend := by
    rw [route, hm]
    rfl
  rw [enter_eq, hperform, hresult, hsignal]
  cases (reference f.tree f.table m).result <;> rfl

/-- A method that a pass enters, and one above it, which it has entered before. -/
theorem isNested_of_entry (hf : f.tree.Linked) {s : σ} {before after : List (Context σ × Node)}
    {c : Context σ} {n m : Node} (hentry : f.entriesInto config s = before ++ (c, m) :: after)
    (hm : m.kind = .methodDecl) (habove : n ∈ f.tree.ancestors m) :
    IsNested f.tree f.table n m ∧ n ∈ before.map (·.2) := by
  have hpre : before.map (·.2) ++ [m] <+: f.enteredInto config s := by
    rw [← map_entriesInto, hentry]
    exact ⟨after.map (·.2), by simp⟩
  have hlast : m ∈ before.map (·.2) ++ [m] := by simp
  have hvisible := visible_of_entered hf (hpre.subset hlast)
  obtain ⟨hmem, hopen⟩ := (mem_visible_iff hf).mp hvisible
  obtain ⟨houter, hlt⟩ := hf.ancestor_lt hmem n habove
  constructor
  · refine ⟨houter, hmem, habove, hm, fun a ha => ?_⟩
    exact of_decide_eq_false (hopen a ha)
  · rcases List.mem_append.mp (mem_of_prefix_enteredInto hf hpre hlast habove) with hn | hn
    · exact hn
    · obtain rfl := List.mem_singleton.mp hn
      omega

/-- **A method within a method adds its own name or nothing.** In a pass that collects references
for a destination that never fails, let a method be entered below another one. The other one was
entered before. The inner method adds at most one record, the reference of its own name; all else
that it offers is suppressed as a repetition. It adds nothing if its name is a simple name with a
binding of its own. It can fail on its own name only: for want of an identifier, or of its text. -/
theorem nested_method_adds_own_name (hf : f.tree.Grown) (hon : config.facts.references = true)
    {s : σ} (hs : Sink.NeverFails s) {before after : List (Context σ × Node)} {c : Context σ}
    {n m : Node} (hentry : f.entriesInto config s = before ++ (c, m) :: after)
    (hm : m.kind = .methodDecl) (hn : n.kind = .methodDecl) (habove : n ∈ f.tree.ancestors m) :
    n ∈ before.map (·.2) ∧
      (∃ new, Context.Adds c (f.visit config m).offers new (f.enter config c m).2 ∧
        new.length ≤ 1 ∧
        (∀ r ∈ new, ∃ i, f.tree.identifier m = .ok i ∧ r.kind = .reference ∧ r.range = i.span) ∧
        ∀ i, f.tree.identifier m = .ok i → i ∈ f.tree.children m → i.kind = .simpleName →
          (f.table.resolve? i.id).isSome = true →
            new = [] ∧ (f.enter config c m).1 = .ok .descend) ∧
      ∀ e, (f.enter config c m).1 = .error e →
        f.tree.identifier m = .error e ∨ ∃ i, f.tree.identifier m = .ok i ∧ i.text = .error e := by
  have hlinked := hf.linked
  obtain ⟨hnm, hbefore⟩ := isNested_of_entry hlinked hentry hm habove
  obtain ⟨hok, hc⟩ := hasTaken_of_entry hlinked hs hentry
  obtain ⟨houter, houterOffers⟩ := work_of_method (f := f) hon hn
  have hnok : (reference f.tree f.table n).result = .ok () := houter.symm.trans (hok n hbefore)
  have htaken : (reference f.tree f.table n).offers ⊆
      (before.map (·.2)).flatMap fun x => (f.work config x).offers := by
    intro r hr
    exact List.mem_flatMap.mpr ⟨n, hbefore, houterOffers ▸ hr⟩
  have hoffers : (f.visit config m).offers = (reference f.tree f.table m).offers :=
    (offers_visit f config m).trans (work_of_method hon hm).2
  obtain ⟨c', henter, hc'⟩ := enter_method (f := f) hon hs hc hm
  obtain ⟨new, hnew, hlen⟩ := eraseDups_append_of_one fun r hr =>
    (mem_offers_above hlinked hnm hnok hr).imp_left fun hr => htaken hr
  have hadds := hc.adds hc' hnew
  rw [hoffers, henter]
  refine ⟨hbefore, ⟨new, hadds, hlen, ?_, ?_⟩, ?_⟩
  · intro r hr
    obtain ⟨hoffered, hfresh⟩ := hadds.fresh r hr
    rw [hc.accepted_eq, List.mem_reverse, List.mem_eraseDups] at hfresh
    rcases mem_offers_above hlinked hnm hnok hoffered with hknown | hown
    · exact absurd (htaken hknown) hfresh
    · exact of_ownReference? hown
  · intro i hi hchild hname hbound
    obtain ⟨hmok, hsub⟩ := nested_of_bound hlinked hnm hnok hi hchild hname hbound
    constructor
    · rw [eraseDups_append_of_subset fun r hr => htaken (hsub hr)] at hnew
      exact List.append_right_eq_self.mp hnew.symm
    · rw [hmok]
      rfl
  · intro e he
    refine fault_of_nested hlinked hnm hnok ?_
    cases hmresult : (reference f.tree f.table m).result with
    | error e' =>
        rw [hmresult] at he
        cases he
        rfl
    | ok u =>
        rw [hmresult] at he
        cases he

def nestedSteps : List Tree.Growth :=
  [.child ⟨3⟩ .methodDecl none (demoSpan 5 1),
   .child ⟨8⟩ .simpleName (some "inner") (demoSpan 5 6),
   .child ⟨8⟩ .simpleName (some "x") (demoSpan 6 5)]

/-- The small file with a method inside its method: the declaration of the inner method is bound, its
name is not, and it names the variable once more. -/
def nestedDemo : File :=
  { demo with
    tree := (demoSteps ++ nestedSteps).foldl Tree.attempt .empty
    table := { demoTable with bindings := (⟨8⟩, ⟨1⟩) :: (⟨10⟩, ⟨2⟩) :: demoTable.bindings } }

theorem nestedDemo_grown : nestedDemo.tree.Grown := ⟨_, rfl⟩

set_option maxRecDepth 10000 in
/-- The inner method offers the references of its name and of `x`, but adds none apart from that of
its name. -/
theorem nestedDemo_adds_own_name :
    ∃ before c m after,
      nestedDemo.entriesInto .default MemorySink.empty = before ++ (c, m) :: after ∧
      (nestedDemo.visit .default m).offers =
        [.reference (demoSpan 5 6) (some (demoSpan 2 6)) ⟨1⟩ "inner" false,
          .reference (demoSpan 6 5) none ⟨2⟩ "x" false] ∧
      ∃ new, Context.Adds c (nestedDemo.visit .default m).offers new
          (nestedDemo.enter .default c m).2 ∧
        new.length ≤ 1 ∧ ∀ r ∈ new, r.range = demoSpan 5 6 := by
  let n : Node := ⟨⟨3⟩, .methodDecl, some ⟨1⟩, [⟨4⟩, ⟨5⟩, ⟨7⟩, ⟨8⟩], none, demoSpan 2 1⟩
  let m : Node := ⟨⟨8⟩, .methodDecl, some ⟨3⟩, [⟨9⟩, ⟨10⟩], none, demoSpan 5 1⟩
  let i : Node := ⟨⟨9⟩, .simpleName, some ⟨8⟩, [], some "inner", demoSpan 5 6⟩
  have hmem : m ∈ nestedDemo.enteredInto .default MemorySink.empty :=
    List.mem_of_getElem? (i := 7) rfl
  rw [← map_entriesInto] at hmem
  obtain ⟨⟨c, d⟩, hc, rfl⟩ := List.mem_map.mp hmem
  obtain ⟨before, after, hentry⟩ := List.append_of_mem hc
  have habove : n ∈ nestedDemo.tree.ancestors m := by
    decide +kernel
  obtain ⟨-, ⟨new, hadds, hlen, hnew, -⟩, -⟩ :=
    nested_method_adds_own_name nestedDemo_grown rfl MemorySink.neverFails_empty hentry rfl rfl
      habove
  refine ⟨before, c, m, after, hentry, by decide +kernel, new, hadds, hlen, fun r hr => ?_⟩
  obtain ⟨j, hj, -, hrange⟩ := hnew r hr
  have hi : nestedDemo.tree.identifier m = .ok i := by
    rfl
  obtain rfl := Except.ok.inj (hi.symm.trans hj)
  exact hrange

end File

end CodeNav
