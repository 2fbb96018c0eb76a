import CodeNav.Extraction
import CodeNav.Proofs.Script
import CodeNav.Proofs.Syntax.Preorder

/-!
# What extraction offers

The references of a method are collected by a loop of its own; `reference_eq` unrolls it into one
script per node of a stopped pre-order. Every record of a definition, a reference or a hover is the
fact about an identifier, resolved through a node that it names (`mem_offers_extraction`), and an
identifier resolves in one way only, however it is reached (`resolveNamed?_unique`).
-/

namespace CodeNav

namespace Extraction

variable {t : Tree} {table : SymbolTable} {d declared : Node} {r : Record}

/-! ## The loop over a method -/

/-- What is done at a node below a method: its gate is noted, and its reference is collected if the
gate is open and the name is reported. -/
def site (t : Tree) (table : SymbolTable) (declared d : Node) : Script Record Unit :=
  Script.notes (gateNotes t table d) >>= fun _ =>
    if isShut t table d = false ∧ isReported t declared d = true then referenceOf table d d
    else pure ()

theorem referencesBelow_cons (t : Tree) (table : SymbolTable) (declared d : Node) (steps : Nat)
    (pending : List Node) :
    referencesBelow t table declared (steps + 1) (d :: pending) =
      site t table declared d >>= fun _ =>
        referencesBelow t table declared steps
          (t.belowUnless (isShut t table) d ++ pending) := by
  rw [referencesBelow, site, Tree.belowUnless, bind_assoc]
  cases isShut t table d <;> cases isReported t declared d <;> simp

theorem referencesBelow_eq (h : t.Linked) (table : SymbolTable) (declared : Node) (steps : Nat)
    {pending : List Node} (hmem : ∀ d ∈ pending, d ∈ t.nodes)
    (hlen : (t.agenda (isShut t table) pending).length ≤ steps) :
    referencesBelow t table declared steps pending =
      forM (t.agenda (isShut t table) pending) (site t table declared) := by
  -- a step takes one node off the agenda, so the steps are enough
  induction steps generalizing pending with
  | zero =>
      have hnil : t.agenda (isShut t table) pending = [] :=
        List.length_eq_zero_iff.mp (Nat.le_zero.mp hlen)
      rw [referencesBelow, hnil, List.forM_nil]
  | succ steps ih =>
      cases pending with
      | nil => rfl
      | cons d pending =>
          have hd : d ∈ t.nodes := hmem d List.mem_cons_self
          rw [h.agenda_cons _ hd] at hlen ⊢
          rw [List.forM_cons, referencesBelow_cons,
            ih (h.belowUnless_append_mem hd fun c hc => hmem c (List.mem_cons_of_mem _ hc))
              (Nat.le_of_succ_le_succ hlen)]

/-- **The references of a method.** Its own name comes first, then what is below it in pre-order,
without what is behind a shut gate. -/
theorem reference_eq (h : t.Linked) (table : SymbolTable) (hd : d ∈ t.nodes) :
    reference t table d = Script.ofExcept (t.identifier d) >>= fun declared =>
      referenceOf table d declared >>= fun _ =>
        forM (t.agenda (isShut t table) (t.children d)) (site t table declared) := by
  rw [reference]
  congr 1
  funext declared
  rw [referencesBelow_eq h table declared t.size (fun c hc => h.mem_of_mem_children hd hc)
    (h.length_agenda_children_le _ hd)]

/-! ## The facts about an identifier -/

/-- The fact of a kind about an identifier that stands for a symbol. Implementation edges are not
of this form, for a type may have many of them. -/
def factOf? (table : SymbolTable) (options : HoverOptions) (ident : Node) (s : SymbolId)
    (b : Symbol) : FactKind → Option Record
  | .definition =>
      ident.name.map fun name =>
        .definition ident.span (b.declaration?.getD ident.span) s name
  | .reference =>
      ident.name.map fun name =>
        .reference ident.span b.declaration? s name (b.declaration? = some ident.span)
  | .hover => some (.hover ident.span s (render table options b))
  | .implementation => none

/-- A record is the fact of a kind about the identifier of `owner`, resolved through `owner`. -/
def IsFactAbout (t : Tree) (table : SymbolTable) (options : HoverOptions) (kind : FactKind)
    (owner ident : Node) (r : Record) : Prop :=
  t.identifier owner = .ok ident ∧
    ∃ s b, table.resolveNamed? owner ident = some (s, b) ∧ factOf? table options ident s b kind = some r

theorem kind_range_of_factOf? {options : HoverOptions} {kind : FactKind} {ident : Node} {s : SymbolId}
    {b : Symbol} (hr : factOf? table options ident s b kind = some r) :
    r.kind = kind ∧ r.range = ident.span := by
  cases kind with
  | definition =>
      obtain ⟨name, -, rfl⟩ := Option.map_eq_some_iff.mp hr
      exact ⟨rfl, rfl⟩
  | reference =>
      obtain ⟨name, -, rfl⟩ := Option.map_eq_some_iff.mp hr
      exact ⟨rfl, rfl⟩
  | hover =>
      cases hr
      exact ⟨rfl, rfl⟩
  | implementation => cases hr

theorem IsFactAbout.kind_eq {options : HoverOptions} {kind : FactKind} {owner ident : Node}
    (h : IsFactAbout t table options kind owner ident r) : r.kind = kind := by
  obtain ⟨-, s, b, -, hr⟩ := h
  exact (kind_range_of_factOf? hr).1

theorem IsFactAbout.range_eq {options : HoverOptions} {kind : FactKind} {owner ident : Node}
    (h : IsFactAbout t table options kind owner ident r) : r.range = ident.span := by
  obtain ⟨-, s, b, -, hr⟩ := h
  exact (kind_range_of_factOf? hr).2

theorem text_eq_ok_iff {ident : Node} {name : String} :
    ident.text = .ok name ↔ ident.name = some name := by
  rw [Node.text]
  cases ident.name <;> simp

/-- A record that is made of the text of a name is offered if there is a text. -/
theorem mem_offers_text_bind {ident : Node} {recordOf : String → Record} :
    r ∈ (Script.ofExcept ident.text >>= fun name => .offer (recordOf name)).offers ↔
      ident.name.map recordOf = some r := by
  rw [Script.mem_offers_ofExcept_bind, Option.map_eq_some_iff]
  refine exists_congr fun name => and_congr text_eq_ok_iff ?_
  rw [Script.offers_offer, List.mem_singleton, eq_comm]

theorem mem_offers_definition {options : HoverOptions} :
    r ∈ (definition t table d).offers →
      ∃ ident, IsFactAbout t table options .definition d ident r := by
  intro hr
  rw [definition] at hr
  obtain ⟨ident, hident, hr⟩ := Script.mem_offers_ofExcept_bind.mp hr
  refine ⟨ident, hident, ?_⟩
  split at hr
  · simp at hr
  · rename_i s b hresolve
    exact ⟨s, b, hresolve, mem_offers_text_bind.mp hr⟩

theorem mem_offers_hover {options : HoverOptions} :
    r ∈ (hover t table options d).offers →
      ∃ ident, IsFactAbout t table options .hover d ident r := by
  intro hr
  rw [hover] at hr
  obtain ⟨ident, hident, hr⟩ := Script.mem_offers_ofExcept_bind.mp hr
  refine ⟨ident, hident, ?_⟩
  split at hr
  · simp at hr
  · rename_i s b hresolve
    rw [Script.offers_offer, List.mem_singleton] at hr
    exact ⟨s, b, hresolve, congrArg some hr.symm⟩

theorem mem_offers_referenceOf {options : HoverOptions} {owner ident : Node}
    (hident : t.identifier owner = .ok ident) (hr : r ∈ (referenceOf table owner ident).offers) :
    IsFactAbout t table options .reference owner ident r := by
  rw [referenceOf] at hr
  refine ⟨hident, ?_⟩
  split at hr
  · simp at hr
  · rename_i s b hresolve
    exact ⟨s, b, hresolve, mem_offers_text_bind.mp hr⟩

theorem identifier_of_isReported (h : isReported t declared d = true) :
    t.identifier d = .ok d := by
  rw [isReported, Bool.and_eq_true, Bool.and_eq_true] at h
  rw [Tree.identifier, if_pos h.1.2]

theorem mem_offers_site {options : HoverOptions}
    (hr : r ∈ (site t table declared d).offers) :
    IsFactAbout t table options .reference d d r := by
  rw [site] at hr
  rcases Script.mem_offers_bind.mp hr with hr | ⟨_, -, hr⟩
  · simp at hr
  · split at hr
    · rename_i hopen
      exact mem_offers_referenceOf (identifier_of_isReported hopen.2) hr
    · simp at hr

theorem mem_preorder_of_mem_agenda (h : t.Linked) {stop : Node → Bool} (hd : d ∈ t.nodes) {x : Node}
    (hx : x ∈ t.agenda stop (t.children d)) : x ∈ t.preorder d := by
  obtain ⟨c, hc, hx⟩ := List.mem_flatMap.mp hx
  rw [h.preorder_eq hd]
  apply List.mem_cons_of_mem
  exact List.mem_flatMap.mpr
    ⟨c, hc, (h.preorderUntil_sublist stop (h.mem_of_mem_children hd hc)).subset hx⟩

theorem mem_agenda_children (h : t.Linked) {stop : Node → Bool} (hd : d ∈ t.nodes) {x : Node}
    (hx : x ∈ t.agenda stop (t.children d)) : x ∈ t.nodes :=
  ((h.mem_preorder_iff hd).mp (mem_preorder_of_mem_agenda h hd hx)).1

theorem mem_offers_reference {options : HoverOptions} (h : t.Linked) (hd : d ∈ t.nodes)
    (hr : r ∈ (reference t table d).offers) :
    ∃ owner ident, owner ∈ t.preorder d ∧ (owner = d ∨ owner = ident) ∧
      IsFactAbout t table options .reference owner ident r := by
  rw [reference_eq h table hd] at hr
  obtain ⟨declared, hdeclared, hr⟩ := Script.mem_offers_ofExcept_bind.mp hr
  rcases Script.mem_offers_bind.mp hr with hr | ⟨_, -, hr⟩
  · exact ⟨d, declared, h.mem_preorder_self hd, Or.inl rfl, mem_offers_referenceOf hdeclared hr⟩
  · obtain ⟨x, hx, hr⟩ := Script.mem_offers_forM hr
    exact ⟨x, x, mem_preorder_of_mem_agenda h hd hx, Or.inr rfl, mem_offers_site hr⟩

/-! ## The edges of a type -/

/-- The record of an edge, if the supertype is known. -/
def edge? (table : SymbolTable) (range : Span) (declared : TypeSymbol) (s : SymbolId) :
    Option Record :=
  (table.type? s).map fun super =>
    .implementation range declared.qualifiedName super.qualifiedName super.declaration

theorem implementationEdge_spec (table : SymbolTable) (range : Span) (declared : TypeSymbol)
    (s : SymbolId) :
    (implementationEdge table range declared s).result = .ok () ∧
      (implementationEdge table range declared s).offers =
        (edge? table range declared s).toList := by
  unfold implementationEdge edge?
  cases table.type? s <;> simp

/-- The edges of a type: one for each known supertype, in order, and never a fault. -/
theorem implementationEdges_spec (table : SymbolTable) (range : Span) (declared : TypeSymbol)
    (supertypes : List SymbolId) :
    (implementationEdges table range declared supertypes).result = .ok () ∧
      (implementationEdges table range declared supertypes).offers =
        supertypes.filterMap (edge? table range declared) := by
  induction supertypes with
  | nil => exact ⟨rfl, rfl⟩
  | cons s supertypes ih =>
      obtain ⟨hresult, hoffers⟩ := implementationEdge_spec table range declared s
      rw [implementationEdges]
      constructor
      · rw [Script.bind_of_ok hresult]
        exact ih.1
      · rw [Script.offers_bind_of_ok hresult, hoffers, ih.2]
        cases h : edge? table range declared s <;> simp [h]

theorem implementationEdges_congr {table table' : SymbolTable}
    (h : table'.type? = table.type?) (range : Span) (declared : TypeSymbol)
    (supertypes : List SymbolId) :
    implementationEdges table' range declared supertypes =
      implementationEdges table range declared supertypes := by
  induction supertypes with
  | nil => rfl
  | cons s supertypes ih =>
      rw [implementationEdges, implementationEdges, ih, implementationEdge, implementationEdge, h]

theorem mem_offers_implementation (hr : r ∈ (implementation t table d).offers) :
    ∃ ident x declared, t.identifier d = .ok ident ∧ t.inTypeDecl ident = true ∧
      table.resolveNamed? d ident = some (x, .type declared) ∧
      ∃ s ∈ declared.supertypes, edge? table ident.span declared s = some r := by
  rw [implementation] at hr
  obtain ⟨ident, hident, hr⟩ := Script.mem_offers_ofExcept_bind.mp hr
  split at hr
  · rename_i hin
    split at hr
    · simp at hr
    · rename_i declared htype
      obtain ⟨⟨x, b⟩, hresolve, hb⟩ := Option.bind_eq_some_iff.mp htype
      have hb : b = .type declared := by
        cases b <;> simp_all [Symbol.asType?]
      rw [(implementationEdges_spec _ _ _ _).2, List.mem_filterMap] at hr
      exact ⟨ident, x, declared, hident, hin, hb ▸ hresolve, hr⟩
  · simp at hr

/-- A name is its own identifier, so its edges come from its own binding. -/
theorem mem_offers_implementation_iff (hname : d.kind.isName = true) :
    r ∈ (implementation t table d).offers ↔
      t.inTypeDecl d = true ∧ ∃ x declared, table.resolve? d.id = some (x, .type declared) ∧
        ∃ s ∈ declared.supertypes, edge? table d.span declared s = some r := by
  have hself : t.identifier d = .ok d := by
    rw [Tree.identifier, if_pos hname]
  have hnamed : table.resolveNamed? d d = table.resolve? d.id := by
    rw [SymbolTable.resolveNamed?, Option.or_self]
  constructor
  · intro hr
    obtain ⟨ident, x, declared, hident, hin, hresolve, hs⟩ := mem_offers_implementation hr
    obtain rfl := Except.ok.inj (hself.symm.trans hident)
    exact ⟨hin, x, declared, hnamed ▸ hresolve, hs⟩
  · rintro ⟨hin, x, declared, hresolve, hs⟩
    refine Script.mem_offers_ofExcept_bind.mpr ⟨d, hself, ?_⟩
    rw [if_pos hin, hnamed, hresolve]
    show r ∈ (implementationEdges table d.span declared declared.supertypes).offers
    rw [(implementationEdges_spec _ _ _ _).2]
    exact List.mem_filterMap.mpr hs

theorem kind_of_edge? {range : Span} {declared : TypeSymbol} {s : SymbolId}
    (hr : edge? table range declared s = some r) : r.kind = .implementation := by
  obtain ⟨super, -, rfl⟩ := Option.map_eq_some_iff.mp hr
  rfl

theorem range_of_edge? {range : Span} {declared : TypeSymbol} {s : SymbolId}
    (hr : edge? table range declared s = some r) : r.range = range := by
  obtain ⟨super, -, rfl⟩ := Option.map_eq_some_iff.mp hr
  rfl

theorem kind_of_mem_implementation (hr : r ∈ (implementation t table d).offers) :
    r.kind = .implementation := by
  obtain ⟨ident, x, declared, -, -, -, s, -, hs⟩ := mem_offers_implementation hr
  exact kind_of_edge? hs

variable {options : HoverOptions} {kind : FactKind}

/-- **What is collected.** Implementation edges apart, each record is a fact about an identifier at
or below the node. It resolves through the node, unless it is a name below a method, which resolves
through itself. -/
theorem mem_offers_extraction (h : t.Linked) (hd : d ∈ t.nodes) (hkind : kind ≠ .implementation)
    (hr : r ∈ (extraction t table options kind d).offers) :
    ∃ owner ident, owner ∈ t.preorder d ∧ (owner = d ∨ owner = ident) ∧
      IsFactAbout t table options kind owner ident r := by
  cases kind with
  | definition =>
      obtain ⟨ident, hfact⟩ := mem_offers_definition hr
      exact ⟨d, ident, h.mem_preorder_self hd, Or.inl rfl, hfact⟩
  | reference => exact mem_offers_reference h hd hr
  | hover =>
      obtain ⟨ident, hfact⟩ := mem_offers_hover hr
      exact ⟨d, ident, h.mem_preorder_self hd, Or.inl rfl, hfact⟩
  | implementation => exact absurd rfl hkind

theorem kind_of_mem_extraction (h : t.Linked) (hd : d ∈ t.nodes)
    (hr : r ∈ (extraction t table options kind d).offers) : r.kind = kind := by
  by_cases hkind : kind = .implementation
  · subst hkind
    exact kind_of_mem_implementation hr
  · obtain ⟨owner, ident, -, -, hfact⟩ := mem_offers_extraction h hd hkind hr
    exact hfact.kind_eq

/-! ## Faults -/

/-- A child of the node is a name, or the node carries text itself. -/
def IsNamed (t : Tree) (d : Node) : Prop :=
  (∃ c ∈ t.children d, c.kind.isName = true) ∨ d.name.isSome = true

instance (t : Tree) (d : Node) : Decidable (IsNamed t d) := inferInstanceAs (Decidable (_ ∨ _))

theorem identifier_eq_error_iff {e : Fault} :
    t.identifier d = .error e ↔
      d.kind.isName = false ∧ ¬ IsNamed t d ∧ e = .missingName d.id d.kind := by
  have hcontra : ∀ {ident}, IsNamed t d → ((.ok ident : Except Fault Node) = .error e ↔
      d.kind.isName = false ∧ ¬ IsNamed t d ∧ e = .missingName d.id d.kind) := by
    intro ident hnamed
    simp [hnamed]
  rw [Tree.identifier]
  split
  · rename_i hname
    simp [hname]
  · rename_i hname
    split
    · rename_i c hfind
      exact hcontra (Or.inl ⟨c, List.mem_of_find?_eq_some hfind,
        List.find?_some (p := fun c : Node => c.kind.isName) hfind⟩)
    · rename_i hfind
      split
      · exact hcontra (Or.inr ‹_›)
      · -- no child is a name, and there is no text
        rename_i htext
        have hnameless : ¬ IsNamed t d := by
          rintro (⟨c, hc, hkind⟩ | hsome)
          · exact List.find?_eq_none.mp hfind c hc hkind
          · exact htext hsome
        simp [hname, hnameless, eq_comm]

theorem text_eq_error_iff {ident : Node} {e : Fault} :
    ident.text = .error e ↔ ident.name = none ∧ e = .missingName ident.id ident.kind := by
  rw [Node.text]
  cases ident.name <;> simp [eq_comm]

/-- An identifier at or below `d` resolves, but has no text. It resolves through `d`, unless it is a
name that resolves through itself. -/
def IsTextless (t : Tree) (table : SymbolTable) (d : Node) (e : Fault) : Prop :=
  ∃ owner ident x, owner ∈ t.preorder d ∧ (owner = d ∨ owner = ident) ∧
    t.identifier owner = .ok ident ∧ table.resolveNamed? owner ident = some x ∧
    ident.text = .error e

theorem fault_of_definition {e : Fault} (h : t.Linked) (hd : d ∈ t.nodes)
    (he : (definition t table d).result = .error e) :
    t.identifier d = .error e ∨ IsTextless t table d e := by
  rw [definition] at he
  rcases Script.result_bind_eq_error_iff.mp he with he | ⟨ident, hident, he⟩
  · exact Or.inl he
  · split at he
    · cases he
    · rename_i s b hresolve
      rcases Script.result_bind_eq_error_iff.mp he with he | ⟨name, -, he⟩
      · exact Or.inr ⟨d, ident, (s, b), h.mem_preorder_self hd, Or.inl rfl, hident, hresolve, he⟩
      · cases he

theorem fault_of_hover {e : Fault} (he : (hover t table options d).result = .error e) :
    t.identifier d = .error e := by
  rw [hover] at he
  rcases Script.result_bind_eq_error_iff.mp he with he | ⟨ident, -, he⟩
  · exact he
  · split at he <;> cases he

theorem fault_of_implementation {e : Fault} (he : (implementation t table d).result = .error e) :
    t.identifier d = .error e := by
  rw [implementation] at he
  rcases Script.result_bind_eq_error_iff.mp he with he | ⟨ident, -, he⟩
  · exact he
  · split at he
    · split at he
      · cases he
      · rw [(implementationEdges_spec _ _ _ _).1] at he
        cases he
    · cases he

theorem fault_of_referenceOf {owner ident : Node} {e : Fault}
    (he : (referenceOf table owner ident).result = .error e) :
    (∃ x, table.resolveNamed? owner ident = some x) ∧ ident.text = .error e := by
  rw [referenceOf] at he
  split at he
  · cases he
  · rename_i s b hresolve
    rcases Script.result_bind_eq_error_iff.mp he with he | ⟨name, -, he⟩
    · exact ⟨⟨(s, b), hresolve⟩, he⟩
    · cases he

theorem fault_of_reference {e : Fault} (h : t.Linked) (hd : d ∈ t.nodes)
    (he : (reference t table d).result = .error e) :
    t.identifier d = .error e ∨ IsTextless t table d e := by
  rw [reference_eq h table hd] at he
  rcases Script.result_bind_eq_error_iff.mp he with he | ⟨declared, hdeclared, he⟩
  · exact Or.inl he
  · right
    rcases Script.result_bind_eq_error_iff.mp he with he | ⟨_, -, he⟩
    · obtain ⟨⟨x, hresolve⟩, he⟩ := fault_of_referenceOf he
      exact ⟨d, declared, x, h.mem_preorder_self hd, Or.inl rfl, hdeclared, hresolve, he⟩
    · obtain ⟨n, hn, he⟩ := Script.exists_of_result_forM_eq_error he
      rw [site] at he
      rcases Script.result_bind_eq_error_iff.mp he with he | ⟨_, -, he⟩
      · cases he
      · split at he
        · rename_i hopen
          obtain ⟨⟨x, hresolve⟩, he⟩ := fault_of_referenceOf he
          exact ⟨n, n, x, mem_preorder_of_mem_agenda h hd hn, Or.inr rfl,
            identifier_of_isReported hopen.2, hresolve, he⟩
        · cases he

/-- **Why a collection fails.** The node has no identifier, or an identifier that resolves has no
text. -/
theorem fault_of_extraction {e : Fault} (h : t.Linked) (hd : d ∈ t.nodes)
    (he : (extraction t table options kind d).result = .error e) :
    t.identifier d = .error e ∨ IsTextless t table d e := by
  cases kind with
  | definition => exact fault_of_definition h hd he
  | reference => exact fault_of_reference h hd he
  | hover => exact Or.inl (fault_of_hover he)
  | implementation => exact Or.inl (fault_of_implementation he)

/-! ## One way to resolve an identifier -/

theorem identifier_cases {owner ident : Node} (hident : t.identifier owner = .ok ident) :
    ident = owner ∨
      owner.kind.isName = false ∧ ident ∈ t.children owner ∧ ident.kind.isName = true := by
  rw [Tree.identifier] at hident
  split at hident
  · exact Or.inl (Except.ok.inj hident).symm
  · rename_i hname
    split at hident
    · rename_i c hfind
      obtain rfl := Except.ok.inj hident
      exact Or.inr ⟨Bool.eq_false_iff.mpr hname, List.mem_of_find?_eq_some hfind,
        List.find?_some (p := fun c : Node => c.kind.isName) hfind⟩
    · split at hident
      · exact Or.inl (Except.ok.inj hident).symm
      · cases hident

/-- Where a name stands below a declaration, the first name there names the declaration. -/
theorem identifier_of_mem_children {owner ident : Node} (howner : owner.kind.isName = false)
    (hident : ident ∈ t.children owner) (hname : ident.kind.isName = true) :
    ∃ first before after, t.identifier owner = .ok first ∧
      t.children owner = before ++ first :: after ∧ (∀ c ∈ before, c.kind.isName = false) ∧
        (ident = first ∨ ident ∈ after) := by
  cases hfind : (t.children owner).find? (·.kind.isName) with
  | none => exact absurd hname (List.find?_eq_none.mp hfind ident hident)
  | some first =>
      have hfirst : t.identifier owner = .ok first := by
        rw [Tree.identifier, howner, if_neg Bool.false_ne_true, hfind]
      obtain ⟨-, before, after, hsplit, hbefore⟩ := List.find?_eq_some_iff_append.mp hfind
      have hbefore : ∀ c ∈ before, c.kind.isName = false := fun c hc =>
        Bool.eq_false_iff.mpr fun h => by simpa [h] using hbefore c hc
      refine ⟨first, before, after, hfirst, hsplit, hbefore, ?_⟩
      rw [hsplit, List.mem_append, List.mem_cons] at hident
      rcases hident with hmem | hmem
      · rw [hbefore ident hmem] at hname
        cases hname
      · exact hmem

theorem identifier_of_identifier {owner ident : Node} (hident : t.identifier owner = .ok ident) :
    t.identifier ident = .ok ident := by
  rcases identifier_cases hident with rfl | ⟨-, -, hname⟩
  · exact hident
  · rw [Tree.identifier, if_pos hname]

theorem mem_of_identifier (h : t.Linked) {owner ident : Node} (howner : owner ∈ t.nodes)
    (hident : t.identifier owner = .ok ident) : ident ∈ t.nodes := by
  rcases identifier_cases hident with rfl | ⟨-, hchild, -⟩
  · exact howner
  · exact h.mem_of_mem_children howner hchild

/-- The only fault of a collection is a node of the tree that lacks its name. -/
theorem missingName_of_extraction {e : Fault} (h : t.Linked) (hd : d ∈ t.nodes)
    (he : (extraction t table options kind d).result = .error e) :
    ∃ n ∈ t.nodes, e = .missingName n.id n.kind := by
  rcases fault_of_extraction h hd he with he | ⟨owner, ident, x, howner, -, hident, -, he⟩
  · exact ⟨d, hd, (identifier_eq_error_iff.mp he).2.2⟩
  · have howner := ((h.mem_preorder_iff hd).mp howner).1
    exact ⟨ident, mem_of_identifier h howner hident, (text_eq_error_iff.mp he).2⟩

theorem symbol?_of_resolveNamed? {owner ident : Node} {s : SymbolId} {b : Symbol}
    (h : table.resolveNamed? owner ident = some (s, b)) : table.symbol? s = some b := by
  rcases Option.or_eq_some_iff.mp h with h | ⟨-, h⟩
  · exact SymbolTable.symbol?_of_resolve? h
  · exact SymbolTable.symbol?_of_resolve? h

/-- An identifier that resolves through itself resolves so through every node that it names. -/
theorem resolveNamed?_of_self {owner ident : Node} {x : SymbolId × Symbol}
    (hself : table.resolveNamed? ident ident = some x) :
    table.resolveNamed? owner ident = some x := by
  rw [SymbolTable.resolveNamed?, Option.or_self] at hself
  rw [SymbolTable.resolveNamed?, hself, Option.some_or]

/-- **An identifier resolves in one way.** Two nodes that it names are the identifier itself and its
parent; through the identifier itself only its own binding counts, and that wins for the parent
too. -/
theorem resolveNamed?_unique (h : t.Linked) {owner owner' ident : Node} {x x' : SymbolId × Symbol}
    (howner : owner ∈ t.nodes) (howner' : owner' ∈ t.nodes)
    (hident : t.identifier owner = .ok ident) (hident' : t.identifier owner' = .ok ident)
    (hx : table.resolveNamed? owner ident = some x)
    (hx' : table.resolveNamed? owner' ident = some x') : x = x' := by
  rcases identifier_cases hident with rfl | ⟨-, hchild, -⟩
  · -- through itself: the binding of the identifier wins for the other node, too
    have hother : table.resolveNamed? owner' ident = some x := resolveNamed?_of_self hx
    exact Option.some.inj (hother.symm.trans hx')
  · rcases identifier_cases hident' with rfl | ⟨-, hchild', -⟩
    · have hother : table.resolveNamed? owner ident = some x' := resolveNamed?_of_self hx'
      exact Option.some.inj (hx.symm.trans hother)
    · -- both nodes have the identifier for a child, so they are its parent
      have hparent := h.parent?_of_mem_children howner hchild
      rw [h.parent?_of_mem_children howner' hchild'] at hparent
      obtain rfl := Option.some.inj hparent
      exact Option.some.inj (hx.symm.trans hx')

theorem IsFactAbout.unique (h : t.Linked) {owner owner' ident : Node} {r r' : Record}
    (howner : owner ∈ t.nodes) (howner' : owner' ∈ t.nodes)
    (hr : IsFactAbout t table options kind owner ident r)
    (hr' : IsFactAbout t table options kind owner' ident r') : r = r' := by
  obtain ⟨hident, s, b, hresolve, hfact⟩ := hr
  obtain ⟨hident', s', b', hresolve', hfact'⟩ := hr'
  cases resolveNamed?_unique h howner howner' hident hident' hresolve hresolve'
  exact Option.some.inj (hfact.symm.trans hfact')

end Extraction

end CodeNav
