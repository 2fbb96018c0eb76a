import CodeNav.Extraction

/-!
# What a route depends on

The binding of a node decides its route at a gate only, and there it decides nothing but the signal,
with the reason for it: a gate collects no facts (`route_of_isGate`). So the facts of a route are
known from the tree alone (`facts_route_eq`), and `kind_of_mem_facts` says at which kinds of node
there are any. What opens a gate is the last section.
-/

namespace CodeNav

open Extraction

variable {t : Tree} {table : SymbolTable} {d : Node} {k : FactKind}

theorem isGate_iff : isGate d = true ↔ d.kind = .methodInvocation ∨ d.kind = .qualifiedName := by
  simp [isGate]

theorem isShut_iff : isShut t table d = true ↔
    (d.kind = .methodInvocation ∨ d.kind = .qualifiedName) ∧
      (route t table d).signal = .prune := by
  rw [isShut, Bool.and_eq_true, isGate_iff, decide_eq_true_eq]

/-- The node that is left out, if the event is the reason for that. -/
def Event.leftOut? : Event → Option NodeId
  | invocationUnresolved n | invocationUnowned n _ => some n
  | nameUnresolved n | variableUnowned n _ => some n
  | _ => none

/-- **A gate is open or shut.** Nothing is collected there either way, and if the gate is shut,
there is a reason. -/
theorem route_of_isGate (t : Tree) (table : SymbolTable) (hgate : isGate d = true) :
    route t table d = .pass ∨
      ∃ reason, route t table d = .leaveOut reason ∧ reason.leftOut? = some d.id := by
  have hcall : invocationRoute table d = .pass ∨
      ∃ reason, invocationRoute table d = .leaveOut reason ∧ reason.leftOut? = some d.id := by
    unfold invocationRoute
    split
    · exact Or.inr ⟨_, rfl, rfl⟩
    · split
      · exact Or.inl rfl
      · exact Or.inr ⟨_, rfl, rfl⟩
  have hname : qualifiedNameRoute table d = .pass ∨
      ∃ reason, qualifiedNameRoute table d = .leaveOut reason ∧ reason.leftOut? = some d.id := by
    unfold qualifiedNameRoute
    split
    · exact Or.inr ⟨_, rfl, rfl⟩
    · split
      · exact Or.inl rfl
      · exact Or.inr ⟨_, rfl, rfl⟩
  unfold route
  rcases isGate_iff.mp hgate with hkind | hkind
  · rw [hkind]
    exact hcall
  · rw [hkind]
    exact hname

theorem facts_of_isGate (t : Tree) (table : SymbolTable) (hgate : isGate d = true) :
    (route t table d).facts = [] := by
  rcases route_of_isGate t table hgate with hroute | ⟨reason, hroute, -⟩
  · rw [hroute]
    rfl
  · rw [hroute]
    rfl

theorem notice_of_not_isGate (t : Tree) (table : SymbolTable) (hgate : isGate d = false) :
    (route t table d).notice = none := by
  unfold route
  cases hkind : d.kind with
  | methodInvocation => simp [isGate, hkind] at hgate
  | qualifiedName => simp [isGate, hkind] at hgate
  | simpleType => cases t.inTypeDecl d <;> rfl
  | simpleName => cases t.inTypeDecl d <;> rfl
  | _ => rfl

/-- The binding of a node is a reason to leave it out if and only if it is a shut gate. -/
theorem notice_cases (t : Tree) (table : SymbolTable) (d : Node) :
    (isShut t table d = false ∧ (route t table d).notice = none) ∨
      (isShut t table d = true ∧
        ∃ reason, (route t table d).notice = some reason ∧ reason.leftOut? = some d.id) := by
  cases hgate : isGate d with
  | false => exact Or.inl ⟨by rw [isShut, hgate]; rfl, notice_of_not_isGate t table hgate⟩
  | true =>
      rcases route_of_isGate t table hgate with hroute | ⟨reason, hroute, hreason⟩
      · exact Or.inl ⟨by rw [isShut, hgate, hroute]; rfl, by rw [hroute]; rfl⟩
      · exact Or.inr ⟨by rw [isShut, hgate, hroute]; rfl, reason, by rw [hroute]; rfl, hreason⟩

theorem route_eq_of_not_isGate (t : Tree) (table table' : SymbolTable) (hgate : isGate d = false) :
    route t table d = route t table' d := by
  unfold route
  cases hkind : d.kind with
  | methodInvocation => simp [isGate, hkind] at hgate
  | qualifiedName => simp [isGate, hkind] at hgate
  | _ => rfl

theorem facts_route_eq (t : Tree) (table table' : SymbolTable) (d : Node) :
    (route t table d).facts = (route t table' d).facts := by
  by_cases hgate : isGate d = true
  · rw [facts_of_isGate t table hgate, facts_of_isGate t table' hgate]
  · rw [route_eq_of_not_isGate t table table' (Bool.eq_false_iff.mpr hgate)]

theorem kind_of_mem_facts (hk : k ∈ (route t table d).facts) :
    d.kind = .typeDecl ∨ d.kind = .methodDecl ∨ d.kind = .simpleVarDecl ∨ d.kind = .simpleType ∨
      d.kind = .simpleName := by
  by_cases hgate : isGate d = true
  · rw [facts_of_isGate t table hgate] at hk
    cases hk
  · rw [isGate_iff, not_or] at hgate
    unfold route at hk
    cases hkind : d.kind <;> simp_all [Route.pass]

theorem of_implementation_mem_facts (hk : FactKind.implementation ∈ (route t table d).facts) :
    d.kind = .simpleName ∧ t.inTypeDecl d = true := by
  have hkind := kind_of_mem_facts hk
  unfold route at hk
  rcases hkind with hkind | hkind | hkind | hkind | hkind
  all_goals rw [hkind] at hk
  · simp [Route.collect] at hk
  · simp [Route.collect] at hk
  · simp [Route.collect] at hk
  · by_cases hin : t.inTypeDecl d = true <;> simp [hin, Route.collect, Route.pass] at hk
  · by_cases hin : t.inTypeDecl d = true
    · exact ⟨hkind, hin⟩
    · simp [hin, Route.pass] at hk

theorem implementation_mem_facts (hkind : d.kind = .simpleName) (hin : t.inTypeDecl d = true) :
    FactKind.implementation ∈ (route t table d).facts := by
  unfold route
  rw [hkind]
  simp only
  rw [if_pos hin]
  exact List.mem_cons_of_mem _ List.mem_cons_self

theorem reference_mem_facts (hkind : d.kind = .methodDecl) :
    FactKind.reference ∈ (route t table d).facts := by
  unfold route
  rw [hkind]
  exact List.mem_singleton_self _

/-- Where hover text or edges are collected, the definition is collected first. -/
theorem facts_route_cases (t : Tree) (table : SymbolTable) (d : Node) :
    (route t table d).facts = [] ∨ (route t table d).facts = [.reference] ∨
      ∃ rest, (route t table d).facts = .definition :: rest := by
  by_cases hgate : isGate d = true
  · exact Or.inl (facts_of_isGate t table hgate)
  · rw [isGate_iff, not_or] at hgate
    unfold route
    cases hkind : d.kind with
    | methodInvocation => exact absurd hkind hgate.1
    | qualifiedName => exact absurd hkind hgate.2
    | typeDecl => exact Or.inr (Or.inr ⟨[.hover], rfl⟩)
    | methodDecl => exact Or.inr (Or.inl rfl)
    | simpleVarDecl => exact Or.inr (Or.inr ⟨[], rfl⟩)
    | simpleType =>
        by_cases hin : t.inTypeDecl d = true
        · exact Or.inr (Or.inr ⟨[.hover], by simp [hin, Route.collect]⟩)
        · exact Or.inl (by simp [hin, Route.pass])
    | simpleName =>
        by_cases hin : t.inTypeDecl d = true
        · exact Or.inr (Or.inr ⟨[.implementation], by simp [hin, Route.collect]⟩)
        · exact Or.inl (by simp [hin, Route.pass])
    | _ => exact Or.inl rfl

/-! ## Gates -/

theorem signal_invocationRoute_iff :
    (invocationRoute table d).signal = .descend ↔
      ∃ m, table.methodAt? d.id = some m ∧ table.knowsType m.declaringType = true := by
  unfold invocationRoute
  split
  · rename_i hnone
    simp [Route.leaveOut, hnone]
  · rename_i m hm
    rw [hm]
    by_cases hknown : table.knowsType m.declaringType = true
    · simp [Route.pass, hknown]
    · simp [Route.leaveOut, hknown]

theorem signal_qualifiedNameRoute_iff :
    (qualifiedNameRoute table d).signal = .descend ↔
      ∃ v, table.variableAt? d.id = some v ∧ table.knowsType v.declaringType = true := by
  unfold qualifiedNameRoute
  split
  · rename_i hnone
    simp [Route.leaveOut, hnone]
  · rename_i v hv
    rw [hv]
    by_cases hknown : table.knowsType v.declaringType = true
    · simp [Route.pass, hknown]
    · simp [Route.leaveOut, hknown]

end CodeNav
