import CodeNav.Proofs.Syntax.Preorder
import CodeNav.Walk

/-!
# Walks with known answers

A visitor's answer may depend on all it has seen. If it depends on the node alone, so that `stop`
tells in advance which nodes it prunes, then walking the tree is entering the nodes of a stopped
pre-order one after the other, up to the first error (`walk_eq_enterAll`). The nodes `entered` are
read off a visitor that keeps a list of them and behaves the same otherwise (`walk_recording`). A
second such visitor keeps the states as well (`entries`).
-/

namespace CodeNav

def Signal.ofStop (stop : Bool) : Signal := if stop then .prune else .descend

namespace WalkStats

def ofNodes (stop : Node → Bool) (ds : List Node) : WalkStats := ⟨ds.length, ds.countP stop⟩

theorem ofNodes_concat (stop : Node → Bool) (ds : List Node) (d : Node) :
    ofNodes stop (ds ++ [d]) = (ofNodes stop ds).enter (.ofStop (stop d)) := by
  cases h : stop d <;> simp [ofNodes, enter, Signal.ofStop, h]

end WalkStats

namespace Tree

variable {σ ε : Type} {t : Tree} {enter : σ → Node → Except ε Signal × σ} {stop : Node → Bool}

/-- Enters nodes one after the other, up to the first error. -/
def enterAll (enter : σ → Node → Except ε Signal × σ) : List Node → σ → Except ε Unit × σ
  | [], s => (.ok (), s)
  | d :: ds, s =>
      match enter s d with
      | (.ok _, s') => enterAll enter ds s'
      | (.error e, s') => (.error e, s')

/-- The visitor answers as `stop` says, whenever it answers. -/
def Answers (t : Tree) (stop : Node → Bool) (enter : σ → Node → Except ε Signal × σ) : Prop :=
  ∀ s, ∀ d ∈ t.nodes, ∀ signal, (enter s d).1 = .ok signal → signal = .ofStop (stop d)

theorem below_ofStop (t : Tree) (stop : Node → Bool) (d : Node) :
    t.below d (.ofStop (stop d)) = t.belowUnless stop d := by
  cases h : stop d <;> simp [Signal.ofStop, below, belowUnless, h]

theorem walkOn_eq_enterAll (h : t.Linked) (hans : t.Answers stop enter) (steps : Nat)
    {pending : List Node} (hmem : ∀ d ∈ pending, d ∈ t.nodes)
    (hlen : (t.agenda stop pending).length ≤ steps) (done : List Node) (s : σ) :
    t.walkOn enter steps pending (.ofNodes stop done) s =
      match enterAll enter (t.agenda stop pending) s with
      | (.ok (), s') => (.ok (.ofNodes stop (done ++ t.agenda stop pending)), s')
      | (.error e, s') => (.error e, s') := by
  -- a step takes one node off the agenda, and `done` grows by that node
  induction steps generalizing pending done s with
  | zero =>
      have hnil : t.agenda stop pending = [] := List.length_eq_zero_iff.mp (Nat.le_zero.mp hlen)
      simp [walkOn, hnil, enterAll]
  | succ steps ih =>
      cases pending with
      | nil => simp [walkOn, agenda_nil, enterAll]
      | cons d pending =>
          have hd : d ∈ t.nodes := hmem d List.mem_cons_self
          rw [h.agenda_cons stop hd, List.length_cons] at hlen
          rw [h.agenda_cons stop hd, walkOn, enterAll]
          rcases henter : enter s d with ⟨e | signal, s'⟩
          · rfl
          · have hsig : signal = .ofStop (stop d) := hans s d hd signal (by rw [henter])
            have hmem' : ∀ c ∈ t.belowUnless stop d ++ pending, c ∈ t.nodes :=
              h.belowUnless_append_mem hd fun c hc => hmem c (List.mem_cons_of_mem _ hc)
            simp only [hsig, below_ofStop, ← WalkStats.ofNodes_concat]
            rw [ih hmem' (Nat.le_of_succ_le_succ hlen) (done ++ [d]) s', List.append_assoc,
              List.singleton_append]

/-- The nodes that a walk enters if nothing goes wrong. -/
def toEnter (t : Tree) (stop : Node → Bool) : List Node := t.agenda stop t.root?.toList

/-- **A walk with known answers.** It enters the nodes of the stopped pre-order one after the
other. -/
theorem walk_eq_enterAll (h : t.Linked) (hans : t.Answers stop enter) (s : σ) :
    t.walk enter s =
      match enterAll enter (t.toEnter stop) s with
      | (.ok (), s') => (.ok (.ofNodes stop (t.toEnter stop)), s')
      | (.error e, s') => (.error e, s') := by
  exact walkOn_eq_enterAll h hans t.size (fun _ => Linked.mem_of_mem_root?)
    (h.length_agenda_root_le stop) [] s

theorem Linked.toEnter_eq_filter (h : t.Linked) (stop : Node → Bool) :
    t.toEnter stop = (t.root?.toList.flatMap t.preorder).filter (t.shows stop) := by
  cases hr : t.root? with
  | none => simp [toEnter, agenda, hr]
  | some r =>
      have hs : t.shows stop r = true := by simp [shows, h.ancestors_root hr]
      simp [toEnter, agenda, hr, h.preorderUntil_eq_filter (Linked.mem_of_root? hr) hs]

/-! ## Visitors that carry more along -/

theorem walkOn_map {τ : Type} (φ : τ → σ) {enter' : τ → Node → Except ε Signal × τ}
    (h : ∀ s d, enter (φ s) d = ((enter' s d).1, φ (enter' s d).2)) (steps : Nat)
    (pending : List Node) (stats : WalkStats) (s : τ) :
    t.walkOn enter steps pending stats (φ s) =
      ((t.walkOn enter' steps pending stats s).1, φ (t.walkOn enter' steps pending stats s).2) := by
  induction steps generalizing pending stats s with
  | zero => rfl
  | succ steps ih =>
      cases pending with
      | nil => rfl
      | cons d pending =>
          rw [walkOn, walkOn, h]
          rcases enter' s d with ⟨e | signal, s'⟩
          · rfl
          · exact ih _ _ s'

/-- If `φ` forgets what a second visitor carries along, it takes walks of that one to walks of the
first. -/
theorem walk_map {τ : Type} (φ : τ → σ) {enter' : τ → Node → Except ε Signal × τ}
    (h : ∀ s d, enter (φ s) d = ((enter' s d).1, φ (enter' s d).2)) (s : τ) :
    t.walk enter (φ s) = ((t.walk enter' s).1, φ (t.walk enter' s).2) :=
  walkOn_map φ h t.size t.root?.toList .zero s

/-- The visitor that also keeps a list of the nodes it was called at. -/
def recording (enter : σ → Node → Except ε Signal × σ) (s : σ × List Node) (d : Node) :
    Except ε Signal × (σ × List Node) :=
  ((enter s.1 d).1, ((enter s.1 d).2, s.2 ++ [d]))

/-- The nodes that a walk enters, in order; if the walk fails, the last of them is where. -/
def entered (t : Tree) (enter : σ → Node → Except ε Signal × σ) (s : σ) : List Node :=
  (t.walk (recording enter) (s, [])).2.2

theorem walk_recording (t : Tree) (enter : σ → Node → Except ε Signal × σ) (s : σ) :
    t.walk enter s =
      ((t.walk (recording enter) (s, [])).1, (t.walk (recording enter) (s, [])).2.1) :=
  walk_map Prod.fst (fun _ _ => rfl) (s, [])

theorem walkOn_invariant {P : σ → Prop} (step : ∀ s d, P s → P (enter s d).2) (steps : Nat)
    (pending : List Node) (stats : WalkStats) {s : σ} (hs : P s) :
    P (t.walkOn enter steps pending stats s).2 := by
  induction steps generalizing pending stats s with
  | zero => exact hs
  | succ steps ih =>
      cases pending with
      | nil => exact hs
      | cons d pending =>
          have hd := step s d hs
          rw [walkOn]
          rcases henter : enter s d with ⟨e | signal, s'⟩
          · rw [henter] at hd
            exact hd
          · rw [henter] at hd
            exact ih _ _ hd

/-- **Invariants of a walk.** A relation between the nodes entered and the visitor's state that
every visit keeps holds when the walk ends, whether or not it fails. -/
theorem entered_invariant {P : List Node → σ → Prop}
    (step : ∀ ds s d, P ds s → P (ds ++ [d]) (enter s d).2) {s : σ} (hs : P [] s) :
    P (t.entered enter s) (t.walk enter s).2 := by
  rw [walk_recording]
  apply walkOn_invariant (P := fun x : σ × List Node => P x.2 x.1)
  · intro x d hx
    exact step x.2 x.1 d hx
  · exact hs

theorem answers_recording (hans : t.Answers stop enter) : t.Answers stop (recording enter) :=
  fun s d hd signal h => hans s.1 d hd signal h

theorem enterAll_recording_of_ok {ds : List Node} {s : σ} (h : (enterAll enter ds s).1 = .ok ())
    (done : List Node) (rest : List Node) :
    enterAll (recording enter) (ds ++ rest) (s, done) =
      enterAll (recording enter) rest ((enterAll enter ds s).2, done ++ ds) := by
  induction ds generalizing s done with
  | nil => simp [enterAll]
  | cons d ds ih =>
      rw [List.cons_append, enterAll, recording]
      rw [enterAll] at h ⊢
      rcases hd : enter s d with ⟨e | signal, s'⟩
      · rw [hd] at h
        cases h
      · rw [hd] at h
        simpa using ih h (done ++ [d])

theorem enterAll_recording_prefix_append (ds : List Node) (s : σ) (done : List Node) :
    (enterAll (recording enter) ds (s, done)).2.2 <+: done ++ ds := by
  induction ds generalizing s done with
  | nil => simp [enterAll]
  | cons d ds ih =>
      rw [List.append_cons done d ds, enterAll, recording]
      rcases enter s d with ⟨e | signal, s'⟩
      · exact List.prefix_append _ _
      · exact ih s' (done ++ [d])

theorem entered_prefix_toEnter (h : t.Linked) (hans : t.Answers stop enter) (s : σ) :
    t.entered enter s <+: t.toEnter stop := by
  have hpre : (enterAll (recording enter) (t.toEnter stop) (s, [])).2.2 <+: t.toEnter stop :=
    enterAll_recording_prefix_append (t.toEnter stop) s []
  rw [entered, walk_eq_enterAll h (answers_recording hans)]
  rcases hall : enterAll (recording enter) (t.toEnter stop) (s, []) with ⟨e | u, s'⟩
  · rw [hall] at hpre
    exact hpre
  · rw [hall] at hpre
    exact hpre

theorem entered_of_ok (h : t.Linked) (hans : t.Answers stop enter) {s : σ}
    (hok : (enterAll enter (t.toEnter stop) s).1 = .ok ()) :
    t.entered enter s = t.toEnter stop := by
  have hall := enterAll_recording_of_ok hok [] []
  rw [List.append_nil, enterAll, List.nil_append] at hall
  rw [entered, walk_eq_enterAll h (answers_recording hans), hall]

theorem entered_of_error (h : t.Linked) (hans : t.Answers stop enter) {s : σ} {e : ε} {d : Node}
    {pre post : List Node} (hsplit : t.toEnter stop = pre ++ d :: post)
    (hok : (enterAll enter pre s).1 = .ok ())
    (herror : (enter (enterAll enter pre s).2 d).1 = .error e) :
    t.entered enter s = pre ++ [d] := by
  have hfail : enterAll (recording enter) (d :: post) ((enterAll enter pre s).2, pre) =
      (.error e, ((enter (enterAll enter pre s).2 d).2, pre ++ [d])) := by
    rw [enterAll, recording, herror]
  rw [entered, walk_eq_enterAll h (answers_recording hans), hsplit,
    enterAll_recording_of_ok hok, List.nil_append, hfail]

/-! ## The state in which a node is entered -/

/-- The visitor that also keeps a list of its calls: the state before each, and the node. -/
def tracing (enter : σ → Node → Except ε Signal × σ) (s : σ × List (σ × Node)) (d : Node) :
    Except ε Signal × (σ × List (σ × Node)) :=
  ((enter s.1 d).1, ((enter s.1 d).2, s.2 ++ [(s.1, d)]))

/-- The nodes that a walk enters, in order, each with the state in which it is entered. -/
def entries (t : Tree) (enter : σ → Node → Except ε Signal × σ) (s : σ) : List (σ × Node) :=
  (t.walk (tracing enter) (s, [])).2.2

theorem map_entries (t : Tree) (enter : σ → Node → Except ε Signal × σ) (s : σ) :
    (t.entries enter s).map (·.2) = t.entered enter s := by
  have hforget : ∀ (x : σ × List (σ × Node)) d,
      recording enter (x.1, x.2.map (·.2)) d =
        ((tracing enter x d).1, ((tracing enter x d).2.1, (tracing enter x d).2.2.map (·.2))) := by
    intro x d
    rw [recording, tracing, List.map_append]
    rfl
  have hwalk := walk_map (t := t) (fun x : σ × List (σ × Node) => (x.1, x.2.map (·.2))) hforget
    (s, [])
  rw [entered, entries]
  exact (congrArg (fun x => x.2.2) hwalk).symm

/-- Before a node is entered, the nodes in front of it were, without an error. -/
theorem enterAll_tracing (enter : σ → Node → Except ε Signal × σ) (ds : List Node) (s : σ)
    (done : List (σ × Node)) :
    ∃ es, (enterAll (tracing enter) ds (s, done)).2.2 = done ++ es ∧
      ∀ before s' d after, es = before ++ (s', d) :: after →
        enterAll enter (before.map (·.2)) s = (.ok (), s') := by
  induction ds generalizing s done with
  | nil => exact ⟨[], by simp [enterAll], fun before s' d after h => by simp at h⟩
  | cons x ds ih =>
      rw [enterAll, tracing]
      rcases hx : enter s x with ⟨e | signal, s₁⟩
      · -- the walk ends here, and `x` is the last node
        refine ⟨[(s, x)], rfl, fun before s' d after h => ?_⟩
        cases before with
        | nil =>
            cases h
            rfl
        | cons y before => simp at h
      · obtain ⟨es, hes, hsplit⟩ := ih s₁ (done ++ [(s, x)])
        refine ⟨(s, x) :: es, by simpa using hes, fun before s' d after h => ?_⟩
        cases before with
        | nil =>
            cases h
            rfl
        | cons y before =>
            obtain ⟨rfl, hes⟩ := List.cons.inj h
            rw [List.map_cons, enterAll, hx]
            exact hsplit before s' d after hes

/-- **The state in which a node is entered.** It is that after entering all nodes in front of it, of
which none fails. -/
theorem enterAll_of_entry (h : t.Linked) (hans : t.Answers stop enter) {s s' : σ} {d : Node}
    {before after : List (σ × Node)} (hentry : t.entries enter s = before ++ (s', d) :: after) :
    enterAll enter (before.map (·.2)) s = (.ok (), s') := by
  have hans' : t.Answers stop (tracing enter) := fun x d hd signal h => hans x.1 d hd signal h
  obtain ⟨es, hes, hsplit⟩ := enterAll_tracing enter (t.toEnter stop) s []
  have hentries : t.entries enter s = es := by
    rw [entries, walk_eq_enterAll h hans']
    rcases hall : enterAll (tracing enter) (t.toEnter stop) (s, []) with ⟨e | u, x⟩
    · rw [hall] at hes
      exact hes
    · rw [hall] at hes
      exact hes
  exact hsplit before s' d after (hentries.symm.trans hentry)

end Tree

end CodeNav
