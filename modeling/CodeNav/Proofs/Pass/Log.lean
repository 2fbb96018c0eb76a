import CodeNav.Proofs.Extraction
import CodeNav.Proofs.Pass.Nested
import CodeNav.Proofs.Route

/-!
# What the log says about the summary

Several hands write to the log of a pass. The pass notes its beginning and its end, and the context
notes the records that it holds back. The walk notes why it leaves a node out, if the binding of the
node is the reason. The loop over the names below a method takes the same routes and notes the same
reasons, once more for every method around the node, but then it also notes that it has passed the
names over. So a reason is noted more often than its node is left out, and the surplus is known:
each reason that the loop notes has a note of its own right behind it.

`Balanced` says this of a stretch of the log, and balanced stretches follow one another
(`Balanced.append`). `Writes` is what a script may write, whatever has been delivered before it, and
`Accounts` says that all of it is balanced.
-/

namespace CodeNav

/-! ## Events about gates -/

namespace Event

/-- Events that no script notes: they are written by the context or by the pass. -/
def isBookkeeping : Event → Bool
  | started .. | duplicate .. | finished .. => true
  | _ => false

/-- Events about what is left out or passed over. -/
def isAboutGate : Event → Bool
  | skipped .. => true
  | e => e.leftOut?.isSome

theorem isBookkeeping_of_leftOut? {e : Event} {n : NodeId} (h : e.leftOut? = some n) :
    e.isBookkeeping = false := by
  cases e <;> first | rfl | cases h

theorem of_isAboutGate_eq_false {e : Event} (h : e.isAboutGate = false) :
    e.leftOut? = none ∧ e.message ≠ "Skipping references under pruned node" := by
  cases e <;> first | (cases h; done) | (refine ⟨rfl, ?_⟩; simp [message])

theorem of_isBookkeeping_eq_false {e : Event} (h : e.isBookkeeping = false) :
    e.message ≠ "Suppressed duplicate record" ∧ e.message ≠ "Indexed file" := by
  cases e <;> first | (cases h; done) | simp [message]

def timesSaid (es : List Event) (text : String) : Nat := es.countP (·.message = text)

theorem timesSaid_append (es es' : List Event) (text : String) :
    timesSaid (es ++ es') text = timesSaid es text + timesSaid es' text :=
  List.countP_append

theorem timesSaid_cons_of_ne {e : Event} {text : String} (h : e.message ≠ text) (es : List Event) :
    timesSaid (e :: es) text = timesSaid es text :=
  List.countP_cons_of_neg (by simpa using h)

theorem timesSaid_cons_of_eq {e : Event} {text : String} (h : e.message = text) (es : List Event) :
    timesSaid (e :: es) text = timesSaid es text + 1 :=
  List.countP_cons_of_pos (by simpa using h)

/-! ## Stretches of a log -/

/-- A stretch of a log with `n` reasons to leave a node out besides those for passing over the names
below a node. Each of the latter stands right before the event that it is the reason of. -/
structure Balanced (es : List Event) (n : Nat) : Prop where
  prompted : ∀ before node kind after, es = before ++ .skipped node kind :: after →
    ∃ front e, before = front ++ [e] ∧ e.leftOut? = some node
  balance : es.countP (·.leftOut?.isSome) =
    timesSaid es "Skipping references under pruned node" + n

variable {es es' : List Event} {m n : Nat} {e : Event} {node : NodeId}

theorem balanced_of_forall (h : ∀ e ∈ es, e.isAboutGate = false) : Balanced es 0 where
  prompted := by
    rintro before node kind after rfl
    cases h _ (List.mem_append_right before List.mem_cons_self)
  balance := by
    have hreasons : es.countP (·.leftOut?.isSome) = 0 := by
      rw [List.countP_eq_zero]
      intro e he
      simp [(of_isAboutGate_eq_false (h e he)).1]
    have hskips : timesSaid es "Skipping references under pruned node" = 0 := by
      rw [timesSaid, List.countP_eq_zero]
      intro e he
      simp [(of_isAboutGate_eq_false (h e he)).2]
    rw [hreasons, hskips]

theorem balanced_leftOut (he : e.leftOut? = some node) : Balanced [e] 1 where
  prompted := by
    rintro (_ | ⟨_, _⟩) node kind after heq
    · obtain ⟨rfl, -⟩ := List.cons.inj heq
      cases he
    · simp at heq
  balance := by
    cases e <;> first | rfl | cases he

theorem balanced_passedOver (he : e.leftOut? = some node) (kind : Kind) :
    Balanced [e, .skipped node kind] 0 where
  prompted := by
    rintro (_ | ⟨_, _ | ⟨_, _⟩⟩) node' kind' after heq
    · obtain ⟨rfl, -⟩ := List.cons.inj heq
      cases he
    · obtain ⟨rfl, htail⟩ := List.cons.inj heq
      obtain ⟨hskipped, -⟩ := List.cons.inj htail
      obtain ⟨rfl, -⟩ := Event.skipped.inj hskipped
      exact ⟨[], e, rfl, he⟩
    · simp at heq
  balance := by
    cases e <;> first | rfl | cases he

theorem Balanced.append (h : Balanced es m) (h' : Balanced es' n) :
    Balanced (es ++ es') (m + n) where
  prompted := by
    intro before node kind after heq
    rcases List.append_eq_append_iff.mp heq with ⟨more, rfl, hsplit⟩ | ⟨_ | ⟨x, more⟩, rfl, hsplit⟩
    · obtain ⟨front, e, rfl, he⟩ := h'.prompted more node kind after hsplit
      exact ⟨es ++ front, e, (List.append_assoc ..).symm, he⟩
    · -- nothing can be passed over at the beginning of a stretch
      obtain ⟨front, e, hnil, -⟩ := h'.prompted [] node kind after hsplit.symm
      simp at hnil
    · obtain ⟨rfl, -⟩ := List.cons.inj hsplit
      exact h.prompted before node kind more rfl
  balance := by
    rw [List.countP_append, timesSaid_append, h.balance, h'.balance]
    omega

end Event

/-! ## What scripts write -/

/-- What performing actions may write to a log: the notes in their order and, for a record that is
offered, either nothing or that it is held back. -/
inductive Writes : List (Action Record) → List Event → Prop
  | nil : Writes [] []
  | note {as es} (e : Event) : Writes as es → Writes (.note e :: as) (e :: es)
  | deliver {as es} (r : Record) : Writes as es → Writes (.offer r :: as) es
  | holdBack {as es} (document : String) (r : Record) :
      Writes as es → Writes (.offer r :: as) (.duplicate document r.kind r.range :: es)

namespace Writes

variable {as bs : List (Action Record)} {es : List Event} {e : Event}

theorem of_append (h : Writes (as ++ bs) es) :
    ∃ es₁ es₂, es = es₁ ++ es₂ ∧ Writes as es₁ ∧ Writes bs es₂ := by
  induction as generalizing es with
  | nil => exact ⟨[], es, rfl, .nil, h⟩
  | cons a as ih =>
      cases h with
      | note e h =>
          obtain ⟨es₁, es₂, rfl, h₁, h₂⟩ := ih h
          exact ⟨e :: es₁, es₂, rfl, .note e h₁, h₂⟩
      | deliver r h =>
          obtain ⟨es₁, es₂, rfl, h₁, h₂⟩ := ih h
          exact ⟨es₁, es₂, rfl, .deliver r h₁, h₂⟩
      | holdBack document r h =>
          obtain ⟨es₁, es₂, rfl, h₁, h₂⟩ := ih h
          exact ⟨_ :: es₁, es₂, rfl, .holdBack document r h₁, h₂⟩

theorem eq_of_notes {es' : List Event} (h : Writes (es'.map .note) es) : es = es' := by
  induction es' generalizing es with
  | nil =>
      cases h
      rfl
  | cons e es' ih =>
      cases h with
      | note _ h => rw [ih h]

theorem note_mem_or (h : Writes as es) (he : e ∈ es) :
    .note e ∈ as ∨ ∃ document kind range, e = .duplicate document kind range := by
  induction h with
  | nil => cases he
  | note e' _ ih =>
      rcases List.mem_cons.mp he with rfl | he
      · exact Or.inl List.mem_cons_self
      · exact (ih he).imp (List.mem_cons_of_mem _) id
  | deliver r _ ih => exact (ih he).imp (List.mem_cons_of_mem _) id
  | holdBack document r _ ih =>
      rcases List.mem_cons.mp he with rfl | he
      · exact Or.inr ⟨document, r.kind, r.range, rfl⟩
      · exact (ih he).imp (List.mem_cons_of_mem _) id

end Writes

/-- **What is written is counted.** A context that performs actions to their end writes what they
may write, and counts the records that it holds back. -/
theorem Context.writes_of_performActions_ok {σ : Type} [Sink σ] {c c' : Context σ}
    {as : List (Action Record)} (hnoted : ∀ e, .note e ∈ as → e.isBookkeeping = false)
    (hok : c.performActions as = (.ok (), c')) :
    ∃ es, Writes as es ∧ c'.log.toList = c.log.toList ++ es ∧
      c'.counts.duplicatesSuppressed = c.counts.duplicatesSuppressed +
        Event.timesSaid es "Suppressed duplicate record" := by
  induction as generalizing c with
  | nil =>
      cases hok
      exact ⟨[], .nil, (List.append_nil _).symm, rfl⟩
  | cons a as ih =>
      have hrest : ∀ e, .note e ∈ as → e.isBookkeeping = false :=
        fun e he => hnoted e (List.mem_cons_of_mem a he)
      cases a with
      | note e =>
          obtain ⟨es, hes, hlog, hcount⟩ := ih hrest (c := c.note e) hok
          have he : e.message ≠ "Suppressed duplicate record" :=
            (Event.of_isBookkeeping_eq_false (hnoted e List.mem_cons_self)).1
          refine ⟨e :: es, .note e hes, ?_, ?_⟩
          · rw [hlog]
            simp [Context.note]
          · rw [hcount, Event.timesSaid_cons_of_ne he]
            rfl
      | offer r =>
          obtain ⟨b, c₁, hemit, hok⟩ := performActions_offer_ok hok
          obtain ⟨es, hes, hlog, hcount⟩ := ih hrest hok
          rcases emit_ok_cases hemit with ⟨-, rfl⟩ | ⟨-, s, -, rfl⟩
          · refine ⟨_, .holdBack c.document r hes, ?_, ?_⟩
            · rw [hlog]
              simp [Context.suppress, Context.note]
            · have hsaid : (Event.duplicate c.document r.kind r.range).message =
                  "Suppressed duplicate record" := rfl
              rw [hcount, Event.timesSaid_cons_of_eq hsaid]
              exact Nat.add_right_comm _ _ _
          · refine ⟨es, .deliver r hes, hlog, ?_⟩
            rw [hcount]
            exact congrArg (· + _) (Counts.duplicatesSuppressed_record _ _)

/-! ## Scripts that account for what they note -/

namespace Script

variable {α β : Type} {s : Script Record α} {next : α → Script Record β} {m n : Nat}

/-- Whatever a script writes is balanced, with `n` nodes left out, and no bookkeeping is noted. -/
structure Accounts (s : Script Record α) (n : Nat) : Prop where
  noted : ∀ e, .note e ∈ s.actions → e.isBookkeeping = false
  balanced : ∀ es, Writes s.actions es → Event.Balanced es n

/-- Remarks about names leave nothing out. -/
theorem accounts_of_remarks
    (h : ∀ e, .note e ∈ s.actions → e.isBookkeeping = false ∧ e.isAboutGate = false) :
    s.Accounts 0 where
  noted e he := (h e he).1
  balanced es hes := by
    apply Event.balanced_of_forall
    intro e he
    rcases hes.note_mem_or he with hnote | ⟨document, kind, range, rfl⟩
    · exact (h e hnote).2
    · rfl

theorem accounts_nil (x : Except Fault α) : (⟨[], x⟩ : Script Record α).Accounts 0 :=
  accounts_of_remarks fun _ he => absurd he List.not_mem_nil

theorem accounts_pure (a : α) : (pure a : Script Record α).Accounts 0 := accounts_nil _

theorem accounts_ofExcept (x : Except Fault α) : (ofExcept x : Script Record α).Accounts 0 :=
  accounts_nil x

theorem accounts_offer (r : Record) : (offer r).Accounts 0 :=
  accounts_of_remarks fun _ he => nomatch List.mem_singleton.mp he

theorem accounts_note {e : Event} (hbook : e.isBookkeeping = false)
    (hgate : e.isAboutGate = false) : (note e : Script Record Unit).Accounts 0 := by
  apply accounts_of_remarks
  intro e' he
  obtain rfl := Action.note.inj (List.mem_singleton.mp he)
  exact ⟨hbook, hgate⟩

theorem accounts_notes {es : List Event} (hbook : ∀ e ∈ es, e.isBookkeeping = false)
    (h : Event.Balanced es n) : (notes es : Script Record Unit).Accounts n where
  noted e he := by
    obtain ⟨e', he', heq⟩ := List.mem_map.mp he
    obtain rfl := Action.note.inj heq
    exact hbook e' he'
  balanced es' hes := by
    rw [hes.eq_of_notes]
    exact h

theorem Accounts.bind {a : α} (h : s.Accounts m) (hok : s.result = .ok a)
    (hnext : (next a).Accounts n) : (s >>= next).Accounts (m + n) := by
  rw [bind_of_ok hok]
  constructor
  · intro e he
    exact (List.mem_append.mp he).elim (h.noted e) (hnext.noted e)
  · intro es hes
    obtain ⟨es₁, es₂, rfl, h₁, h₂⟩ := Writes.of_append hes
    exact (h.balanced es₁ h₁).append (hnext.balanced es₂ h₂)

/-- What leaves nothing out can be followed by more of the kind, whether it succeeds or not. -/
theorem Accounts.bind_zero (h : s.Accounts 0) (hnext : ∀ a, (next a).Accounts 0) :
    (s >>= next).Accounts 0 := by
  cases hs : s.result with
  | error e =>
      rw [bind_of_error hs]
      exact ⟨h.noted, h.balanced⟩
  | ok a => exact h.bind hs (hnext a)

theorem accounts_forM_zero {f : β → Script Record Unit} {l : List β}
    (h : ∀ x ∈ l, (f x).Accounts 0) : (forM l f).Accounts 0 := by
  induction l with
  | nil => exact accounts_pure ()
  | cons x l ih =>
      obtain ⟨hx, hl⟩ := List.forall_mem_cons.mp h
      rw [List.forM_cons]
      exact hx.bind_zero fun _ => ih hl

theorem accounts_forM_of_ok {f : β → Script Record Unit} {l : List β} {p : β → Bool}
    (hok : ∀ x ∈ l, (f x).result = .ok ()) (h : ∀ x ∈ l, (f x).Accounts (if p x then 1 else 0)) :
    (forM l f).Accounts (l.countP p) := by
  induction l with
  | nil => exact accounts_pure ()
  | cons x l ih =>
      obtain ⟨hx, hl⟩ := List.forall_mem_cons.mp h
      obtain ⟨hxok, hlok⟩ := List.forall_mem_cons.mp hok
      rw [List.forM_cons, List.countP_cons, Nat.add_comm]
      exact hx.bind hxok (ih hlok hl)

end Script

/-! ## Extraction -/

namespace Extraction

variable {t : Tree} {table : SymbolTable} {d : Node}

theorem accounts_definition (t : Tree) (table : SymbolTable) (d : Node) :
    (definition t table d).Accounts 0 := by
  refine (Script.accounts_ofExcept _).bind_zero fun ident => ?_
  split
  · exact Script.accounts_note rfl rfl
  · exact (Script.accounts_ofExcept _).bind_zero fun _ => Script.accounts_offer _

theorem accounts_hover (t : Tree) (table : SymbolTable) (options : HoverOptions) (d : Node) :
    (hover t table options d).Accounts 0 := by
  refine (Script.accounts_ofExcept _).bind_zero fun ident => ?_
  split
  · exact Script.accounts_note rfl rfl
  · exact Script.accounts_offer _

theorem accounts_implementationEdges (table : SymbolTable) (range : Span) (declared : TypeSymbol)
    (supertypes : List SymbolId) :
    (implementationEdges table range declared supertypes).Accounts 0 := by
  induction supertypes with
  | nil => exact Script.accounts_pure ()
  | cons s rest ih =>
      have hedge : (implementationEdge table range declared s).Accounts 0 := by
        rw [implementationEdge]
        split
        · exact Script.accounts_note rfl rfl
        · exact Script.accounts_offer _
      exact hedge.bind_zero fun _ => ih

theorem accounts_implementation (t : Tree) (table : SymbolTable) (d : Node) :
    (implementation t table d).Accounts 0 := by
  refine (Script.accounts_ofExcept _).bind_zero fun ident => ?_
  split
  · split
    · exact Script.accounts_note rfl rfl
    · exact accounts_implementationEdges table _ _ _
  · exact Script.accounts_pure _

theorem accounts_referenceOf (table : SymbolTable) (owner ident : Node) :
    (referenceOf table owner ident).Accounts 0 := by
  rw [referenceOf]
  split
  · exact Script.accounts_note rfl rfl
  · exact (Script.accounts_ofExcept _).bind_zero fun _ => Script.accounts_offer _

/-- Below a method, a shut gate is noted together with its reason. -/
theorem accounts_gateNotes (t : Tree) (table : SymbolTable) (d : Node) :
    (Script.notes (gateNotes t table d) : Script Record Unit).Accounts 0 := by
  rcases notice_cases t table d with ⟨hopen, hnotice⟩ | ⟨hshut, e, hnotice, he⟩
  · have hnotes : gateNotes t table d = [] := by simp [gateNotes, hnotice, hopen]
    rw [hnotes]
    exact Script.accounts_nil _
  · have hgate : isGate d = true := by
      rw [isShut, Bool.and_eq_true] at hshut
      exact hshut.1
    have hnotes : gateNotes t table d = [e, .skipped d.id d.kind] := by
      simp [gateNotes, hgate, hnotice, hshut]
    rw [hnotes]
    refine Script.accounts_notes ?_ (Event.balanced_passedOver he d.kind)
    refine List.forall_mem_cons.mpr ⟨Event.isBookkeeping_of_leftOut? he, ?_⟩
    exact List.forall_mem_singleton.mpr rfl

theorem accounts_site (t : Tree) (table : SymbolTable) (declared d : Node) :
    (site t table declared d).Accounts 0 := by
  refine (accounts_gateNotes t table d).bind_zero fun _ => ?_
  split
  · exact accounts_referenceOf table d d
  · exact Script.accounts_pure ()

theorem accounts_reference (h : t.Linked) (table : SymbolTable) (hd : d ∈ t.nodes) :
    (reference t table d).Accounts 0 := by
  rw [reference_eq h table hd]
  refine (Script.accounts_ofExcept _).bind_zero fun declared => ?_
  refine (accounts_referenceOf table d declared).bind_zero fun _ => ?_
  exact Script.accounts_forM_zero fun x _ => accounts_site t table declared x

theorem accounts_extraction (h : t.Linked) (table : SymbolTable) (options : HoverOptions)
    (k : FactKind) (hd : d ∈ t.nodes) : (extraction t table options k d).Accounts 0 := by
  cases k with
  | definition => exact accounts_definition t table d
  | reference => exact accounts_reference h table hd
  | hover => exact accounts_hover t table options d
  | implementation => exact accounts_implementation t table d

end Extraction

namespace File

open Extraction

variable {σ : Type} [Sink σ] {f : File} {config : Config} {d : Node}

/-! ## A whole pass -/

/-- A visit notes the reason of its route, and what it collects leaves nothing out. -/
theorem accounts_work (hf : f.tree.Linked) (config : Config) (hd : d ∈ f.tree.nodes) :
    (f.work config d).Accounts (if isShut f.tree f.table d then 1 else 0) := by
  have hnotice : (Script.notes (route f.tree f.table d).notice.toList : Script Record Unit).Accounts
      (if isShut f.tree f.table d then 1 else 0) := by
    rcases notice_cases f.tree f.table d with ⟨hopen, hnotice⟩ | ⟨hshut, e, hnotice, he⟩
    · rw [hopen, hnotice]
      exact Script.accounts_nil _
    · rw [hshut, hnotice]
      refine Script.accounts_notes ?_ (Event.balanced_leftOut he)
      exact List.forall_mem_singleton.mpr (Event.isBookkeeping_of_leftOut? he)
  have hfacts : (forM (f.factsAt config d) fun k => f.collection config (d, k)).Accounts 0 :=
    Script.accounts_forM_zero fun k _ => accounts_extraction hf f.table config.hover k hd
  rw [work]
  exact hnotice.bind (n := 0) rfl hfacts

theorem accounts_script (hf : f.tree.Linked) (hok : (f.script config).result = .ok ()) :
    (f.script config).Accounts (f.visible.countP (isShut f.tree f.table)) :=
  Script.accounts_forM_of_ok (Script.result_forM_eq_ok_iff.mp hok)
    fun _ hd => accounts_work hf config (mem_nodes_of_visible hf hd)

/-- Why a route leaves out what is below a node: the node is a shut gate, or it declares a variable,
or it is a name or a type reference that stands directly in a type declaration. -/
theorem prunes_split (f : File) (d : Node) :
    (if f.prunes d then 1 else 0) =
      (if isShut f.tree f.table d then 1 else 0) +
        (if decide (d.kind = .simpleVarDecl) then 1 else 0) +
        if decide ((d.kind = .simpleType ∨ d.kind = .simpleName) ∧
          f.tree.inTypeDecl d = true) then 1 else 0 := by
  cases hkind : d.kind with
  | methodInvocation => simp [prunes, isShut, isGate, hkind]
  | qualifiedName => simp [prunes, isShut, isGate, hkind]
  | simpleType =>
      cases hin : f.tree.inTypeDecl d <;>
        simp [prunes, isShut, isGate, route, hkind, hin, Route.collect, Route.pass]
  | simpleName =>
      cases hin : f.tree.inTypeDecl d <;>
        simp [prunes, isShut, isGate, route, hkind, hin, Route.collect, Route.pass]
  | _ => simp [prunes, isShut, isGate, route, hkind, Route.collect, Route.pass]

theorem countP_prunes (f : File) (ds : List Node) :
    ds.countP f.prunes =
      ds.countP (isShut f.tree f.table) + ds.countP (·.kind = .simpleVarDecl) +
        ds.countP fun d => (d.kind = .simpleType ∨ d.kind = .simpleName) ∧
          f.tree.inTypeDecl d = true := by
  induction ds with
  | nil => rfl
  | cons d ds ih =>
      have hone := f.prunes_split d
      simp only [List.countP_cons, ih]
      omega

theorem conclude_of_ok {c c' : Context σ} {stats : WalkStats} {summary : Summary}
    (hok : conclude c stats = (.ok summary, c')) :
    summary = ⟨stats.visited, stats.pruned, c.counts⟩ ∧
      c'.log = c.log.push (finishedEvent summary) := by
  rw [conclude, Context.finish] at hok
  rcases hflush : Sink.flush c.sink with ⟨e | u, s⟩
  · rw [hflush] at hok
    cases hok
  · rw [hflush] at hok
    obtain ⟨hsummary, rfl⟩ := Prod.mk.inj hok
    obtain rfl := Except.ok.inj hsummary
    exact ⟨rfl, rfl⟩

/-- The log of a pass that succeeds: the pass begins, its script writes, and the pass is finished.
-/
theorem log_of_ok (hf : f.tree.Linked) {s : σ} {summary : Summary} {c : Context σ}
    (hok : f.index config s = (.ok summary, c)) :
    ∃ es, (f.script config).Accounts (f.visible.countP (isShut f.tree f.table)) ∧
      Writes (f.script config).actions es ∧
      c.log.toList = .started f.document f.tree.size :: es ++ [finishedEvent summary] ∧
      summary.subtreesPruned = f.visible.countP f.prunes ∧
      summary.facts.duplicatesSuppressed =
        Event.timesSaid es "Suppressed duplicate record" := by
  rw [index_eq hf] at hok
  split at hok
  · rename_i c₁ hrun
    obtain ⟨hresult, hactions⟩ := Context.performActions_of_perform_ok hrun
    have haccounts := accounts_script hf hresult
    obtain ⟨es, hes, hlog, hcount⟩ :=
      Context.writes_of_performActions_ok haccounts.noted hactions
    obtain ⟨rfl, hfinished⟩ := conclude_of_ok hok
    refine ⟨es, haccounts, hes, ?_, rfl, ?_⟩
    · rw [hfinished, Array.toList_push, hlog]
      rfl
    · rw [hcount]
      exact Nat.zero_add _
  · cases hok

/-- **The log accounts for the summary.** In a pass that succeeds, whatever the destination:

* there is one entry for each repetition that the summary counts;
* the last entry has the numbers of the summary, and no other entry says that the pass is finished;
* the entry that the names below a node are passed over comes right after the reason for leaving
  that node out;
* of the reasons, there are as many more than such entries as gates were entered and found shut, and
  these gates are the nodes that the summary counts as pruned, besides declared variables and the
  names and type references that stand directly in a type declaration. -/
theorem log_accounts_for_summary (hf : f.tree.Grown) {s : σ} {summary : Summary} {c : Context σ}
    (hok : f.index config s = (.ok summary, c)) :
    Event.timesSaid c.log.toList "Suppressed duplicate record" =
      summary.facts.duplicatesSuppressed ∧
    (∃ before last, c.log.toList = before ++ [last] ∧
      last = .finished summary.nodesVisited summary.subtreesPruned
        (summary.facts.definitions + summary.facts.references + summary.facts.hovers +
          summary.facts.implementations)
        summary.facts.duplicatesSuppressed ∧
      last.message = "Indexed file" ∧
      ∀ e ∈ before, e.message ≠ "Indexed file") ∧
    (∀ before node kind after, c.log.toList = before ++ .skipped node kind :: after →
      ∃ front e, before = front ++ [e] ∧ e.leftOut? = some node) ∧
    c.log.toList.countP (·.leftOut?.isSome) =
      Event.timesSaid c.log.toList "Skipping references under pruned node" +
        (f.enteredInto config s).countP (fun d =>
          (d.kind = .methodInvocation ∨ d.kind = .qualifiedName) ∧
            (route f.tree f.table d).signal = .prune) ∧
    summary.subtreesPruned =
      (f.enteredInto config s).countP (fun d =>
          (d.kind = .methodInvocation ∨ d.kind = .qualifiedName) ∧
            (route f.tree f.table d).signal = .prune) +
        (f.enteredInto config s).countP (·.kind = .simpleVarDecl) +
        (f.enteredInto config s).countP fun d =>
          (d.kind = .simpleType ∨ d.kind = .simpleName) ∧
            f.tree.parentKind? d = some .typeDecl := by
  obtain ⟨es, haccounts, hes, hlog, hpruned, hduplicates⟩ := log_of_ok hf.linked hok
  have hentered : f.enteredInto config s = f.visible :=
    enteredInto_of_ok hf.linked (congrArg Prod.fst hok)
  have hgates : (fun d : Node => decide ((d.kind = .methodInvocation ∨ d.kind = .qualifiedName) ∧
      (route f.tree f.table d).signal = .prune)) = isShut f.tree f.table := by
    funext d
    rw [Bool.eq_iff_iff, decide_eq_true_eq, isShut_iff]
  -- the beginning and the end of the log have nothing to do with gates
  have hstart : Event.Balanced [.started f.document f.tree.size] 0 :=
    Event.balanced_of_forall (List.forall_mem_singleton.mpr rfl)
  have hend : Event.Balanced [finishedEvent summary] 0 :=
    Event.balanced_of_forall (List.forall_mem_singleton.mpr rfl)
  have hbalanced := (hstart.append (haccounts.balanced es hes)).append hend
  rw [List.singleton_append, ← hlog, Nat.zero_add, Nat.add_zero] at hbalanced
  rw [hentered, hgates]
  refine ⟨?_, ⟨_, _, hlog, rfl, rfl, ?_⟩, hbalanced.prompted, hbalanced.balance, ?_⟩
  · rw [hlog, Event.timesSaid_append, Event.timesSaid_cons_of_ne (by simp [Event.message]),
      hduplicates]
    rfl
  · intro e he
    rcases List.mem_cons.mp he with rfl | he
    · simp [Event.message]
    · rcases hes.note_mem_or he with hnote | ⟨document, kind, range, rfl⟩
      · exact (Event.of_isBookkeeping_eq_false (haccounts.noted e hnote)).2
      · simp [Event.message]
  · rw [hpruned, countP_prunes]
    congr 2
    funext d
    simp [Tree.inTypeDecl]

def demoLog : List Event := (demo.index .default MemorySink.empty).2.log.toList

/-- The small file with a method inside its method, and a call in the inner one. -/
def deepDemo : File :=
  { nestedDemo with
    tree := nestedDemo.tree.attempt (.child ⟨8⟩ .methodInvocation none (demoSpan 6 9)) }

theorem deepDemo_grown : deepDemo.tree.Grown :=
  nestedDemo_grown.attempt (.child ⟨8⟩ .methodInvocation none (demoSpan 6 9))

def deepLog : List Event := (deepDemo.index .default MemorySink.empty).2.log.toList

set_option maxRecDepth 10000 in
/-- In the small file, the reason for leaving out the call is noted twice: by the walk, and for the
method around it, where the note that names are passed over comes next. In the other file, the reason
for the call of the inner method is noted a third time, for the outer one. -/
theorem demo_log_accounts :
    (Event.timesSaid demoLog "Suppressed duplicate record" = 1 ∧
    (∃ before last, demoLog = before ++ [last] ∧ last = .finished 7 2 5 1 ∧
      last.message = "Indexed file" ∧ ∀ e ∈ before, e.message ≠ "Indexed file") ∧
    (∃ before after, demoLog = before ++ .skipped ⟨5⟩ .methodInvocation :: after ∧
      ∃ front e, before = front ++ [e] ∧ e.leftOut? = some ⟨5⟩) ∧
    demoLog.countP (·.leftOut?.isSome) =
      Event.timesSaid demoLog "Skipping references under pruned node" + 1) ∧
    Event.timesSaid deepLog "Suppressed duplicate record" = 2 ∧
    (∃ before last, deepLog = before ++ [last] ∧ last = .finished 11 3 7 2 ∧
      last.message = "Indexed file" ∧ ∀ e ∈ before, e.message ≠ "Indexed file") ∧
    Event.timesSaid deepLog "Skipping references under pruned node" = 3 ∧
    deepLog.countP (·.leftOut?.isSome) =
      Event.timesSaid deepLog "Skipping references under pruned node" + 2 := by
  constructor
  · have hrun : (demo.index .default MemorySink.empty).1 = .ok ⟨7, 2, ⟨1, 2, 1, 1, 1⟩⟩ := rfl
    obtain ⟨hduplicates, hlast, hprompted, hreasons, -⟩ :=
      log_accounts_for_summary demo_grown (Prod.ext hrun rfl)
    have hskipped : .skipped ⟨5⟩ .methodInvocation ∈ demoLog := by decide +kernel
    refine ⟨hduplicates, hlast, ?_, hreasons⟩
    obtain ⟨before, after, hsplit⟩ := List.append_of_mem hskipped
    exact ⟨before, after, hsplit, hprompted before ⟨5⟩ .methodInvocation after hsplit⟩
  · have hrun : (deepDemo.index .default MemorySink.empty).1 = .ok ⟨11, 3, ⟨1, 4, 1, 1, 2⟩⟩ := rfl
    obtain ⟨hduplicates, hlast, -, hreasons, -⟩ :=
      log_accounts_for_summary deepDemo_grown (Prod.ext hrun rfl)
    exact ⟨hduplicates, hlast, by decide +kernel, hreasons⟩

end File

end CodeNav
