import CodeNav.Proofs.Delivery

/-!
# Destinations that refuse

A destination may refuse a record, and whoever hands records over stops there. `Sink.deliver` hands
over a list up to the first refusal. Performing a script comes to delivering the first occurrences
of what it offers, for any destination (`perform_deliver`): if none of them is refused, the script
ends by itself, and otherwise the refusal ends it.

Which calls a destination refuses may be known in advance (`Sink.RefusesAt`). An `Audited`
destination keeps a list of the calls made to it and of its answers, and does nothing else of its
own.
-/

namespace CodeNav

/-! ## Delivering a list -/

namespace Sink

variable {σ : Type} [Sink σ] {s s' : σ} {rs rs' : List Record} {e : Fault}

/-- Hands over records in order, up to the first one that is refused. -/
def deliver (s : σ) : List Record → Except Fault Unit × σ
  | [] => (.ok (), s)
  | r :: rs =>
      match Sink.emit s r with
      | (.ok (), s') => deliver s' rs
      | (.error e, s') => (.error e, s')

theorem deliver_append (s : σ) (rs rs' : List Record) :
    deliver s (rs ++ rs') =
      match deliver s rs with
      | (.ok (), s') => deliver s' rs'
      | (.error e, s') => (.error e, s') := by
  induction rs generalizing s with
  | nil => rfl
  | cons r rs ih =>
      rw [List.cons_append, deliver, deliver]
      rcases Sink.emit s r with ⟨e | u, s'⟩
      · rfl
      · exact ih s'

theorem deliver_concat_of_ok (h : deliver s rs = (.ok (), s')) (r : Record) :
    deliver s (rs ++ [r]) = Sink.emit s' r := by
  rw [deliver_append, h]
  show deliver s' [r] = Sink.emit s' r
  rw [deliver]
  rcases Sink.emit s' r with ⟨e | u, s''⟩ <;> rfl

theorem deliver_of_prefix (hpre : rs <+: rs') (h : deliver s rs = (.error e, s')) :
    deliver s rs' = (.error e, s') := by
  obtain ⟨more, rfl⟩ := hpre
  rw [deliver_append, h]

end Sink

/-- What a ledger enters in a delivery is a first part of the list. -/
theorem Ledger.exists_prefix_of_deliver {σ : Type} [Sink σ] (l : Ledger σ) (rs : List Record) :
    ∃ pre, pre <+: rs ∧ (Sink.deliver l rs).2.taken = l.taken ++ pre := by
  induction rs generalizing l with
  | nil => exact ⟨[], List.prefix_refl _, (List.append_nil _).symm⟩
  | cons r rs ih =>
      rw [Sink.deliver]
      rcases hemit : Sink.emit l r with ⟨e | u, l'⟩
      · refine ⟨[], List.nil_prefix, ?_⟩
        rw [List.append_nil]
        exact Ledger.taken_of_emit_error hemit
      · obtain ⟨pre, hpre, htaken⟩ := ih l'
        refine ⟨r :: pre, List.cons_prefix_cons.mpr ⟨rfl, hpre⟩, ?_⟩
        rw [htaken, Ledger.taken_of_emit_ok hemit]
        exact (List.append_cons l.taken r pre).symm

/-! ## Performing up to the first refusal -/

namespace Context

variable {σ α : Type} [Sink σ] {s : σ} {offered : List Record} {c : Context σ}

/-- Offering one record comes to delivering it, unless it was delivered before. -/
theorem HasTaken.emit_deliver (h : HasTaken s offered c)
    (hok : Sink.deliver s offered.eraseDups = (.ok (), c.sink)) (r : Record) :
    (∃ b c', c.emit r = (.ok b, c') ∧ HasTaken s (offered ++ [r]) c' ∧
        Sink.deliver s (offered ++ [r]).eraseDups = (.ok (), c'.sink)) ∨
      ∃ e c', c.emit r = (.error e, c') ∧
        Sink.deliver s (offered ++ [r]).eraseDups = (.error e, c'.sink) := by
  have hmem : r ∈ c.accepted ↔ r ∈ offered := by simp [h.accepted_eq]
  rcases c.emit_cases r with ⟨hr, hemit⟩ | ⟨hr, s', hsink, hemit⟩ | ⟨hr, e, s', hsink, hemit⟩
  · -- a repetition is not handed over
    refine Or.inl ⟨false, _, hemit, h.of_emit_ok hemit, ?_⟩
    rw [eraseDups_concat, if_pos (hmem.mp hr)]
    exact hok
  · refine Or.inl ⟨true, _, hemit, h.of_emit_ok hemit, ?_⟩
    rw [eraseDups_concat, if_neg (hmem.not.mp hr), Sink.deliver_concat_of_ok hok]
    exact hsink
  · refine Or.inr ⟨e, _, hemit, ?_⟩
    rw [eraseDups_concat, if_neg (hmem.not.mp hr), Sink.deliver_concat_of_ok hok]
    exact hsink

theorem HasTaken.performActions_deliver (h : HasTaken s offered c)
    (hok : Sink.deliver s offered.eraseDups = (.ok (), c.sink)) (as : List (Action Record)) :
    (∃ c', c.performActions as = (.ok (), c') ∧
        HasTaken s (offered ++ as.filterMap Action.offered?) c' ∧
        Sink.deliver s (offered ++ as.filterMap Action.offered?).eraseDups = (.ok (), c'.sink)) ∨
      ∃ e c', c.performActions as = (.error e, c') ∧
        Sink.deliver s (offered ++ as.filterMap Action.offered?).eraseDups =
          (.error e, c'.sink) := by
  induction as generalizing c offered with
  | nil =>
      left
      rw [List.filterMap_nil, List.append_nil]
      exact ⟨c, rfl, h, hok⟩
  | cons a as ih =>
      cases a with
      | note e => exact ih (h.note e) hok
      | offer r =>
          have hsplit : offered ++ (Action.offer r :: as).filterMap Action.offered? =
              offered ++ [r] ++ as.filterMap Action.offered? :=
            List.append_cons offered r (as.filterMap Action.offered?)
          rw [hsplit, Context.performActions]
          rcases h.emit_deliver hok r with ⟨b, c₁, hemit, h₁, hok₁⟩ | ⟨e, c₁, hemit, hdeliver⟩
          · rw [hemit]
            exact ih h₁ hok₁
          · -- nothing after the refused record is offered any more
            right
            have hpre := eraseDups_prefix
              (List.prefix_append (offered ++ [r]) (as.filterMap Action.offered?))
            exact ⟨e, c₁, by rw [hemit], Sink.deliver_of_prefix hpre hdeliver⟩

/-- **Performing a script for any destination.** It comes to delivering the first occurrences of
what the script offers: without a refusal the script ends by itself, and otherwise the refusal ends
it. -/
theorem HasTaken.perform_deliver (h : HasTaken s offered c)
    (hok : Sink.deliver s offered.eraseDups = (.ok (), c.sink)) (script : Script Record α) :
    (∃ c', c.perform script = (script.result, c') ∧
        HasTaken s (offered ++ script.offers) c' ∧
        Sink.deliver s (offered ++ script.offers).eraseDups = (.ok (), c'.sink)) ∨
      ∃ e c', c.perform script = (.error e, c') ∧
        Sink.deliver s (offered ++ script.offers).eraseDups = (.error e, c'.sink) := by
  rcases h.performActions_deliver hok script.actions with
    ⟨c', hperform, h', hdeliver⟩ | ⟨e, c', hperform, hdeliver⟩
  · exact Or.inl ⟨c', by rw [Context.perform, hperform], h', hdeliver⟩
  · exact Or.inr ⟨e, c', by rw [Context.perform, hperform], hdeliver⟩

end Context

/-! ## Refusals at given calls -/

namespace Sink

variable {σ : Type} [Sink σ] {s : σ} {F : Set ℕ} {rs : List Record}

/-- Of the calls that hand over a record, counted from zero, those in `F` are refused. -/
def RefusesAt (F : Set ℕ) (s : σ) : Prop :=
  ∀ rs r, (∃ e, (Sink.emit (after s rs) r).1 = .error e) ↔ rs.length ∈ F

theorem RefusesAt.emit_ok (hs : RefusesAt F s) (hrs : rs.length ∉ F) (r : Record) :
    (Sink.emit (after s rs) r).1 = .ok () := by
  cases hemit : (Sink.emit (after s rs) r).1 with
  | error e => exact absurd ((hs rs r).mp ⟨e, hemit⟩) hrs
  | ok u => rfl

inductive Call where
  | emit (r : Record) (answer : Except Fault Unit)
  | flush (answer : Except Fault Unit)

/-- The record that a call handed over, if it was taken. -/
def Call.taken? : Call → Option Record
  | .emit r (.ok ()) => some r
  | _ => none

theorem filterMap_taken?_emit_ok (rs : List Record) :
    (rs.map (Call.emit · (.ok ()))).filterMap Call.taken? = rs := by
  simp [List.filterMap_map, Function.comp_def, Call.taken?]

end Sink

namespace MemorySink

theorem after_refusing (fails : ℕ → Bool) (flushFails : Bool) (rs : List Record) :
    (Sink.after (refusing fails flushFails) rs).calls = rs.length ∧
      (Sink.after (refusing fails flushFails) rs).fails = fails := by
  induction rs using List.reverseRecOn with
  | nil => exact ⟨rfl, rfl⟩
  | append_singleton rs r ih =>
      rw [Sink.after_concat, List.length_append, List.length_singleton, ← ih.1]
      simp only [Sink.emit, emit, ih.2]
      split <;> exact ⟨rfl, rfl⟩

theorem refusesAt_refusing (fails : ℕ → Bool) (flushFails : Bool) :
    Sink.RefusesAt {n | fails n = true} (refusing fails flushFails) := by
  intro rs r
  obtain ⟨hcalls, hfails⟩ := after_refusing fails flushFails rs
  show _ ↔ fails rs.length = true
  simp only [Sink.emit, emit, hcalls, hfails]
  by_cases h : fails rs.length = true
  · simp [h]
  · simp [h]

end MemorySink

/-- A destination with a list of the calls made to it. -/
structure Audited (σ : Type) where
  inner : σ
  calls : List Sink.Call

namespace Audited

variable {σ : Type} [Sink σ] {s : σ} {F : Set ℕ} {rs : List Record}

def opened (s : σ) : Audited σ := ⟨s, []⟩

def emit (a : Audited σ) (r : Record) : Except Fault Unit × Audited σ :=
  ((Sink.emit a.inner r).1,
    ⟨(Sink.emit a.inner r).2, a.calls ++ [.emit r (Sink.emit a.inner r).1]⟩)

def flush (a : Audited σ) : Except Fault Unit × Audited σ :=
  ((Sink.flush a.inner).1, ⟨(Sink.flush a.inner).2, a.calls ++ [.flush (Sink.flush a.inner).1]⟩)

instance : Sink (Audited σ) := ⟨emit, flush⟩

theorem hom_inner : Sink.Hom (Audited.inner : Audited σ → σ) where
  emit_eq _ _ := rfl
  flush_eq _ := rfl

/-- A delivery that ends before the first refusal makes one call for each record. -/
theorem deliver_of_refusesAt (hs : Sink.RefusesAt F s) (hF : ∀ n ∈ F, rs.length ≤ n) :
    Sink.deliver (opened s) rs =
      (.ok (), ⟨Sink.after s rs, rs.map (Sink.Call.emit · (.ok ()))⟩) := by
  induction rs using List.reverseRecOn with
  | nil => rfl
  | append_singleton rs r ih =>
      simp only [List.length_append, List.length_singleton] at hF
      have hrs : rs.length ∉ F := fun h => Nat.not_succ_le_self _ (hF _ h)
      rw [Sink.deliver_concat_of_ok (ih fun n hn => Nat.le_of_succ_le (hF n hn)),
        Sink.after_concat]
      show emit _ r = _
      rw [emit, hs.emit_ok hrs, List.map_append]
      rfl

/-- A delivery up to the first refusal: the call of the refused record is the last one. -/
theorem deliver_of_refused (hs : Sink.RefusesAt F s) (hmem : rs.length ∈ F)
    (hF : ∀ n ∈ F, rs.length ≤ n) (r : Record) (rest : List Record) :
    ∃ e, Sink.deliver (opened s) (rs ++ r :: rest) =
      (.error e, ⟨Sink.after s (rs ++ [r]),
        rs.map (Sink.Call.emit · (.ok ())) ++ [.emit r (.error e)]⟩) := by
  obtain ⟨e, he⟩ := (hs rs r).mpr hmem
  have hpre : rs ++ [r] <+: rs ++ r :: rest := ⟨rest, by simp⟩
  refine ⟨e, Sink.deliver_of_prefix hpre ?_⟩
  rw [Sink.deliver_concat_of_ok (deliver_of_refusesAt hs hF), Sink.after_concat]
  show emit _ r = _
  rw [emit, he]

end Audited

end CodeNav
