import CodeNav.Proofs.Refusal
import Mathlib.Data.Set.Basic

/-!
# Offering again after a refusal

Whoever offers records need not stop at a refusal: a refused record may be offered again, and the
destination may take it then. `Context.offerEach` goes on whatever the answers are. After any offers
the calls that the destination got, the answers that were given and the context's own memory and
counts agree (`Tallied`), for one offer keeps them so (`Tallied.emit`). A refused record is therefore
as good as never offered (`offers_tallied`).
-/

namespace CodeNav

structure Answered where
  record : Record
  answer : Except Fault Bool

namespace Answered

/-- The record, if the destination took it now. -/
def delivered? (a : Answered) : Option Record :=
  match a.answer with
  | .ok true => some a.record
  | _ => none

def isRepetition (a : Answered) : Bool :=
  match a.answer with
  | .ok false => true
  | _ => false

end Answered

namespace Audited

variable {σ : Type} [Sink σ] {a a' : Audited σ} {r : Record}

theorem calls_of_emit {answer : Except Fault Unit} (h : Sink.emit a r = (answer, a')) :
    a'.calls = a.calls ++ [.emit r answer] := by
  cases h
  rfl

theorem taken_of_emit_ok (h : Sink.emit a r = (.ok (), a')) :
    a'.calls.filterMap Sink.Call.taken? = a.calls.filterMap Sink.Call.taken? ++ [r] := by
  rw [calls_of_emit h, List.filterMap_append]
  rfl

theorem taken_of_emit_error {e : Fault} (h : Sink.emit a r = (.error e, a')) :
    a'.calls.filterMap Sink.Call.taken? = a.calls.filterMap Sink.Call.taken? := by
  rw [calls_of_emit h, List.filterMap_append]
  exact List.append_nil _

end Audited

namespace Context

variable {σ τ : Type} [Sink σ] [Sink τ]

/-! ## Going on after refusals -/

/-- Offers records one after the other, whatever the answers are. -/
def offerEach (c : Context σ) : List Record → List Answered × Context σ
  | [] => ([], c)
  | r :: rs =>
      (⟨r, (c.emit r).1⟩ :: ((c.emit r).2.offerEach rs).1, ((c.emit r).2.offerEach rs).2)

theorem records_offerEach (c : Context σ) (rs : List Record) :
    (c.offerEach rs).1.map Answered.record = rs := by
  induction rs generalizing c with
  | nil => rfl
  | cons r rs ih => exact congrArg (r :: ·) (ih (c.emit r).2)

theorem offerEach_mapSink {φ : τ → σ} (hφ : Sink.Hom φ) (c : Context τ) (rs : List Record) :
    (c.mapSink φ).offerEach rs = ((c.offerEach rs).1, (c.offerEach rs).2.mapSink φ) := by
  induction rs generalizing c with
  | nil => rfl
  | cons r rs ih => rw [offerEach, offerEach, emit_mapSink hφ, ih]

theorem accepted_of_offerEach (c : Context σ) (rs : List Record) :
    c.accepted ⊆ (c.offerEach rs).2.accepted ∧
      ∀ a ∈ (c.offerEach rs).1, ∀ b, a.answer = .ok b →
        a.record ∈ (c.offerEach rs).2.accepted := by
  induction rs generalizing c with
  | nil => exact ⟨List.Subset.refl _, fun a ha => absurd ha List.not_mem_nil⟩
  | cons r rs ih =>
      obtain ⟨hsub, hanswers⟩ := ih (c.emit r).2
      have hstep : c.accepted ⊆ (c.emit r).2.accepted := by
        rcases c.emit_cases r with ⟨-, h⟩ | ⟨-, s, -, h⟩ | ⟨-, e, s, -, h⟩ <;> rw [h]
        · exact List.Subset.refl _
        · exact List.subset_cons_self _ _
        · exact List.Subset.refl _
      refine ⟨fun x hx => hsub (hstep hx), ?_⟩
      rintro a ha b hb
      rcases List.mem_cons.mp ha with rfl | ha
      · have hemit : c.emit r = (.ok b, (c.emit r).2) := Prod.ext hb rfl
        exact hsub (accepted_of_emit_ok hemit).1
      · exact hanswers a ha b hb

/-! ## One offer -/

/-- The record is held back: it is called a repetition, and the destination is left alone. -/
def HoldsBack (c : Context σ) (r : Record) : Prop :=
  (c.emit r).1 = .ok false ∧ (c.emit r).2.sink = c.sink

/-- The record goes to the destination, in one call that decides the answer. -/
def HandsOver (c : Context (Audited σ)) (r : Record) : Prop :=
  ∃ answer, (c.emit r).1 = answer.map (fun _ => true) ∧
    (c.emit r).2.sink.calls = c.sink.calls ++ [.emit r answer]

theorem holdsBack_of_mem {c : Context σ} {r : Record} (hr : r ∈ c.accepted) : c.HoldsBack r := by
  rcases c.emit_cases r with ⟨-, h⟩ | ⟨hnew, -⟩ | ⟨hnew, -⟩
  · rw [HoldsBack, h]
    exact ⟨rfl, rfl⟩
  · exact absurd hr hnew
  · exact absurd hr hnew

theorem handsOver_of_not_mem {c : Context (Audited σ)} {r : Record} (hr : r ∉ c.accepted) :
    c.HandsOver r := by
  rcases c.emit_cases r with ⟨hold, -⟩ | ⟨-, s, hsink, h⟩ | ⟨-, e, s, hsink, h⟩
  · exact absurd hold hr
  · rw [HandsOver, h]
    exact ⟨.ok (), rfl, Audited.calls_of_emit hsink⟩
  · rw [HandsOver, h]
    exact ⟨.error e, rfl, Audited.calls_of_emit hsink⟩

theorem emit_eq_false_iff {c : Context σ} {r : Record} :
    (c.emit r).1 = .ok false ↔ r ∈ c.accepted := by
  rcases c.emit_cases r with ⟨hr, h⟩ | ⟨hr, s, -, h⟩ | ⟨hr, e, s, -, h⟩ <;> simp [h, hr]

theorem emit_of_error {c : Context σ} {r : Record} {e : Fault} (he : (c.emit r).1 = .error e) :
    r ∉ c.accepted ∧ (c.emit r).2.accepted = c.accepted ∧ (c.emit r).2.counts = c.counts := by
  rcases c.emit_cases r with ⟨-, h⟩ | ⟨-, s, -, h⟩ | ⟨hr, e', s, -, h⟩
  · rw [h] at he
    cases he
  · rw [h] at he
    cases he
  · rw [h]
    exact ⟨hr, rfl, rfl⟩

/-! ## Any offers -/

/-- The calls that the destination got, the answers and the context's own memory and counts agree,
and no record was taken twice. -/
structure Tallied (answers : List Answered) (c : Context (Audited σ)) : Prop where
  taken_eq : c.sink.calls.filterMap Sink.Call.taken? = c.accepted.reverse
  delivered_eq : answers.filterMap Answered.delivered? = c.accepted.reverse
  nodup : c.accepted.Nodup
  of_counts : ∀ k, c.counts.of k = c.accepted.countP (·.kind = k)
  total : c.counts.total = c.accepted.length
  suppressed : c.counts.duplicatesSuppressed = answers.countP Answered.isRepetition

variable {answers : List Answered} {c : Context (Audited σ)}

omit [Sink σ] in
theorem tallied_new (document : String) (s : σ) : Tallied [] (new document (Audited.opened s)) where
  taken_eq := rfl
  delivered_eq := rfl
  nodup := List.nodup_nil
  of_counts k := by cases k <;> rfl
  total := rfl
  suppressed := rfl

theorem Tallied.emit (h : Tallied answers c) (r : Record) :
    Tallied (answers ++ [⟨r, (c.emit r).1⟩]) (c.emit r).2 := by
  rcases c.emit_cases r with ⟨-, hemit⟩ | ⟨hnew, s, hsink, hemit⟩ | ⟨-, e, s, hsink, hemit⟩ <;>
    rw [hemit]
  · -- a repetition: only the repetitions are counted up
    refine ⟨h.taken_eq, ?_, h.nodup, ?_, h.total, ?_⟩
    · rw [List.filterMap_append, h.delivered_eq]
      exact List.append_nil _
    · intro k
      exact (Counts.of_suppress _ k).trans (h.of_counts k)
    · rw [List.countP_append, ← h.suppressed]
      rfl
  · -- a new record: the call, the answer, the memory and the counts get it at the same time
    refine ⟨?_, ?_, List.nodup_cons.mpr ⟨hnew, h.nodup⟩, ?_, ?_, ?_⟩
    · show s.calls.filterMap _ = (r :: c.accepted).reverse
      rw [Audited.taken_of_emit_ok hsink, h.taken_eq, List.reverse_cons]
    · show _ = (r :: c.accepted).reverse
      rw [List.filterMap_append, h.delivered_eq, List.reverse_cons]
      rfl
    · intro k
      show (c.counts.record r.kind).of k = (r :: c.accepted).countP _
      rw [Counts.of_record, h.of_counts k, List.countP_cons]
      simp [eq_comm]
    · show (c.counts.record r.kind).total = (r :: c.accepted).length
      rw [Counts.total_record, h.total, List.length_cons]
    · show (c.counts.record r.kind).duplicatesSuppressed = _
      rw [Counts.duplicatesSuppressed_record, List.countP_append, h.suppressed]
      rfl
  · -- a refusal: the destination has one more call, which took nothing
    refine ⟨(Audited.taken_of_emit_error hsink).trans h.taken_eq, ?_, h.nodup, h.of_counts, h.total,
      ?_⟩
    · show _ = c.accepted.reverse
      rw [List.filterMap_append, h.delivered_eq]
      exact List.append_nil _
    · rw [List.countP_append]
      exact h.suppressed

/-- **Going on after refusals.** Any offers keep a context tallied. -/
theorem Tallied.offerEach (h : Tallied answers c) (rs : List Record) :
    Tallied (answers ++ (c.offerEach rs).1) (c.offerEach rs).2 := by
  induction rs generalizing c answers with
  | nil =>
      rw [Context.offerEach, List.append_nil]
      exact h
  | cons r rs ih =>
      rw [Context.offerEach, List.append_cons]
      exact ih (h.emit r)

omit [Sink σ] in
theorem Tallied.mem_delivered_iff (h : Tallied answers c) {r : Record} :
    r ∈ answers.filterMap Answered.delivered? ↔ r ∈ c.accepted := by
  rw [h.delivered_eq, List.mem_reverse]

/-- As long as a refused record is not taken, it is handed over at each new offer, and never held
back. -/
theorem Tallied.retry (h : Tallied answers c) {r : Record} {e : Fault}
    (he : (c.emit r).1 = .error e) {more : List Record}
    (hmore : r ∉ ((c.emit r).2.offerEach more).1.filterMap Answered.delivered?) :
    (∀ a ∈ ((c.emit r).2.offerEach more).1, a.record = r → ∃ e', a.answer = .error e') ∧
      ((c.emit r).2.offerEach more).2.HandsOver r := by
  have hnew : r ∉ ((c.emit r).2.offerEach more).2.accepted := by
    have hold : r ∉ answers.filterMap Answered.delivered? :=
      h.mem_delivered_iff.not.mpr (emit_of_error he).1
    have hrefused : [(⟨r, .error e⟩ : Answered)].filterMap Answered.delivered? = [] := rfl
    rw [← ((h.emit r).offerEach more).mem_delivered_iff, List.filterMap_append,
      List.filterMap_append, he, hrefused, List.append_nil, List.mem_append]
    exact not_or.mpr ⟨hold, hmore⟩
  refine ⟨?_, handsOver_of_not_mem hnew⟩
  rintro a ha rfl
  rcases hanswer : a.answer with e' | b
  · exact ⟨e', rfl⟩
  · exact absurd ((accepted_of_offerEach _ more).2 a ha b hanswer) hnew

/-- **Repetitions and counts are exact, whatever is refused.** Let any records be offered, one after
the other, and let the destination refuse as it likes. The records that it took are different from
one another, and are those that were called delivered, in the same order; the counts are theirs. A
record that it took is held back from then on, and any other one is handed over. So a refused record
changes neither the counts nor what is held back, and until it is taken it is handed over at each
new offer. -/
theorem offers_tallied (document : String) (s : σ) (rs : List Record) :
    ∃ answers c taken, (new document (Audited.opened s)).offerEach rs = (answers, c) ∧
      (new document s).offerEach rs = (answers, c.mapSink Audited.inner) ∧
      c.sink.calls.filterMap Sink.Call.taken? = taken ∧
      answers.map Answered.record = rs ∧
      taken.Nodup ∧ answers.filterMap Answered.delivered? = taken ∧
      (∀ k, c.counts.of k = taken.countP (·.kind = k)) ∧ c.counts.total = taken.length ∧
      c.counts.duplicatesSuppressed = answers.countP Answered.isRepetition ∧
      ∀ r, ((c.emit r).1 = .ok false ↔ r ∈ taken) ∧
        (r ∈ taken → c.HoldsBack r) ∧ (r ∉ taken → c.HandsOver r) ∧
        ∀ e, (c.emit r).1 = .error e →
          (c.emit r).2.counts = c.counts ∧
          {r' | ((c.emit r).2.emit r').1 = .ok false} = {r' | (c.emit r').1 = .ok false} ∧
          ∀ more, r ∉ ((c.emit r).2.offerEach more).1.filterMap Answered.delivered? →
            (∀ a ∈ ((c.emit r).2.offerEach more).1, a.record = r → ∃ e', a.answer = .error e') ∧
            ((c.emit r).2.offerEach more).2.HandsOver r := by
  have h := (tallied_new document s).offerEach rs
  have hplain := offerEach_mapSink Audited.hom_inner (new document (Audited.opened s)) rs
  have hrecords := records_offerEach (new document (Audited.opened s)) rs
  rcases hrun : (new document (Audited.opened s)).offerEach rs with ⟨answers, c⟩
  rw [hrun] at h hplain hrecords
  rw [List.nil_append] at h
  have hmem : ∀ r, r ∈ c.accepted.reverse ↔ r ∈ c.accepted := fun _ => List.mem_reverse
  refine ⟨answers, c, c.accepted.reverse, rfl, hplain, h.taken_eq, hrecords,
    List.nodup_reverse.mpr h.nodup, h.delivered_eq, ?_, ?_, h.suppressed, ?_⟩
  · intro k
    rw [List.countP_reverse]
    exact h.of_counts k
  · rw [List.length_reverse]
    exact h.total
  · intro r
    refine ⟨emit_eq_false_iff.trans (hmem r).symm, fun hr => holdsBack_of_mem ((hmem r).mp hr),
      fun hr => handsOver_of_not_mem ((hmem r).not.mp hr), ?_⟩
    intro e he
    obtain ⟨-, haccepted, hcounts⟩ := emit_of_error he
    refine ⟨hcounts, ?_, fun more hmore => h.retry he hmore⟩
    ext r'
    rw [Set.mem_ofPred_eq, Set.mem_ofPred_eq, emit_eq_false_iff, emit_eq_false_iff, haccepted]

/-- A destination that refuses its first call gets the record again, and then no more. -/
example (r : Record) :
    ((new "A.java" (MemorySink.refusing (· = 0) false)).offerEach [r, r, r]).1.map
      Answered.answer = [.error (.io .sinkClosed), .ok true, .ok false] := by
  simp [offerEach, emit, new, accept, Sink.emit, MemorySink.emit, MemorySink.refusing]

end Context

end CodeNav
