import CodeNav.Context
import CodeNav.Proofs.Script
import Mathlib.Data.List.Induction
import Mathlib.Data.List.Nodup
import Mathlib.Data.List.Perm.Basic

/-!
# Delivery

What a context hands over when it performs a script. If the destination never fails, it is handed
the offers of the script with every later repetition left out, whatever was noted in between
(`HasTaken`, `perform_hasTaken`). If the destination may refuse records, all that stays is that
the records it took are different from one another and were offered; a `Ledger` around any
destination keeps those records.
-/

namespace CodeNav

/-! ## First occurrences -/

section FirstOccurrences

variable {α : Type} [DecidableEq α] {l l' : List α}

theorem eraseDups_concat (l : List α) (a : α) :
    (l ++ [a]).eraseDups = if a ∈ l then l.eraseDups else l.eraseDups ++ [a] := by
  rw [List.eraseDups_append]
  by_cases h : a ∈ l <;> simp [List.removeAll, h, List.eraseDups_cons]

theorem eraseDups_filter (p : α → Bool) (l : List α) :
    (l.filter p).eraseDups = l.eraseDups.filter p := by
  induction l using List.reverseRecOn with
  | nil => rfl
  | append_singleton l a ih =>
      rw [eraseDups_concat, List.filter_append]
      cases hp : p a with
      | false => split <;> simp [hp, ih]
      | true =>
          have hsingle : [a].filter p = [a] := by simp [hp]
          rw [hsingle, eraseDups_concat, ih]
          simp only [List.mem_filter, hp, and_true]
          split
          · rfl
          · rw [List.filter_append, hsingle]

theorem nodup_eraseDups (l : List α) : l.eraseDups.Nodup := by
  induction l using List.reverseRecOn with
  | nil => exact List.nodup_nil
  | append_singleton l a ih =>
      rw [eraseDups_concat]
      split
      · exact ih
      · rename_i ha
        apply List.nodup_append.mpr
        refine ⟨ih, List.nodup_singleton a, ?_⟩
        rintro x hx _ hy rfl
        exact ha (List.mem_eraseDups.mp (List.mem_singleton.mp hy ▸ hx))

/-- Order and repetitions decide nothing but the order of the first occurrences. -/
theorem eraseDups_perm (h : ∀ a, a ∈ l ↔ a ∈ l') : l.eraseDups.Perm l'.eraseDups := by
  apply (List.perm_ext_iff_of_nodup (nodup_eraseDups l) (nodup_eraseDups l')).mpr
  intro a
  rw [List.mem_eraseDups, List.mem_eraseDups]
  exact h a

/-- More items have at least as many first occurrences that pass a test. -/
theorem length_filter_eraseDups_le (h : l ⊆ l') (p : α → Bool) :
    (l.eraseDups.filter p).length ≤ (l'.eraseDups.filter p).length := by
  apply List.Subperm.length_le
  apply List.subperm_of_subset ((nodup_eraseDups l).filter p)
  intro a ha
  obtain ⟨hal, hp⟩ := List.mem_filter.mp ha
  exact List.mem_filter.mpr ⟨List.mem_eraseDups.mpr (h (List.mem_eraseDups.mp hal)), hp⟩

theorem eraseDups_append_of_subset (h : l' ⊆ l) : (l ++ l').eraseDups = l.eraseDups := by
  induction l' using List.reverseRecOn with
  | nil => rw [List.append_nil]
  | append_singleton l' a ih =>
      obtain ⟨hl, ha⟩ := List.append_subset.mp h
      have hmem : a ∈ l ++ l' := List.mem_append_left l' (ha (List.mem_singleton_self a))
      rw [← List.append_assoc, eraseDups_concat, if_pos hmem]
      exact ih hl

theorem eraseDups_append_of_one {a? : Option α} (h : ∀ a ∈ l', a ∈ l ∨ a? = some a) :
    ∃ new, (l ++ l').eraseDups = l.eraseDups ++ new ∧ new.length ≤ 1 := by
  refine ⟨(l'.removeAll l).eraseDups, List.eraseDups_append, ?_⟩
  have hone : ∀ a ∈ (l'.removeAll l).eraseDups, a? = some a := by
    intro a ha
    have ha : a ∈ l' ∧ a ∉ l := by simpa [List.removeAll] using ha
    exact (h a ha.1).resolve_left ha.2
  have hnodup := nodup_eraseDups (l'.removeAll l)
  match hnew : (l'.removeAll l).eraseDups with
  | [] => exact Nat.zero_le 1
  | [a] => exact Nat.le_refl 1
  | a :: b :: rest =>
      rw [hnew] at hone hnodup
      have hab : a = b := Option.some.inj ((hone a (by simp)).symm.trans (hone b (by simp)))
      simp [hab] at hnodup

theorem eraseDups_map {β : Type} [DecidableEq β] {g : α → β}
    (hinj : ∀ a ∈ l, ∀ b ∈ l, g a = g b → a = b) : (l.map g).eraseDups = l.eraseDups.map g := by
  induction l using List.reverseRecOn with
  | nil => rfl
  | append_singleton l a ih =>
      have hl : ∀ x ∈ l, x ∈ l ++ [a] := fun x hx => List.mem_append_left [a] hx
      have hmem : g a ∈ l.map g ↔ a ∈ l := by
        constructor
        · intro ha
          obtain ⟨b, hb, heq⟩ := List.mem_map.mp ha
          obtain rfl := hinj b (hl b hb) a (by simp) heq
          exact hb
        · exact List.mem_map_of_mem
      rw [List.map_append, List.map_singleton, eraseDups_concat, eraseDups_concat,
        ih fun x hx y hy => hinj x (hl x hx) y (hl y hy)]
      by_cases ha : a ∈ l
      · rw [if_pos ha, if_pos (hmem.mpr ha)]
      · rw [if_neg ha, if_neg (hmem.not.mpr ha), List.map_append, List.map_singleton]

theorem eraseDups_prefix (h : l <+: l') : l.eraseDups <+: l'.eraseDups := by
  obtain ⟨r, rfl⟩ := h
  rw [List.eraseDups_append]
  exact List.prefix_append _ _

end FirstOccurrences

/-! ## Offering a record -/

namespace Context

variable {σ : Type} [Sink σ]

/-- All that offering a record can come to: the record is a repetition, the destination takes it, or
the destination refuses it. -/
theorem emit_cases (c : Context σ) (r : Record) :
    (r ∈ c.accepted ∧ c.emit r = (.ok false, c.suppress r)) ∨
      (r ∉ c.accepted ∧ ∃ s, Sink.emit c.sink r = (.ok (), s) ∧
        c.emit r = (.ok true, { c with sink := s }.accept r)) ∨
      (r ∉ c.accepted ∧ ∃ e s, Sink.emit c.sink r = (.error e, s) ∧
        c.emit r = (.error e, { c with sink := s })) := by
  by_cases hr : r ∈ c.accepted
  · exact Or.inl ⟨hr, by rw [emit, if_pos hr]⟩
  · right
    rcases hsink : Sink.emit c.sink r with ⟨e | u, s⟩
    · exact Or.inr ⟨hr, e, s, rfl, by rw [emit, if_neg hr, hsink]⟩
    · exact Or.inl ⟨hr, s, rfl, by rw [emit, if_neg hr, hsink]⟩

theorem emit_ok_cases {c c' : Context σ} {r : Record} {b : Bool} (h : c.emit r = (.ok b, c')) :
    (r ∈ c.accepted ∧ c' = c.suppress r) ∨
      (r ∉ c.accepted ∧ ∃ s, Sink.emit c.sink r = (.ok (), s) ∧
        c' = { c with sink := s }.accept r) := by
  rcases c.emit_cases r with ⟨hr, hcase⟩ | ⟨hr, s, hsink, hcase⟩ | ⟨-, e, s, -, hcase⟩
  · exact Or.inl ⟨hr, (Prod.mk.inj (h.symm.trans hcase)).2⟩
  · exact Or.inr ⟨hr, s, hsink, (Prod.mk.inj (h.symm.trans hcase)).2⟩
  · cases hcase.symm.trans h

theorem performActions_offer_ok {c c' : Context σ} {r : Record} {as : List (Action Record)}
    (h : c.performActions (.offer r :: as) = (.ok (), c')) :
    ∃ b c₁, c.emit r = (.ok b, c₁) ∧ c₁.performActions as = (.ok (), c') := by
  rw [performActions] at h
  split at h
  · rename_i b c₁ hemit
    exact ⟨b, c₁, hemit, h⟩
  · cases h

end Context

/-! ## Performing in parts -/

namespace Context

variable {σ α β : Type} [Sink σ]

theorem performActions_append (c : Context σ) (as bs : List (Action Record)) :
    c.performActions (as ++ bs) =
      match c.performActions as with
      | (.ok (), c') => c'.performActions bs
      | (.error e, c') => (.error e, c') := by
  induction as generalizing c with
  | nil => rfl
  | cons a as ih =>
      cases a with
      | note e => exact ih (c.note e)
      | offer r =>
          rw [List.cons_append, performActions, performActions]
          split
          · exact ih _
          · rfl

theorem perform_bind (c : Context σ) (s : Script Record α) (next : α → Script Record β) :
    c.perform (s >>= next) =
      match c.perform s with
      | (.ok a, c') => c'.perform (next a)
      | (.error e, c') => (.error e, c') := by
  cases hs : s.result with
  | error e =>
      rw [Script.bind_of_error hs, perform, perform, hs]
      split <;> simp_all
  | ok a =>
      rw [Script.bind_of_ok hs, perform, performActions_append, perform, hs]
      rcases c.performActions s.actions with ⟨_ | _, c'⟩ <;> rfl

end Context

/-! ## Destinations that never fail -/

namespace Sink

variable {σ : Type} [Sink σ]

/-- The state of a destination that was handed records, one after the other. -/
def after (s : σ) (rs : List Record) : σ := rs.foldl (fun s r => (Sink.emit s r).2) s

/-- From now on the destination takes every record, and every flush. -/
structure NeverFails (s : σ) : Prop where
  emit_ok : ∀ rs r, (Sink.emit (after s rs) r).1 = .ok ()
  flush_ok : ∀ rs, (Sink.flush (after s rs)).1 = .ok ()

theorem after_concat (s : σ) (rs : List Record) (r : Record) :
    after s (rs ++ [r]) = (Sink.emit (after s rs) r).2 := by
  simp [after]

end Sink

namespace MemorySink

/-- A destination in memory that refuses nothing holds what it was handed. -/
theorem after_empty (rs : List Record) :
    Sink.after empty rs = { empty with records := rs.toArray, calls := rs.length } := by
  induction rs using List.reverseRecOn with
  | nil => rfl
  | append_singleton rs r ih =>
      rw [Sink.after_concat, ih]
      simp [Sink.emit, emit, empty, refusing]

theorem neverFails_empty : Sink.NeverFails empty where
  emit_ok rs r := by
    rw [after_empty]
    rfl
  flush_ok rs := by
    rw [after_empty]
    rfl

end MemorySink

namespace Context

variable {σ α : Type} [Sink σ]

/-- The state of a context that was offered records for a destination that never fails: each
different record was handed over once, when it was first offered. -/
structure HasTaken (s : σ) (offered : List Record) (c : Context σ) : Prop where
  sink_eq : c.sink = Sink.after s offered.eraseDups
  accepted_eq : c.accepted = offered.eraseDups.reverse
  of_counts : ∀ k, c.counts.of k = (offered.eraseDups.filter (·.kind = k)).length
  suppressed : c.counts.duplicatesSuppressed + offered.eraseDups.length = offered.length

variable {s : σ} {offered : List Record} {c : Context σ}

theorem hasTaken_new (document : String) (s : σ) : HasTaken s [] (new document s) where
  sink_eq := rfl
  accepted_eq := rfl
  of_counts k := by cases k <;> rfl
  suppressed := rfl

theorem HasTaken.note (h : HasTaken s offered c) (e : Event) : HasTaken s offered (c.note e) where
  sink_eq := h.sink_eq
  accepted_eq := h.accepted_eq
  of_counts := h.of_counts
  suppressed := h.suppressed

/-- A record that is offered without a failure counts as taken, whatever the destination does
later. -/
theorem HasTaken.of_emit_ok (h : HasTaken s offered c) {r : Record} {b : Bool} {c' : Context σ}
    (hemit : c.emit r = (.ok b, c')) : HasTaken s (offered ++ [r]) c' := by
  have hmem : r ∈ c.accepted ↔ r ∈ offered := by simp [h.accepted_eq]
  have hsup := h.suppressed
  rcases emit_ok_cases hemit with ⟨hr, rfl⟩ | ⟨hr, s', hsink, rfl⟩
  · -- a repetition: nothing changes but the count of repetitions
    have hdup : (offered ++ [r]).eraseDups = offered.eraseDups := by
      rw [eraseDups_concat, if_pos (hmem.mp hr)]
    refine ⟨?_, ?_, ?_, ?_⟩
    · rw [hdup]
      exact h.sink_eq
    · rw [hdup]
      exact h.accepted_eq
    · intro k
      rw [hdup, ← h.of_counts k]
      exact Counts.of_suppress _ k
    · rw [hdup, List.length_append, List.length_singleton]
      change c.counts.duplicatesSuppressed + 1 + _ = _
      omega
  · -- a new record: it goes to the destination, and is remembered and counted
    have hnew : (offered ++ [r]).eraseDups = offered.eraseDups ++ [r] := by
      rw [eraseDups_concat, if_neg (hmem.not.mp hr)]
    refine ⟨?_, ?_, ?_, ?_⟩
    · rw [hnew, Sink.after_concat, ← h.sink_eq, hsink]
      rfl
    · rw [hnew, List.reverse_concat, ← h.accepted_eq]
      rfl
    · intro k
      change (c.counts.record r.kind).of k = _
      rw [hnew, Counts.of_record, h.of_counts k, List.filter_append, List.length_append]
      by_cases hk : r.kind = k
      · simp [hk]
      · simp [hk, Ne.symm hk]
    · change (c.counts.record r.kind).duplicatesSuppressed + _ = _
      rw [hnew, Counts.duplicatesSuppressed_record, List.length_append, List.length_append]
      omega

theorem HasTaken.emit (hs : Sink.NeverFails s) (h : HasTaken s offered c) (r : Record) :
    ∃ b c', c.emit r = (.ok b, c') ∧ HasTaken s (offered ++ [r]) c' := by
  rcases c.emit_cases r with ⟨-, hemit⟩ | ⟨-, s', -, hemit⟩ | ⟨-, e, s', hsink, -⟩
  · exact ⟨false, _, hemit, h.of_emit_ok hemit⟩
  · exact ⟨true, _, hemit, h.of_emit_ok hemit⟩
  · have hok : (Sink.emit c.sink r).1 = .ok () := h.sink_eq ▸ hs.emit_ok _ r
    rw [hsink] at hok
    cases hok

theorem HasTaken.performActions (hs : Sink.NeverFails s) (h : HasTaken s offered c)
    (as : List (Action Record)) :
    ∃ c', c.performActions as = (.ok (), c') ∧
      HasTaken s (offered ++ as.filterMap Action.offered?) c' := by
  induction as generalizing c offered with
  | nil => exact ⟨c, rfl, by simpa using h⟩
  | cons a as ih =>
      cases a with
      | note e => exact ih (h.note e)
      | offer r =>
          obtain ⟨b, c₁, hemit, h₁⟩ := h.emit hs r
          obtain ⟨c₂, hperform, h₂⟩ := ih h₁
          refine ⟨c₂, ?_, by simpa [Action.offered?] using h₂⟩
          rw [Context.performActions, hemit]
          exact hperform

/-- **Performing a script for a destination that never fails.** It ends as the script ends, and the
destination was handed the first occurrences of what the script offers. -/
theorem HasTaken.perform (hs : Sink.NeverFails s) (h : HasTaken s offered c)
    (script : Script Record α) :
    ∃ c', c.perform script = (script.result, c') ∧ HasTaken s (offered ++ script.offers) c' := by
  obtain ⟨c', hperform, h'⟩ := h.performActions hs script.actions
  exact ⟨c', by rw [Context.perform, hperform], h'⟩

/-- What a context has taken on while it was offered records: the new ones went to the destination,
each once, and every repetition was suppressed. -/
structure Adds (c : Context σ) (offered new : List Record) (c' : Context σ) : Prop where
  sink_eq : c'.sink = Sink.after c.sink new
  accepted_eq : c'.accepted = new.reverse ++ c.accepted
  fresh : ∀ r ∈ new, r ∈ offered ∧ r ∉ c.accepted
  known : ∀ r ∈ offered, r ∈ new ∨ r ∈ c.accepted
  suppressed : c'.counts.duplicatesSuppressed + new.length =
    c.counts.duplicatesSuppressed + offered.length

/-- For a destination that never fails, the new records are the new first occurrences. -/
theorem HasTaken.adds {more new : List Record} {c' : Context σ} (h : HasTaken s offered c)
    (h' : HasTaken s (offered ++ more) c')
    (hnew : (offered ++ more).eraseDups = offered.eraseDups ++ new) : Adds c more new c' := by
  have hmem : ∀ r, r ∈ c.accepted ↔ r ∈ offered := fun r => by simp [h.accepted_eq]
  have hall : ∀ r, r ∈ offered ∨ r ∈ more ↔ r ∈ offered ∨ r ∈ new := by
    intro r
    rw [← List.mem_append, ← List.mem_eraseDups, hnew, List.mem_append, List.mem_eraseDups]
  have hdisjoint : ∀ r ∈ new, r ∉ offered := by
    intro r hr hoffered
    have hnodup := nodup_eraseDups (offered ++ more)
    rw [hnew] at hnodup
    exact (List.nodup_append.mp hnodup).2.2 r (List.mem_eraseDups.mpr hoffered) r hr rfl
  constructor
  · rw [h'.sink_eq, hnew, Sink.after, List.foldl_append, h.sink_eq]
    rfl
  · rw [h'.accepted_eq, hnew, List.reverse_append, h.accepted_eq]
  · intro r hr
    refine ⟨((hall r).mpr (Or.inr hr)).resolve_left (hdisjoint r hr), ?_⟩
    exact (hmem r).not.mpr (hdisjoint r hr)
  · intro r hr
    exact ((hall r).mp (Or.inr hr)).symm.imp_right (hmem r).mpr
  · have hbefore := h.suppressed
    have hafter := h'.suppressed
    rw [hnew, List.length_append, List.length_append] at hafter
    omega

end Context

/-! ## Performing without a failure -/

namespace Context

variable {σ α : Type} [Sink σ] {c c' : Context σ}

theorem accepted_of_emit_ok {r : Record} {b : Bool} (h : c.emit r = (.ok b, c')) :
    r ∈ c'.accepted ∧ c.accepted ⊆ c'.accepted := by
  rcases emit_ok_cases h with ⟨hr, rfl⟩ | ⟨-, s, -, rfl⟩
  · exact ⟨hr, List.Subset.refl _⟩
  · exact ⟨List.mem_cons_self, List.subset_cons_self _ _⟩

theorem accepted_of_performActions_ok {as : List (Action Record)}
    (h : c.performActions as = (.ok (), c')) :
    as.filterMap Action.offered? ⊆ c'.accepted ∧ c.accepted ⊆ c'.accepted := by
  induction as generalizing c with
  | nil =>
      cases h
      exact ⟨List.nil_subset _, List.Subset.refl _⟩
  | cons a as ih =>
      cases a with
      | note e => exact ih (c := c.note e) h
      | offer r =>
          obtain ⟨b, c₁, hemit, h⟩ := performActions_offer_ok h
          obtain ⟨hr, hsub⟩ := accepted_of_emit_ok hemit
          obtain ⟨has, hsub₁⟩ := ih h
          exact ⟨List.cons_subset.mpr ⟨hsub₁ hr, has⟩, fun x hx => hsub₁ (hsub hx)⟩

/-- **Performing a script to its end.** If nothing fails, the destination has all that the script
offers. -/
theorem performActions_of_perform_ok {script : Script Record α} {a : α}
    (h : c.perform script = (.ok a, c')) :
    script.result = .ok a ∧ c.performActions script.actions = (.ok (), c') := by
  rw [perform] at h
  split at h
  · rename_i c₁ hactions
    obtain ⟨hresult, rfl⟩ := Prod.mk.inj h
    exact ⟨hresult, hactions⟩
  · cases h

theorem accepted_of_perform_ok {script : Script Record α} {a : α}
    (h : c.perform script = (.ok a, c')) :
    script.result = .ok a ∧ script.offers ⊆ c'.accepted := by
  obtain ⟨hresult, hactions⟩ := performActions_of_perform_ok h
  exact ⟨hresult, (accepted_of_performActions_ok hactions).1⟩

end Context

/-! ## Destinations around destinations -/

/-- `φ` takes a destination to one that takes and refuses the same. -/
structure Sink.Hom {σ τ : Type} [Sink σ] [Sink τ] (φ : τ → σ) : Prop where
  emit_eq : ∀ s r, Sink.emit (φ s) r = ((Sink.emit s r).1, φ (Sink.emit s r).2)
  flush_eq : ∀ s, Sink.flush (φ s) = ((Sink.flush s).1, φ (Sink.flush s).2)

namespace Context

variable {σ τ α : Type} {φ : τ → σ}

def mapSink (φ : τ → σ) (c : Context τ) : Context σ :=
  ⟨c.document, φ c.sink, c.accepted, c.counts, c.log⟩

variable [Sink σ] [Sink τ]

theorem emit_mapSink (hφ : Sink.Hom φ) (c : Context τ) (r : Record) :
    (c.mapSink φ).emit r = ((c.emit r).1, (c.emit r).2.mapSink φ) := by
  have hemit : Sink.emit (c.mapSink φ).sink r =
      ((Sink.emit c.sink r).1, φ (Sink.emit c.sink r).2) := hφ.emit_eq c.sink r
  unfold emit
  by_cases hr : r ∈ c.accepted
  · rw [if_pos hr, if_pos (show r ∈ (c.mapSink φ).accepted from hr)]
    rfl
  · rw [if_neg hr, if_neg (show r ∉ (c.mapSink φ).accepted from hr), hemit]
    rcases Sink.emit c.sink r with ⟨e | u, s⟩ <;> rfl

theorem performActions_mapSink (hφ : Sink.Hom φ) (c : Context τ) (as : List (Action Record)) :
    (c.mapSink φ).performActions as =
      ((c.performActions as).1, (c.performActions as).2.mapSink φ) := by
  induction as generalizing c with
  | nil => rfl
  | cons a as ih =>
      cases a with
      | note e => exact ih (c.note e)
      | offer r =>
          rw [performActions, performActions, emit_mapSink hφ]
          rcases c.emit r with ⟨e | b, c'⟩
          · rfl
          · exact ih c'

theorem perform_mapSink (hφ : Sink.Hom φ) (c : Context τ) (s : Script Record α) :
    (c.mapSink φ).perform s = ((c.perform s).1, (c.perform s).2.mapSink φ) := by
  unfold perform
  rw [performActions_mapSink hφ]
  rcases c.performActions s.actions with ⟨e | u, c'⟩ <;> rfl

theorem finish_mapSink (hφ : Sink.Hom φ) (c : Context τ) :
    (c.mapSink φ).finish = (c.finish.1, c.finish.2.mapSink φ) := by
  have hflush : Sink.flush (c.mapSink φ).sink =
      ((Sink.flush c.sink).1, φ (Sink.flush c.sink).2) := hφ.flush_eq c.sink
  unfold finish
  rw [hflush]
  rcases Sink.flush c.sink with ⟨e | u, s⟩ <;> rfl

end Context

/-! ## Any destination -/

/-- A destination with a list of the records that it took. -/
structure Ledger (σ : Type) where
  inner : σ
  taken : List Record

namespace Ledger

variable {σ : Type} [Sink σ]

def opened (s : σ) : Ledger σ := ⟨s, []⟩

def emit (l : Ledger σ) (r : Record) : Except Fault Unit × Ledger σ :=
  match Sink.emit l.inner r with
  | (.ok (), s) => (.ok (), ⟨s, l.taken ++ [r]⟩)
  | (.error e, s) => (.error e, ⟨s, l.taken⟩)

def flush (l : Ledger σ) : Except Fault Unit × Ledger σ :=
  ((Sink.flush l.inner).1, ⟨(Sink.flush l.inner).2, l.taken⟩)

instance : Sink (Ledger σ) := ⟨emit, flush⟩

theorem sink_emit (l : Ledger σ) (r : Record) : Sink.emit l r = l.emit r := rfl

theorem taken_of_emit_ok {l l' : Ledger σ} {r : Record} (h : Sink.emit l r = (.ok (), l')) :
    l'.taken = l.taken ++ [r] := by
  rw [sink_emit, emit] at h
  split at h
  · cases h
    rfl
  · cases h

theorem taken_of_emit_error {l l' : Ledger σ} {r : Record} {e : Fault}
    (h : Sink.emit l r = (.error e, l')) : l'.taken = l.taken := by
  rw [sink_emit, emit] at h
  split at h
  · cases h
  · cases h
    rfl

theorem hom_inner : Sink.Hom (Ledger.inner : Ledger σ → σ) where
  emit_eq l r := by
    rw [sink_emit, emit]
    rcases Sink.emit l.inner r with ⟨e | u, s⟩ <;> rfl
  flush_eq _ := rfl

end Ledger

namespace Context

variable {σ α : Type} [Sink σ] {c c' : Context (Ledger σ)} {rs : List Record}

/-- The ledger agrees with the context's own memory, no record was taken twice, and what was taken
is among the given records. -/
structure Kept (rs : List Record) (c : Context (Ledger σ)) : Prop where
  taken_eq : c.sink.taken = c.accepted.reverse
  nodup : c.accepted.Nodup
  subset : c.accepted ⊆ rs

omit [Sink σ] in
theorem Kept.mono {rs' : List Record} (h : Kept rs c) (hsub : rs ⊆ rs') : Kept rs' c :=
  ⟨h.taken_eq, h.nodup, fun _ hr => hsub (h.subset hr)⟩

theorem Kept.emit (h : Kept rs c) {r : Record} (hr : r ∈ rs) : Kept rs (c.emit r).2 := by
  rcases c.emit_cases r with ⟨-, hcase⟩ | ⟨hnew, s, hsink, hcase⟩ | ⟨-, e, s, hsink, hcase⟩ <;>
    rw [hcase]
  · exact ⟨h.taken_eq, h.nodup, h.subset⟩
  · refine ⟨?_, List.nodup_cons.mpr ⟨hnew, h.nodup⟩, List.cons_subset.mpr ⟨hr, h.subset⟩⟩
    change s.taken = (r :: c.accepted).reverse
    rw [Ledger.taken_of_emit_ok hsink, h.taken_eq, List.reverse_cons]
  · exact ⟨(Ledger.taken_of_emit_error hsink).trans h.taken_eq, h.nodup, h.subset⟩

theorem Kept.performActions (h : Kept rs c) {as : List (Action Record)}
    (hsub : as.filterMap Action.offered? ⊆ rs) : Kept rs (c.performActions as).2 := by
  induction as generalizing c with
  | nil => exact h
  | cons a as ih =>
      cases a with
      | note e => exact ih (c := c.note e) ⟨h.taken_eq, h.nodup, h.subset⟩ hsub
      | offer r =>
          obtain ⟨hr, hsub⟩ := List.cons_subset.mp hsub
          have hc := h.emit hr
          rw [Context.performActions]
          split
          · rename_i c' heq
            rw [heq] at hc
            exact ih hc hsub
          · rename_i heq
            rw [heq] at hc
            exact hc

/-- **Performing a script for any destination.** What it took was offered, each record once. -/
theorem Kept.perform (h : Kept rs c) {script : Script Record α} (hsub : script.offers ⊆ rs) :
    Kept rs (c.perform script).2 := by
  have hc := h.performActions hsub
  rw [Context.perform]
  split
  · rename_i heq
    rw [heq] at hc
    exact hc
  · rename_i heq
    rw [heq] at hc
    exact hc

end Context

end CodeNav
