import CodeNav.Script
import Mathlib.Data.List.Flatten

/-!
# Laws of scripts

Scripts are a lawful monad, and their offers are read off part by part. A script that goes through a
list either succeeds at every item, and then it offers what the items offer, or it ends at the first
item with a fault (`forM_of_ok`, `forM_of_fault`).

Two scripts are compared in three ways. `Covers` says that one does at least as much as another as
long as it succeeds, and `Maps` that it ends alike and offers the same up to a map of the records;
both pass through every composition. `quiet` drops what a script notes, so that scripts which differ
in their notes only have the same quiet form.
-/

namespace CodeNav

namespace Script

variable {ρ α β γ : Type}

protected theorem id_map (s : Script ρ α) : id <$> s = s := by
  obtain ⟨as, _ | a⟩ := s
  · rfl
  · exact congrArg (Script.mk · _) (List.append_nil as)

instance : LawfulMonad (Script ρ) :=
  LawfulMonad.mk' (Script ρ) Script.id_map (fun _ _ => rfl) Script.bind_assoc

/-! ## Parts -/

@[ext] theorem ext {s s' : Script ρ α} (ha : s.actions = s'.actions) (hr : s.result = s'.result) :
    s = s' := by
  cases s
  cases s'
  simp_all

@[simp] theorem result_pure (a : α) : (pure a : Script ρ α).result = .ok a := rfl

@[simp] theorem offers_pure (a : α) : (pure a : Script ρ α).offers = [] := rfl

@[simp] theorem result_note (e : Event) : (note e : Script ρ Unit).result = .ok () := rfl

@[simp] theorem offers_note (e : Event) : (note e : Script ρ Unit).offers = [] := rfl

@[simp] theorem result_offer (r : ρ) : (offer r).result = .ok () := rfl

@[simp] theorem offers_offer (r : ρ) : (offer r).offers = [r] := rfl

@[simp] theorem result_ofExcept (x : Except Fault α) : (ofExcept x : Script ρ α).result = x := rfl

@[simp] theorem offers_ofExcept (x : Except Fault α) : (ofExcept x : Script ρ α).offers = [] := rfl

@[simp] theorem result_notes (es : List Event) : (notes es : Script ρ Unit).result = .ok () := rfl

@[simp] theorem offers_notes (es : List Event) : (notes es : Script ρ Unit).offers = [] := by
  simp [notes, offers, List.filterMap_map, Function.comp_def, Action.offered?]

theorem bind_of_ok {s : Script ρ α} {a : α} (h : s.result = .ok a) (next : α → Script ρ β) :
    s >>= next = ⟨s.actions ++ (next a).actions, (next a).result⟩ := by
  rw [bind_def, andThen, h]

theorem bind_of_error {s : Script ρ α} {e : Fault} (h : s.result = .error e)
    (next : α → Script ρ β) : s >>= next = ⟨s.actions, .error e⟩ := by
  rw [bind_def, andThen, h]

theorem offers_bind_of_ok {s : Script ρ α} {a : α} (h : s.result = .ok a)
    (next : α → Script ρ β) : (s >>= next).offers = s.offers ++ (next a).offers := by
  rw [bind_of_ok h]
  exact List.filterMap_append

theorem offers_bind_of_error {s : Script ρ α} {e : Fault} (h : s.result = .error e)
    (next : α → Script ρ β) : (s >>= next).offers = s.offers := by
  rw [bind_of_error h]
  rfl

theorem mem_offers_bind {s : Script ρ α} {next : α → Script ρ β} {r : ρ} :
    r ∈ (s >>= next).offers ↔ r ∈ s.offers ∨ ∃ a, s.result = .ok a ∧ r ∈ (next a).offers := by
  cases h : s.result with
  | error e => simp [offers_bind_of_error h]
  | ok a => simp [offers_bind_of_ok h]

/-- A computation in front of a script offers nothing itself. -/
theorem mem_offers_ofExcept_bind {x : Except Fault α} {next : α → Script ρ β} {r : ρ} :
    r ∈ (ofExcept x >>= next).offers ↔ ∃ a, x = .ok a ∧ r ∈ (next a).offers := by
  simp [mem_offers_bind]

theorem result_bind_eq_ok_iff {s : Script ρ α} {next : α → Script ρ β} {b : β} :
    (s >>= next).result = .ok b ↔ ∃ a, s.result = .ok a ∧ (next a).result = .ok b := by
  cases h : s.result with
  | error e => simp [bind_of_error h]
  | ok a => simp [bind_of_ok h]

theorem result_bind_eq_error_iff {s : Script ρ α} {next : α → Script ρ β} {e : Fault} :
    (s >>= next).result = .error e ↔
      s.result = .error e ∨ ∃ a, s.result = .ok a ∧ (next a).result = .error e := by
  cases h : s.result with
  | error e' => simp [bind_of_error h]
  | ok a => simp [bind_of_ok h]

/-- What follows a computation matters at its result only. -/
theorem ofExcept_bind_congr {x : Except Fault α} {next next' : α → Script ρ β}
    (h : ∀ a, x = .ok a → next a = next' a) : ofExcept x >>= next = ofExcept x >>= next' := by
  cases x with
  | error e => rfl
  | ok a => rw [bind_of_ok (rfl : (ofExcept (Except.ok a) : Script ρ α).result = .ok a),
      bind_of_ok (rfl : (ofExcept (Except.ok a) : Script ρ α).result = .ok a), h a rfl]

/-! ## Going through a list -/

section Sequences

variable {f : α → Script ρ Unit} {l pre post : List α} {x : α} {e : Fault}

theorem ok_or_first_fault (f : α → Script ρ Unit) (l : List α) :
    (∀ x ∈ l, (f x).result = .ok ()) ∨
      ∃ pre x post e, l = pre ++ x :: post ∧ (∀ y ∈ pre, (f y).result = .ok ()) ∧
        (f x).result = .error e := by
  induction l with
  | nil => exact Or.inl fun _ hx => absurd hx List.not_mem_nil
  | cons y l ih =>
      cases hy : (f y).result with
      | error e => exact Or.inr ⟨[], y, l, e, rfl, fun _ hx => absurd hx List.not_mem_nil, hy⟩
      | ok u =>
          rcases ih with hl | ⟨pre, x, post, e, rfl, hpre, hx⟩
          · exact Or.inl (List.forall_mem_cons.mpr ⟨hy, hl⟩)
          · exact Or.inr ⟨y :: pre, x, post, e, rfl, List.forall_mem_cons.mpr ⟨hy, hpre⟩, hx⟩

theorem forM_of_ok (h : ∀ x ∈ l, (f x).result = .ok ()) :
    forM l f = ⟨l.flatMap fun x => (f x).actions, .ok ()⟩ := by
  induction l with
  | nil => rfl
  | cons x l ih =>
      obtain ⟨hx, hl⟩ := List.forall_mem_cons.mp h
      rw [List.forM_cons, bind_of_ok hx, ih hl, List.flatMap_cons]

theorem forM_of_fault (h : ∀ y ∈ pre, (f y).result = .ok ()) (hx : (f x).result = .error e) :
    forM (pre ++ x :: post) f = ⟨(pre ++ [x]).flatMap fun y => (f y).actions, .error e⟩ := by
  rw [List.forM_append, forM_of_ok h, mk_ok_bind, List.forM_cons, bind_of_error hx]
  simp

theorem offers_flatMap (f : α → Script ρ β) (l : List α) (x : Except Fault γ) :
    offers ⟨l.flatMap fun x => (f x).actions, x⟩ = l.flatMap fun x => (f x).offers := by
  simp [offers, List.filterMap_flatMap]

theorem offers_forM_of_ok (h : ∀ x ∈ l, (f x).result = .ok ()) :
    (forM l f).offers = l.flatMap fun x => (f x).offers := by
  rw [forM_of_ok h, offers_flatMap]

theorem offers_forM_of_fault (h : ∀ y ∈ pre, (f y).result = .ok ())
    (hx : (f x).result = .error e) :
    (forM (pre ++ x :: post) f).offers = (pre ++ [x]).flatMap fun y => (f y).offers := by
  rw [forM_of_fault h hx, offers_flatMap]

theorem offers_forM_append (h : ∀ x ∈ l, (f x).result = .ok ()) (l' : List α) :
    (forM (l ++ l') f).offers = (l.flatMap fun x => (f x).offers) ++ (forM l' f).offers := by
  have hl : (forM l f).result = .ok () := by rw [forM_of_ok h]
  rw [List.forM_append, offers_bind_of_ok hl, offers_forM_of_ok h]

theorem result_forM_eq_ok_iff : (forM l f).result = .ok () ↔ ∀ x ∈ l, (f x).result = .ok () := by
  refine ⟨fun h => ?_, fun h => by rw [forM_of_ok h]⟩
  rcases ok_or_first_fault f l with hok | ⟨pre, x, post, e, rfl, hpre, hx⟩
  · exact hok
  · rw [forM_of_fault hpre hx] at h
    cases h

/-- A fault in going through a list is that of the first item with a fault. -/
theorem result_forM_eq_error_iff :
    (forM l f).result = .error e ↔
      ∃ pre x post, l = pre ++ x :: post ∧ (∀ y ∈ pre, (f y).result = .ok ()) ∧
        (f x).result = .error e := by
  constructor
  · intro h
    rcases ok_or_first_fault f l with hok | ⟨pre, x, post, e', rfl, hpre, hx⟩
    · rw [forM_of_ok hok] at h
      cases h
    · rw [forM_of_fault hpre hx] at h
      cases h
      exact ⟨pre, x, post, rfl, hpre, hx⟩
  · rintro ⟨pre, x, post, rfl, hpre, hx⟩
    rw [forM_of_fault hpre hx]

theorem exists_of_result_forM_eq_error (h : (forM l f).result = .error e) :
    ∃ x ∈ l, (f x).result = .error e := by
  obtain ⟨pre, x, post, rfl, -, hx⟩ := result_forM_eq_error_iff.mp h
  exact ⟨x, List.mem_append_right pre List.mem_cons_self, hx⟩

theorem mem_offers_forM {r : ρ} (h : r ∈ (forM l f).offers) : ∃ x ∈ l, r ∈ (f x).offers := by
  induction l with
  | nil => exact absurd h List.not_mem_nil
  | cons y l ih =>
      rw [List.forM_cons] at h
      rcases mem_offers_bind.mp h with h | ⟨_, -, h⟩
      · exact ⟨y, List.mem_cons_self, h⟩
      · obtain ⟨x, hx, hr⟩ := ih h
        exact ⟨x, List.mem_cons_of_mem _ hx, hr⟩

theorem forM_congr {g : α → Script ρ Unit} (h : ∀ x ∈ l, f x = g x) : forM l f = forM l g := by
  induction l with
  | nil => rfl
  | cons x l ih =>
      obtain ⟨hx, hl⟩ := List.forall_mem_cons.mp h
      rw [List.forM_cons, List.forM_cons, hx, ih hl]

theorem forM_flatMap (f : β → Script ρ Unit) (g : α → List β) (l : List α) :
    forM (l.flatMap g) f = forM l fun x => forM (g x) f := by
  induction l with
  | nil => rfl
  | cons x l ih => rw [List.flatMap_cons, List.forM_append, List.forM_cons, ih]

theorem forM_filter (p : α → Bool) (f : α → Script ρ Unit) (l : List α) :
    forM (l.filter p) f = forM l fun x => if p x = true then f x else pure () := by
  induction l with
  | nil => rfl
  | cons x l ih =>
      rw [List.forM_cons, ← ih]
      cases hp : p x with
      | false => simp [hp]
      | true => simp [hp]

theorem forM_map (f : β → Script ρ Unit) (g : α → β) (l : List α) :
    forM (l.map g) f = forM l fun x => f (g x) := by
  induction l with
  | nil => rfl
  | cons x l ih => rw [List.map_cons, List.forM_cons, List.forM_cons, ih]

end Sequences

/-! ## Doing at least as much -/

/-- If the first script succeeds, so does the second, with the same result and no other offers. -/
def Covers (s' s : Script ρ α) : Prop :=
  ∀ a, s'.result = .ok a → s.result = .ok a ∧ s.offers ⊆ s'.offers

theorem Covers.refl (s : Script ρ α) : s.Covers s := fun _ h => ⟨h, List.Subset.refl _⟩

/-- A script that only notes something is covered by any other. -/
theorem covers_of_silent {s' s : Script ρ Unit} (hresult : s.result = .ok ())
    (hoffers : s.offers = []) : s'.Covers s := by
  intro _ _
  rw [hoffers]
  exact ⟨hresult, List.nil_subset _⟩

theorem Covers.bind {s' s : Script ρ α} {next' next : α → Script ρ β} (h : s'.Covers s)
    (hnext : ∀ a, s'.result = .ok a → (next' a).Covers (next a)) :
    (s' >>= next').Covers (s >>= next) := by
  intro b hb
  obtain ⟨a, ha', hb'⟩ := result_bind_eq_ok_iff.mp hb
  obtain ⟨ha, hsub⟩ := h a ha'
  obtain ⟨hb, hsub'⟩ := hnext a ha' b hb'
  refine ⟨result_bind_eq_ok_iff.mpr ⟨a, ha, hb⟩, ?_⟩
  rw [offers_bind_of_ok ha, offers_bind_of_ok ha']
  exact List.append_subset.mpr
    ⟨List.subset_append_of_subset_left _ hsub, List.subset_append_of_subset_right _ hsub'⟩

/-- Going through more items, each of which does at least as much. -/
theorem covers_forM {f' f : α → Script ρ Unit} {l' l : List α} (hsub : l ⊆ l')
    (h : ∀ x ∈ l, (f' x).Covers (f x)) : (forM l' f').Covers (forM l f) := by
  intro _ hok'
  have hok' := result_forM_eq_ok_iff.mp hok'
  have hok : ∀ x ∈ l, (f x).result = .ok () := fun x hx => (h x hx () (hok' x (hsub hx))).1
  refine ⟨result_forM_eq_ok_iff.mpr hok, ?_⟩
  rw [offers_forM_of_ok hok, offers_forM_of_ok hok']
  intro r hr
  obtain ⟨x, hx, hr⟩ := List.mem_flatMap.mp hr
  exact List.mem_flatMap.mpr ⟨x, hsub hx, (h x hx () (hok' x (hsub hx))).2 hr⟩

/-! ## Other offers in the same places -/

/-- The second script ends as the first one does and offers the same, under a map. Notes may
differ. -/
structure Maps {ρ' : Type} (g : ρ → ρ') (s : Script ρ α) (s' : Script ρ' α) : Prop where
  result_eq : s'.result = s.result
  offers_eq : s'.offers = s.offers.map g

theorem Maps.bind {ρ' : Type} {g : ρ → ρ'} {s : Script ρ α} {s' : Script ρ' α}
    {next : α → Script ρ β} {next' : α → Script ρ' β} (h : Maps g s s')
    (hnext : ∀ a, Maps g (next a) (next' a)) : Maps g (s >>= next) (s' >>= next') := by
  have hresult := h.result_eq
  cases hs : s.result with
  | error e =>
      rw [hs] at hresult
      constructor
      · rw [bind_of_error hs, bind_of_error hresult]
      · rw [offers_bind_of_error hs, offers_bind_of_error hresult, h.offers_eq]
  | ok a =>
      rw [hs] at hresult
      constructor
      · rw [bind_of_ok hs, bind_of_ok hresult]
        exact (hnext a).result_eq
      · rw [offers_bind_of_ok hs, offers_bind_of_ok hresult, List.map_append, h.offers_eq,
          (hnext a).offers_eq]

theorem maps_forM {ρ' : Type} {g : ρ → ρ'} {f : α → Script ρ Unit} {f' : α → Script ρ' Unit}
    {l : List α} (h : ∀ x ∈ l, Maps g (f x) (f' x)) : Maps g (forM l f) (forM l f') := by
  induction l with
  | nil => exact ⟨rfl, rfl⟩
  | cons x l ih =>
      obtain ⟨hx, hl⟩ := List.forall_mem_cons.mp h
      rw [List.forM_cons, List.forM_cons]
      exact hx.bind fun _ => ih hl

/-! ## Without the notes -/

/-- The script that offers the same and ends the same, and notes nothing. -/
def quiet (s : Script ρ α) : Script ρ α := ⟨s.offers.map .offer, s.result⟩

@[simp] theorem result_quiet (s : Script ρ α) : s.quiet.result = s.result := rfl

@[simp] theorem offers_quiet (s : Script ρ α) : s.quiet.offers = s.offers := by
  simp [quiet, offers, List.filterMap_map, Function.comp_def, Action.offered?]

theorem quiet_bind (s : Script ρ α) (next : α → Script ρ β) :
    (s >>= next).quiet = s.quiet >>= fun a => (next a).quiet := by
  cases h : s.result with
  | error e =>
      rw [bind_of_error h, bind_of_error (s := s.quiet) h]
      rfl
  | ok a =>
      rw [bind_of_ok h, bind_of_ok (s := s.quiet) h]
      simp [quiet, offers]

theorem quiet_notes (es : List Event) : (notes es : Script ρ Unit).quiet = pure () := by
  rw [quiet, offers_notes]
  rfl

theorem quiet_forM (f : α → Script ρ Unit) (l : List α) :
    (forM l f).quiet = forM l fun x => (f x).quiet := by
  induction l with
  | nil => rfl
  | cons x l ih => rw [List.forM_cons, quiet_bind, ih, List.forM_cons]

end Script

end CodeNav
