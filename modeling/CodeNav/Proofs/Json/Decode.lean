import CodeNav.Json.Decode
import CodeNav.Proofs.Json.Parse
import Mathlib.Data.List.Nodup

/-!
# Structures, written and decoded

A structure is decoded from an object if each field that is there passes its check and the structure
can be made of the fields (`Shape.Accepts`). That is shown along the way in which a shape is put
together. A field that is null may also be missing; `withoutNulls` leaves such fields out of a
document.
-/

namespace CodeNav.Json

variable {α β : Type} {v : Json} {drop : String → Bool} {fields : List (String × Json)}
  {name : String} {get : String → Option Json}

/-! ## Values -/

theorem decodeWord_ofNat (n : UInt32) : decodeWord (ofNat n.toNat) = .ok n := by
  rw [decodeWord, ofNat, decodeNat, if_pos n.toNat_lt]
  show Except.ok (UInt32.ofNat n.toNat) = _
  rw [UInt32.ofNat_toNat]

theorem plain_word (n : UInt32) : Plain (ofNat n.toNat) :=
  .ofNat (Nat.lt_trans n.toNat_lt (by decide))

theorem decodeItems_map {encode : α → Json} {decode : Json → Except Fault α}
    (h : ∀ a, decode (encode a) = .ok a) (as : List α) :
    decodeItems decode (as.map encode) = .ok as := by
  induction as with
  | nil => rfl
  | cons a as ih =>
      rw [List.map_cons, decodeItems, h, ih]
      rfl

theorem areSound_map {encode : α → Json} {depth : Nat} (h : ∀ a, isSound depth (encode a) = true)
    (as : List α) : areSound depth (as.map encode) = true := by
  induction as with
  | nil => rfl
  | cons a as ih => rw [List.map_cons, areSound, h, ih, Bool.and_self]

theorem plain_ofOption {encode : α → Json} (h : ∀ a, Plain (encode a)) (o : Option α) :
    Plain (ofOption encode o) := by
  cases o with
  | none => exact .null
  | some a => exact h a

theorem isSound_ofOption {encode : α → Json} {depth : Nat}
    (h : ∀ a, (encode a).isSound depth = true) (o : Option α) :
    (ofOption encode o).isSound depth = true := by
  cases o with
  | none => rfl
  | some a => exact h a

/-! ## Fields left out -/

def isNull : Json → Bool
  | null => true
  | _ => false

/-- A document without those of its fields that are null and that `drop` names. -/
def withoutNulls (drop : String → Bool) : Json → Json
  | object fields complete =>
    object (fields.filter fun f => !(f.2.isNull && f.1.any drop)) complete
  | j => j

def kept (drop : String → Bool) (fields : List (String × Json)) : List (String × Json) :=
  fields.filter fun f => !(f.2.isNull && drop f.1)

theorem withoutNulls_ofFields (drop : String → Bool) (fields : List (String × Json)) :
    (ofFields fields).withoutNulls drop = ofFields (kept drop fields) := by
  rw [ofFields, withoutNulls, List.filter_map, ofFields, kept]
  rfl

theorem withoutNulls_none (v : Json) : v.withoutNulls (fun _ => false) = v := by
  cases v with
  | object fields complete =>
      rw [withoutNulls, List.filter_eq_self.mpr]
      intro f _
      cases f.1 <;> simp
  | _ => rfl

theorem Plain.withoutNulls (h : Plain v) (drop : String → Bool) : Plain (v.withoutNulls drop) := by
  cases h with
  | ofFields h =>
      rw [withoutNulls_ofFields]
      exact .ofFields fun f hf => h f (List.mem_of_mem_filter hf)
  | null => exact .null
  | bool b => exact .bool b
  | ofNat h => exact .ofNat h
  | string s => exact .string s
  | ofItems h => exact .ofItems h

/-- A look-up gives a field, unless the field is null and left out. -/
def Gives (get : String → Option Json) (name : String) (v : Json) : Prop :=
  get name = some v ∨ v.isNull = true ∧ get name = none

def fieldOf (fields : List (String × Json)) (name : String) : Option Json :=
  (keyed fields).lookup (some name)

theorem fieldOf_cons (f : String × Json) (fields : List (String × Json)) (name : String) :
    fieldOf (f :: fields) name = if name = f.1 then some f.2 else fieldOf fields name := by
  rw [fieldOf, keyed, List.map_cons, List.lookup_cons]
  by_cases h : name = f.1
  · simp [h]
  · have hne : (some name == some f.1) = false := by simpa using h
    rw [hne, if_neg h]
    rfl

theorem fieldOf_eq_none (h : name ∉ fields.map (·.1)) : fieldOf fields name = none := by
  induction fields with
  | nil => rfl
  | cons f fields ih =>
      rw [List.map_cons, List.mem_cons, not_or] at h
      rw [fieldOf_cons, if_neg h.1, ih h.2]

theorem fieldOf_of_mem (hnodup : (fields.map (·.1)).Nodup) {f : String × Json} (hf : f ∈ fields) :
    fieldOf fields f.1 = some f.2 := by
  induction fields with
  | nil => exact absurd hf List.not_mem_nil
  | cons g fields ih =>
      rw [List.map_cons, List.nodup_cons] at hnodup
      rw [fieldOf_cons]
      rcases List.mem_cons.mp hf with rfl | hf
      · rw [if_pos rfl]
      · have hne : f.1 ≠ g.1 :=
          ne_of_mem_of_not_mem (List.mem_map_of_mem (f := (·.1)) hf) hnodup.1
        rw [if_neg hne, ih hnodup.2 hf]

theorem kept_sublist (drop : String → Bool) (fields : List (String × Json)) :
    ((kept drop fields).map (·.1)).Sublist (fields.map (·.1)) :=
  List.filter_sublist.map _

theorem gives_fieldOf (hnodup : (fields.map (·.1)).Nodup) {f : String × Json} (hf : f ∈ fields) :
    Gives (fieldOf (kept drop fields)) f.1 f.2 := by
  by_cases hkept : f ∈ kept drop fields
  · exact Or.inl (fieldOf_of_mem (hnodup.sublist (kept_sublist drop fields)) hkept)
  · have hnull : f.2.isNull = true := by
      rw [kept, List.mem_filter, not_and] at hkept
      have hdropped := hkept hf
      rw [Bool.not_eq_true, Bool.not_eq_false', Bool.and_eq_true] at hdropped
      exact hdropped.1
    refine Or.inr ⟨hnull, fieldOf_eq_none fun hmem => hkept ?_⟩
    -- another field of that name would be the same one
    obtain ⟨g, hg, hkey⟩ := List.mem_map.mp hmem
    rwa [← List.inj_on_of_nodup_map hnodup (List.mem_of_mem_filter hg) hf hkey]

/-! ## Shapes -/

namespace Shape

variable {s : Shape α} {a : α}

/-- A structure can be made of fields, and those that are there are as they have to be. -/
def Accepts (s : Shape α) (get : String → Option Json) (a : α) : Prop :=
  (∀ f ∈ s.fields, ∀ v, get f.1 = some v → f.2 v = .ok ()) ∧ s.build get = .ok a

theorem Accepts.seq {g : Shape (α → β)} {h : α → β} (hg : g.Accepts get h)
    (hs : s.Accepts get a) : (g <*> s).Accepts get (h a) := by
  constructor
  · intro f hf v hv
    rcases List.mem_append.mp hf with hf | hf
    · exact hg.1 f hf v hv
    · exact hs.1 f hf v hv
  · show (do return (← g.build get) (← s.build get)) = _
    rw [hg.2, hs.2]
    rfl

theorem Accepts.map (h : s.Accepts get a) (g : α → β) : (g <$> s).Accepts get (g a) :=
  Accepts.seq ⟨fun _ hf => absurd hf List.not_mem_nil, rfl⟩ h

theorem accepts_field {decode : Json → Except Fault α} {absent : Except Fault α}
    (hget : get name = some v) (hdecode : decode v = .ok a) :
    (field name decode absent).Accepts get a := by
  constructor
  · intro f hf w hw
    obtain rfl := List.mem_singleton.mp hf
    obtain rfl := Option.some.inj (hget.symm.trans hw)
    show (decode v).map _ = _
    rw [hdecode]
    rfl
  · show (get name).elim _ decode = _
    rw [hget, Option.elim_some, hdecode]

theorem accepts_absent {decode : Json → Except Fault α} (hget : get name = none) :
    (field name decode (.ok a)).Accepts get a := by
  constructor
  · intro f hf w hw
    obtain rfl := List.mem_singleton.mp hf
    rw [hget] at hw
    cases hw
  · show (get name).elim _ decode = _
    rw [hget, Option.elim_none]

theorem accepts_required {decode : Json → Except Fault α} (hget : Gives get name v)
    (hnull : v.isNull = false) (hdecode : decode v = .ok a) :
    (required name decode).Accepts get a := by
  rcases hget with hv | ⟨hv, -⟩
  · exact accepts_field hv hdecode
  · rw [hnull] at hv
    cases hv

theorem accepts_optional {encode : α → Json} {decode : Json → Except Fault α} {o : Option α}
    (hget : Gives get name (ofOption encode o)) (hnull : ∀ a, (encode a).isNull = false)
    (hdecode : ∀ a, decode (encode a) = .ok a) : (optional name decode).Accepts get o := by
  cases o with
  | none =>
      rcases hget with hv | ⟨-, hnone⟩
      · exact accepts_field hv rfl
      · exact accepts_absent hnone
  | some a =>
      have ha := hnull a
      rcases hget with hv | ⟨hv, -⟩
      · refine accepts_field hv ?_
        rw [ofOption, decodeOption, hdecode]
        · rfl
        · intro heq
          rw [heq] at ha
          cases ha
      · rw [ofOption, ha] at hv
        cases hv

/-! ## Objects -/

theorem checkFields_keyed {seen : List String}
    (hkeys : ∀ f ∈ fields, f.1 ∈ s.fields.map (·.1) ∧ f.1 ∉ seen)
    (hnodup : (fields.map (·.1)).Nodup)
    (hcheck : ∀ f ∈ fields, ∀ check, (f.1, check) ∈ s.fields → check f.2 = .ok ()) :
    s.checkFields seen (keyed fields) = .ok () := by
  induction fields generalizing seen with
  | nil => rfl
  | cons f fields ih =>
      obtain ⟨key, v⟩ := f
      rw [List.map_cons, List.nodup_cons] at hnodup
      obtain ⟨⟨hkey, hseen⟩, hkeys⟩ := List.forall_mem_cons.mp hkeys
      obtain ⟨hv, hcheck⟩ := List.forall_mem_cons.mp hcheck
      show s.checkFields seen ((some key, v) :: keyed fields) = _
      cases hlookup : s.fields.lookup key with
      | none =>
          obtain ⟨g, hg, rfl⟩ := List.mem_map.mp hkey
          have hne := List.lookup_eq_none_iff.mp hlookup g hg
          simp at hne
      | some check =>
          have hmem : (key, check) ∈ s.fields := by
            obtain ⟨l, r, hsplit, -⟩ := List.lookup_eq_some_iff.mp hlookup
            rw [hsplit]
            exact List.mem_append_right _ List.mem_cons_self
          rw [checkFields, hlookup]
          simp only
          rw [if_neg hseen, hv check hmem]
          show s.checkFields (key :: seen) (keyed fields) = _
          refine ih (fun f hf => ⟨(hkeys f hf).1, ?_⟩) hnodup.2 hcheck
          rw [List.mem_cons, not_or]
          have hne : f.1 ≠ key :=
            ne_of_mem_of_not_mem (List.mem_map_of_mem (f := (·.1)) hf) hnodup.1
          exact ⟨hne, (hkeys f hf).2⟩

/-- **Decoding an object.** Its fields are some of the fields of the shape. -/
theorem decode_ofFields (mode : Mode) (expected : String)
    (hnodup : (s.fields.map (·.1)).Nodup)
    (hsub : (fields.map (·.1)).Sublist (s.fields.map (·.1)))
    (haccepts : s.Accepts (fieldOf fields) a) :
    s.decode mode expected (ofFields fields) = .ok a := by
  have hfields := hnodup.sublist hsub
  have hcheck : s.checkFields [] (keyed fields) = .ok () := by
    refine checkFields_keyed (fun f hf => ⟨?_, List.not_mem_nil⟩) hfields fun f hf check hmem => ?_
    · exact hsub.subset (List.mem_map_of_mem hf)
    · exact haccepts.1 (f.1, check) hmem f.2 (fieldOf_of_mem hfields hf)
  show (s.checkFields [] (keyed fields) >>= fun _ => s.build (fieldOf fields)) = _
  rw [hcheck]
  exact haccepts.2

/-- A structure is decoded from its fields, whether those that are null are there or not. -/
theorem decode_kept {mode : Mode} {expected : String}
    (hnames : s.fields.map (·.1) = fields.map (·.1)) (hnodup : (fields.map (·.1)).Nodup)
    (haccepts : ∀ get, (∀ f ∈ fields, Gives get f.1 f.2) → s.Accepts get a) :
    s.decode mode expected (ofFields (kept drop fields)) = .ok a := by
  refine decode_ofFields mode expected (hnames ▸ hnodup) (hnames ▸ kept_sublist drop fields) ?_
  exact haccepts _ fun f hf => gives_fieldOf hnodup hf

end Shape

/-! ## Tags -/

/-- The tag of an object that begins with it decides how its other fields are decoded. -/
theorem decodeTagged_ofFields {tag : String} {names : List String} (expected : String)
    (body : String → Json → Except Fault α) (hname : name ∈ names)
    (htag : tag ∉ fields.map (·.1)) (hsound : ∀ f ∈ fields, f.2.isSound (depthLimit - 1) = true) :
    decodeTagged tag expected names body (ofFields ((tag, string name) :: fields)) =
      body name (ofFields fields) := by
  have hothers : splitTag tag names true (some name) (keyed fields) = .ok (name, keyed fields) := by
    induction fields with
    | nil => rfl
    | cons f fields ih =>
        obtain ⟨key, v⟩ := f
        rw [List.map_cons, List.mem_cons, not_or] at htag
        obtain ⟨hv, hsound⟩ := List.forall_mem_cons.mp hsound
        show splitTag tag names true (some name) ((some key, v) :: keyed fields) = _
        rw [splitTag, if_neg (Ne.symm htag.1), if_pos hv, ih htag.2 hsound]
        rfl
  have hsplit : splitTag tag names true none ((some tag, string name) :: keyed fields) =
      .ok (name, keyed fields) := by
    rw [splitTag, if_pos rfl, decodeVariant, checkVariant, if_pos hname]
    exact hothers
  show (splitTag tag names true none ((some tag, string name) :: keyed fields) >>= fun p =>
    body p.1 (object p.2 true)) = _
  rw [hsplit]
  rfl

theorem decodeTagged_withoutNulls {tag : String} {names : List String} {expected : String}
    {body : String → Json → Except Fault α} (drop : String → Bool) (hname : name ∈ names)
    (htag : tag ∉ fields.map (·.1)) (hsound : ∀ f ∈ fields, f.2.isSound (depthLimit - 1) = true) :
    decodeTagged tag expected names body
        ((ofFields ((tag, string name) :: fields)).withoutNulls drop) =
      body name (ofFields (kept drop fields)) := by
  have hkept : kept drop ((tag, string name) :: fields) = (tag, string name) :: kept drop fields :=
    rfl
  rw [withoutNulls_ofFields, hkept]
  refine decodeTagged_ofFields expected body hname ?_ fun f hf => hsound f (List.mem_of_mem_filter hf)
  exact fun hmem => htag ((kept_sublist drop fields).subset hmem)

/-! ## Texts -/

theorem decodeText_text {decode : Json → Except Fault α} {a : α} (hplain : Plain v)
    (hdecode : decode v = .ok a) : decodeText decode v.text = .ok a := by
  rw [decodeText, text, String.toList_ofList, read_print hplain]
  show decode v >>= _ = _
  rw [hdecode]
  rfl

end CodeNav.Json
