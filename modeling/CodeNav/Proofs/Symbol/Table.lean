import CodeNav.Symbol.Table
import Mathlib.Data.List.Induction

/-!
# Tables over time

Two calls change a table, in any order and with any arguments, and a call that is refused may be
made again later. What a table is then worth is said without it: the symbols are those of the
`define` calls, in order, and a node stands for the symbol of the last `bind` call for it that
succeeded (`LastBinds`). Both are kept by every call (`symbols_madeBy`, `bound?_madeBy_iff`), and so
is that every symbol which a node is bound to is in the table (`bound?_madeBy_lt`). Hence a node
that is bound once resolves ever after (`last_write_wins`).
-/

namespace CodeNav

namespace SymbolTable

/-! ## Calls -/

inductive Request where
  | define (b : Symbol)
  | bind (n : NodeId) (s : SymbolId)
deriving DecidableEq

namespace Request

def symbol? : Request → Option Symbol
  | define b => some b
  | bind _ _ => none

end Request

inductive Answer where
  /-- The symbol was added, under this id. -/
  | defined (s : SymbolId)
  /-- Every id is taken: the call does not return. -/
  | exhausted
  /-- The node was bound. -/
  | bound
  /-- The node was not bound. -/
  | refused (e : Fault)
deriving DecidableEq

/-- Serves a call by assignments to one table, which a refused call leaves as it is by then. -/
def serve : Request → StateM SymbolTable Answer
  | .define b => do
      let id := SymbolId.ofNat (← get).size
      unless (← get).size < idSpace do return .exhausted
      modify fun t => { t with symbols := t.symbols.push b }
      return .defined id
  | .bind n s => do
      unless s.toNat < (← get).size do return .refused (.unknownSymbol s)
      modify fun t => { t with bindings := (n, s) :: t.bindings }
      return .bound

/-- The table that calls make out of the empty one; they go on whatever the answers are. -/
def madeBy (calls : List Request) : SymbolTable :=
  calls.foldl (fun t x => ((serve x).run t).2) empty

def answer (before : List Request) (x : Request) : Answer := ((serve x).run (madeBy before)).1

/-- The symbols that calls are to add, in order. -/
def defined (calls : List Request) : List Symbol := calls.filterMap Request.symbol?

/-- `n` was bound to `s`, and no later call has bound it. -/
def LastBinds (calls : List Request) (n : NodeId) (s : SymbolId) : Prop :=
  ∃ before after, calls = before ++ .bind n s :: after ∧ answer before (.bind n s) = .bound ∧
    ∀ more s' rest, after = more ++ .bind n s' :: rest →
      answer (before ++ .bind n s :: more) (.bind n s') ≠ .bound

variable {t : SymbolTable} {calls more : List Request} {x : Request} {n : NodeId} {s : SymbolId}
  {b : Symbol}

theorem madeBy_concat (calls : List Request) (x : Request) :
    madeBy (calls ++ [x]) = ((serve x).run (madeBy calls)).2 := by
  simp [madeBy]

/-! ## One call -/

theorem run_serve_define (t : SymbolTable) (b : Symbol) :
    (serve (.define b)).run t =
      match t.define? b with
      | some (s, u) => (.defined s, u)
      | none => (.exhausted, t) := by
  by_cases h : t.size < idSpace
  · simp [serve, h, define?, -bind_pure_comp]
    rfl
  · simp [serve, h, define?, -bind_pure_comp]
    rfl

theorem run_serve_bind (t : SymbolTable) (n : NodeId) (s : SymbolId) :
    (serve (.bind n s)).run t =
      match t.bind n s with
      | .ok u => (.bound, u)
      | .error e => (.refused e, t) := by
  by_cases h : s.toNat < t.size
  · simp [serve, h, SymbolTable.bind, -bind_pure_comp]
    rfl
  · simp [serve, h, SymbolTable.bind, -bind_pure_comp]
    rfl

theorem serve_cases (t : SymbolTable) (x : Request) :
    (∃ b, x = .define b ∧ t.size < idSpace ∧
      (serve x).run t = (.defined (.ofNat t.size), { t with symbols := t.symbols.push b })) ∨
    (∃ b, x = .define b ∧ idSpace ≤ t.size ∧ (serve x).run t = (.exhausted, t)) ∨
    (∃ n s, x = .bind n s ∧ s.toNat < t.size ∧
      (serve x).run t = (.bound, { t with bindings := (n, s) :: t.bindings })) ∨
    (∃ n s, x = .bind n s ∧ t.size ≤ s.toNat ∧
      (serve x).run t = (.refused (.unknownSymbol s), t)) := by
  cases x with
  | define b =>
      rw [run_serve_define, define?]
      by_cases h : t.size < idSpace
      · exact Or.inl ⟨b, rfl, h, by rw [if_pos h]⟩
      · exact Or.inr (Or.inl ⟨b, rfl, Nat.le_of_not_lt h, by rw [if_neg h]⟩)
  | bind n s =>
      rw [run_serve_bind, SymbolTable.bind]
      by_cases h : s.toNat < t.size
      · exact Or.inr (Or.inr (Or.inl ⟨n, s, rfl, h, by rw [if_pos h]⟩))
      · exact Or.inr (Or.inr (Or.inr ⟨n, s, rfl, Nat.le_of_not_lt h, by rw [if_neg h]⟩))

/-! ## Symbols -/

/-- **The symbols are those of the calls, in order,** as far as there are ids for them. -/
theorem symbols_madeBy (calls : List Request) :
    (madeBy calls).symbols.toList = (defined calls).take idSpace := by
  induction calls using List.reverseRecOn with
  | nil => rfl
  | append_singleton calls x ih =>
      have hsize : (madeBy calls).size = min idSpace (defined calls).length := by
        rw [size, ← Array.length_toList, ih, List.length_take]
      rw [madeBy_concat, defined, List.filterMap_append, ← defined]
      rcases serve_cases (madeBy calls) x with
        ⟨b, rfl, hlt, hserve⟩ | ⟨b, rfl, hle, hserve⟩ |
        ⟨n, s, rfl, -, hserve⟩ | ⟨n, s, rfl, -, hserve⟩
      · have hfits : (defined calls ++ [b]).length ≤ idSpace := by
          rw [List.length_append, List.length_singleton]
          omega
        rw [hserve, Array.toList_push, ih, List.take_of_length_le (by omega)]
        exact (List.take_of_length_le hfits).symm
      · rw [hserve, ih, List.take_append_of_le_length (by omega)]
      · rw [hserve]
        exact ih.trans (congrArg _ (List.append_nil (defined calls)).symm)
      · rw [hserve]
        exact ih.trans (congrArg _ (List.append_nil (defined calls)).symm)

theorem size_madeBy (calls : List Request) :
    (madeBy calls).size = min idSpace (defined calls).length := by
  rw [size, ← Array.length_toList, symbols_madeBy, List.length_take]

theorem symbol?_madeBy (calls : List Request) (s : SymbolId) :
    (madeBy calls).symbol? s = (defined calls)[s.toNat]? := by
  rw [symbol?, ← Array.getElem?_toList, symbols_madeBy, List.getElem?_take_of_lt s.toNat_lt]

theorem symbol?_madeBy_append (h : (madeBy calls).symbol? s = some b) (more : List Request) :
    (madeBy (calls ++ more)).symbol? s = some b := by
  rw [symbol?_madeBy] at h ⊢
  rw [defined, List.filterMap_append, ← defined]
  obtain ⟨hlt, -⟩ := List.getElem?_eq_some_iff.mp h
  rw [List.getElem?_append_left hlt, h]

/-! ## Bindings -/

theorem concat_eq_append_cons_iff {α : Type} {l before after : List α} {x y : α} :
    l ++ [x] = before ++ y :: after ↔
      (after = [] ∧ before = l ∧ y = x) ∨
        ∃ rest, after = rest ++ [x] ∧ l = before ++ y :: rest := by
  constructor
  · intro h
    rcases List.eq_nil_or_concat after with rfl | ⟨rest, z, rfl⟩
    · obtain ⟨rfl, hx⟩ := List.append_inj' h rfl
      exact Or.inl ⟨rfl, rfl, (List.singleton_inj.mp hx).symm⟩
    · rw [List.concat_eq_append, ← List.cons_append, ← List.append_assoc] at h
      obtain ⟨rfl, hx⟩ := List.append_inj' h rfl
      exact Or.inr ⟨rest, by rw [List.concat_eq_append, List.singleton_inj.mp hx], rfl⟩
  · rintro (⟨rfl, rfl, rfl⟩ | ⟨rest, rfl, rfl⟩)
    · rfl
    · rw [List.append_assoc, List.cons_append]

/-- **A node is bound by the last call for it that succeeded.** One more call decides if it is a
call for the node and succeeds; otherwise the calls before it do. -/
theorem lastBinds_concat_iff :
    LastBinds (calls ++ [x]) n s ↔
      (x = .bind n s ∧ answer calls x = .bound) ∨
        LastBinds calls n s ∧ ∀ s', x = .bind n s' → answer calls x ≠ .bound := by
  constructor
  · rintro ⟨before, after, heq, hbound, hlast⟩
    rcases concat_eq_append_cons_iff.mp heq with ⟨rfl, rfl, rfl⟩ | ⟨after, rfl, rfl⟩
    · exact Or.inl ⟨rfl, hbound⟩
    · refine Or.inr ⟨⟨before, after, rfl, hbound, ?_⟩, ?_⟩
      · rintro more s' rest rfl
        exact hlast more s' (rest ++ [x]) (by simp)
      · rintro s' rfl
        exact hlast after s' [] rfl
  · rintro (⟨rfl, hbound⟩ | ⟨⟨before, after, rfl, hbound, hlast⟩, hx⟩)
    · exact ⟨calls, [], rfl, hbound, by simp⟩
    · refine ⟨before, after ++ [x], by simp, hbound, ?_⟩
      intro more s' rest heq
      rcases concat_eq_append_cons_iff.mp heq with ⟨-, rfl, rfl⟩ | ⟨rest, -, rfl⟩
      · exact hx s' rfl
      · exact hlast more s' rest rfl

theorem bound?_madeBy_iff : (madeBy calls).bound? n = some s ↔ LastBinds calls n s := by
  induction calls using List.reverseRecOn with
  | nil => simp [LastBinds, madeBy, empty, bound?]
  | append_singleton calls x ih =>
      rw [lastBinds_concat_iff, ← ih, madeBy_concat, answer]
      rcases serve_cases (madeBy calls) x with
        ⟨b, rfl, -, hserve⟩ | ⟨b, rfl, -, hserve⟩ |
        ⟨m, s', rfl, -, hserve⟩ | ⟨m, s', rfl, -, hserve⟩
      · simp [hserve, bound?]
      · simp [hserve]
      · rw [hserve, bound?_cons]
        by_cases hm : n = m
        · simp [hm]
        · simp [hm, Ne.symm hm]
      · simp [hserve]

/-- **Every symbol that a node is bound to is in the table.** -/
theorem bound?_madeBy_lt (h : (madeBy calls).bound? n = some s) :
    s.toNat < (madeBy calls).size := by
  induction calls using List.reverseRecOn with
  | nil => simp [madeBy, empty, bound?] at h
  | append_singleton calls x ih =>
      rw [madeBy_concat] at h ⊢
      rcases serve_cases (madeBy calls) x with
        ⟨b, rfl, -, hserve⟩ | ⟨b, rfl, -, hserve⟩ |
        ⟨m, s', rfl, hlt, hserve⟩ | ⟨m, s', rfl, -, hserve⟩
      · rw [hserve] at h ⊢
        have := ih h
        rw [size, Array.size_push]
        exact Nat.lt_succ_of_lt this
      · rw [hserve] at h ⊢
        exact ih h
      · rw [hserve] at h ⊢
        rw [bound?_cons] at h
        split at h
        · obtain rfl := Option.some.inj h
          exact hlt
        · exact ih h
      · rw [hserve] at h ⊢
        exact ih h

theorem exists_lastBinds (before after : List Request)
    (hbound : answer before (.bind n s) = .bound) :
    ∃ s', LastBinds (before ++ .bind n s :: after) n s' := by
  induction after using List.reverseRecOn with
  | nil => exact ⟨s, before, [], rfl, hbound, by simp⟩
  | append_singleton after x ih =>
      rw [← List.cons_append, ← List.append_assoc]
      by_cases hx : ∃ s', x = .bind n s' ∧ answer (before ++ .bind n s :: after) x = .bound
      · obtain ⟨s', hs'⟩ := hx
        exact ⟨s', lastBinds_concat_iff.mpr (Or.inl hs')⟩
      · obtain ⟨s', hs'⟩ := ih
        refine ⟨s', lastBinds_concat_iff.mpr (Or.inr ⟨hs', ?_⟩)⟩
        exact fun s'' hbind hanswer => hx ⟨s'', hbind, hanswer⟩

theorem bound?_madeBy_eq_none_iff :
    (madeBy calls).bound? n = none ↔
      ∀ before s after, calls = before ++ .bind n s :: after →
        answer before (.bind n s) ≠ .bound := by
  constructor
  · rintro hnone before s after rfl hbound
    obtain ⟨s', hs'⟩ := exists_lastBinds before after hbound
    rw [bound?_madeBy_iff.mpr hs'] at hnone
    cases hnone
  · intro hnever
    cases hbound : (madeBy calls).bound? n with
    | none => rfl
    | some s =>
        obtain ⟨before, after, rfl, hsuccess, -⟩ := bound?_madeBy_iff.mp hbound
        exact absurd hsuccess (hnever before s after rfl)

/-! ## Resolution -/

/-- A node that is bound stands for a symbol, for it is bound to one of the table. -/
theorem resolve?_madeBy_eq_none_iff :
    (madeBy calls).resolve? n = none ↔ (madeBy calls).bound? n = none := by
  cases hbound : (madeBy calls).bound? n with
  | none => simp [resolve?, hbound]
  | some s =>
      have hlt := bound?_madeBy_lt hbound
      have hsome : (madeBy calls).symbol? s ≠ none := by
        rw [Ne, symbol?_eq_none_iff]
        exact Nat.not_le_of_lt hlt
      simpa [resolve?, hbound] using hsome

theorem resolve?_madeBy_eq_some_iff :
    (madeBy calls).resolve? n = some (s, b) ↔
      LastBinds calls n s ∧ (madeBy calls).symbol? s = some b := by
  rw [resolve?, Option.bind_eq_some_iff, ← bound?_madeBy_iff]
  constructor
  · rintro ⟨s', hbound, h⟩
    obtain ⟨b', hsymbol, heq⟩ := Option.map_eq_some_iff.mp h
    cases heq
    exact ⟨hbound, hsymbol⟩
  · rintro ⟨hbound, hsymbol⟩
    exact ⟨s, hbound, by rw [hsymbol, Option.map_some]⟩

theorem isSome_resolve?_madeBy_append (h : (madeBy calls).resolve? n ≠ none)
    (more : List Request) : ((madeBy (calls ++ more)).resolve? n).isSome = true := by
  rw [Option.isSome_iff_ne_none]
  contrapose! h
  rw [resolve?_madeBy_eq_none_iff, bound?_madeBy_eq_none_iff] at h ⊢
  rintro before s after rfl
  exact h before s (after ++ more) (by simp)

/-! ## The answers -/

/-- The `k`-th call that is to add a symbol adds it under the id `k`, if that is an id. -/
theorem answer_define (calls : List Request) (b : Symbol) :
    if (defined calls).length < idSpace then
      ∃ s, answer calls (.define b) = .defined s ∧ s.toNat = (defined calls).length ∧
        (madeBy (calls ++ [.define b])).symbol? s = some b
    else answer calls (.define b) = .exhausted ∧ madeBy (calls ++ [.define b]) = madeBy calls := by
  have hsize := size_madeBy calls
  have hserve := run_serve_define (madeBy calls) b
  rw [define?] at hserve
  split
  · rename_i hlt
    have hid : (SymbolId.ofNat (madeBy calls).size).toNat = (defined calls).length := by
      rw [SymbolId.toNat_ofNat (by omega), hsize, Nat.min_eq_right (Nat.le_of_lt hlt)]
    rw [if_pos (by omega)] at hserve
    refine ⟨.ofNat (madeBy calls).size, congrArg Prod.fst hserve, hid, ?_⟩
    rw [symbol?_madeBy, hid, defined, List.filterMap_append, ← defined]
    simp [Request.symbol?]
  · rw [if_neg (by omega)] at hserve
    exact ⟨congrArg Prod.fst hserve, (madeBy_concat _ _).trans (congrArg Prod.snd hserve)⟩

/-- A call that is to bind a node is refused if its symbol is still to come, and then it changes
nothing. -/
theorem answer_bind (calls : List Request) (n : NodeId) (s : SymbolId) :
    if (defined calls).length < s.toNat + 1 then
      answer calls (.bind n s) = .refused (.unknownSymbol s) ∧
        madeBy (calls ++ [.bind n s]) = madeBy calls
    else answer calls (.bind n s) = .bound := by
  have hs := s.toNat_lt
  have hsize := size_madeBy calls
  have hserve := run_serve_bind (madeBy calls) n s
  split
  · rw [SymbolTable.bind, if_neg (by omega)] at hserve
    exact ⟨congrArg Prod.fst hserve, (madeBy_concat _ _).trans (congrArg Prod.snd hserve)⟩
  · rw [SymbolTable.bind, if_pos (by omega)] at hserve
    exact congrArg Prod.fst hserve

/-! ## The theorem -/

/-- **The last write wins, and no symbol is lost.** Whatever calls are made to a table, with
whatever arguments: the `k`-th call to `define`, counted from zero, returns the id `k`, as long as
there is an id, and from then on that id finds its symbol. A call to `bind` is refused if and only
if fewer symbols are defined by then than its id asks for, and a call that is refused changes
nothing. A node resolves to nothing if and only if no call for it has succeeded, and otherwise to
the symbol of the last one that has; so a node that resolves does so ever after. All of this is said
of assignments to one table, and these do what `define?` and `bind` do with tables as values. -/
theorem last_write_wins (calls : List Request) :
    (∀ b, if (defined calls).length < idSpace then
        ∃ s, answer calls (.define b) = .defined s ∧ s.toNat = (defined calls).length ∧
          ∀ after, (madeBy (calls ++ .define b :: after)).symbol? s = some b
      else answer calls (.define b) = .exhausted ∧ madeBy (calls ++ [.define b]) = madeBy calls) ∧
    (∀ n s, (answer calls (.bind n s) = .refused (.unknownSymbol s) ↔
        (defined calls).length < s.toNat + 1) ∧
      (answer calls (.bind n s) ≠ .bound →
        answer calls (.bind n s) = .refused (.unknownSymbol s) ∧
          madeBy (calls ++ [.bind n s]) = madeBy calls)) ∧
    (madeBy calls).size = min idSpace (defined calls).length ∧
    (∀ n, (madeBy calls).resolve? n = none ↔
      ∀ before s after, calls = before ++ .bind n s :: after →
        answer before (.bind n s) ≠ .bound) ∧
    (∀ n s b, (madeBy calls).resolve? n = some (s, b) ↔
      LastBinds calls n s ∧ (madeBy calls).symbol? s = some b) ∧
    (∀ n, (madeBy calls).resolve? n ≠ none →
      ∀ more, ((madeBy (calls ++ more)).resolve? n).isSome = true) ∧
    ∀ t : SymbolTable,
      (∀ b, (serve (.define b)).run t =
          (match t.define? b with
          | some (s, u) => (.defined s, u)
          | none => (.exhausted, t)) ∧
        t.define? b = if t.size < idSpace then some (t.define b) else none) ∧
      ∀ n s, (serve (.bind n s)).run t =
        match t.bind n s with
        | .ok u => (.bound, u)
        | .error e => (.refused e, t) := by
  refine ⟨?_, ?_, size_madeBy calls, ?_, fun n s b => resolve?_madeBy_eq_some_iff,
    fun n h more => isSome_resolve?_madeBy_append h more, fun t => ⟨fun b => ?_, run_serve_bind t⟩⟩
  · intro b
    have hanswer := answer_define calls b
    split
    · rename_i hlt
      rw [if_pos hlt] at hanswer
      obtain ⟨s, hs, hid, hsymbol⟩ := hanswer
      refine ⟨s, hs, hid, fun after => ?_⟩
      have hstays := symbol?_madeBy_append hsymbol after
      rwa [List.append_assoc, List.singleton_append] at hstays
    · rename_i hge
      rwa [if_neg hge] at hanswer
  · intro n s
    have hanswer := answer_bind calls n s
    split at hanswer
    · rename_i hlt
      exact ⟨iff_of_true hanswer.1 hlt, fun _ => hanswer⟩
    · rename_i hge
      exact ⟨iff_of_false (by simp [hanswer]) hge, fun h => absurd hanswer h⟩
  · intro n
    rw [resolve?_madeBy_eq_none_iff, bound?_madeBy_eq_none_iff]
  · exact ⟨run_serve_define t b, define?_eq t b⟩

/-- Calls of which some come too early: node `1` is bound at the second attempt, a third one fails,
and a fourth one binds it anew; node `2` is never bound. -/
def earlyCalls : List Request :=
  [.bind ⟨1⟩ ⟨0⟩,
   .define (.var ⟨"x", "int", none, none⟩),
   .bind ⟨1⟩ ⟨0⟩,
   .bind ⟨1⟩ ⟨1⟩,
   .define (.var ⟨"y", "int", none, none⟩),
   .bind ⟨2⟩ ⟨2⟩,
   .bind ⟨1⟩ ⟨1⟩]

/-- The early calls for node `1` are refused and leave what is there: nothing the first time, and
its binding to `x` the second time. In the end the node stands for `y`, whatever else is added. -/
theorem earlyCalls_last_write :
    answer [] (.bind ⟨1⟩ ⟨0⟩) = .refused (.unknownSymbol ⟨0⟩) ∧
    ((madeBy (earlyCalls.take 3)).resolve? ⟨1⟩).map (·.1) = some ⟨0⟩ ∧
    madeBy (earlyCalls.take 3 ++ [.bind ⟨1⟩ ⟨1⟩]) = madeBy (earlyCalls.take 3) ∧
    LastBinds earlyCalls ⟨1⟩ ⟨1⟩ ∧
    (∀ more, ((madeBy (earlyCalls ++ more)).resolve? ⟨1⟩).isSome = true) ∧
    ∀ before s after, earlyCalls = before ++ .bind ⟨2⟩ s :: after →
      answer before (.bind ⟨2⟩ s) ≠ .bound := by
  have hresolve : (madeBy earlyCalls).resolve? ⟨1⟩ =
      some (⟨1⟩, .var ⟨"y", "int", none, none⟩) := by
    rfl
  obtain ⟨-, hbind, -⟩ := last_write_wins (earlyCalls.take 3)
  obtain ⟨-, -, -, hnone, hsome, hafter, -⟩ := last_write_wins earlyCalls
  refine ⟨rfl, rfl, ((hbind ⟨1⟩ ⟨1⟩).2 (by decide)).2, ((hsome _ _ _).mp hresolve).1, ?_, ?_⟩
  · exact hafter ⟨1⟩ (by rw [hresolve]; exact Option.some_ne_none _)
  · exact (hnone ⟨2⟩).mp rfl

end SymbolTable

end CodeNav
