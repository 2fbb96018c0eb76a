import CodeNav.Json.Quoted
import Mathlib.Data.List.Flatten

/-!
# String literals, written and read

Reading a literal undoes writing it, for every text (`readQuoted_quote`). A character is written as
one unit (`unitOf`), and units are joined without regard to one another as long as none of them is a
half of a pair. A literal holds no character below a blank, so it never breaks a line
(`newline_notMem_quote`).
-/

namespace CodeNav.Json

/-! ## Units -/

/-- A control character without a short escape. -/
def isRawControl (c : Char) : Bool :=
  c.toNat < 0x20 && c ≠ '\n' && c ≠ '\r' && c ≠ '\t' && c ≠ '\x08' && c ≠ '\x0c'

/-- The unit that a character is written as. -/
def unitOf (c : Char) : LiteralUnit := if isRawControl c then .hex c.toNat else .plain c

theorem hexValue4?_hexDigit {n : Nat} (h : n < 0x20) :
    hexValue4? '0' '0' (hexDigit (n / 16)) (hexDigit (n % 16)) = some n := by
  revert n
  decide +kernel

/-- The three ways to write a character: by a short escape, by its number, or as it is. -/
theorem escapeChar_cases (c : Char) :
    (∃ e, escapeChar c = ['\\', e] ∧ e ≠ 'u' ∧ shortEscape? e = some c ∧ unitOf c = .plain c) ∨
      (c.toNat < 0x20 ∧ unitOf c = .hex c.toNat ∧
        escapeChar c =
          ['\\', 'u', '0', '0', hexDigit (c.toNat / 16), hexDigit (c.toNat % 16)]) ∨
      (¬c.toNat < 0x20 ∧ c ≠ '"' ∧ c ≠ '\\' ∧ escapeChar c = [c] ∧ unitOf c = .plain c) := by
  unfold escapeChar
  split
  · exact Or.inl ⟨'"', rfl, by decide, rfl, rfl⟩
  · exact Or.inl ⟨'\\', rfl, by decide, rfl, rfl⟩
  · exact Or.inl ⟨'n', rfl, by decide, rfl, rfl⟩
  · exact Or.inl ⟨'r', rfl, by decide, rfl, rfl⟩
  · exact Or.inl ⟨'t', rfl, by decide, rfl, rfl⟩
  · exact Or.inl ⟨'b', rfl, by decide, rfl, rfl⟩
  · exact Or.inl ⟨'f', rfl, by decide, rfl, rfl⟩
  · rename_i hquote hslash hn hr ht hb hf
    right
    by_cases hc : c.toNat < 0x20
    · left
      have hraw : isRawControl c = true := by
        simp only [isRawControl, Bool.and_eq_true, decide_eq_true_eq]
        exact ⟨⟨⟨⟨⟨hc, hn⟩, hr⟩, ht⟩, hb⟩, hf⟩
      exact ⟨hc, by rw [unitOf, if_pos hraw], by rw [if_pos hc]⟩
    · right
      have hraw : isRawControl c = false := by simp [isRawControl, hc]
      refine ⟨hc, hquote, hslash, by rw [if_neg hc], ?_⟩
      simp [unitOf, hraw]

theorem literalUnits_escapeChar (c : Char) (rest : List Char) :
    literalUnits (escapeChar c ++ rest) =
      (literalUnits rest).map fun (units, rest) => (unitOf c :: units, rest) := by
  rcases escapeChar_cases c with ⟨e, hc, hu, he, hunit⟩ | ⟨hlow, hunit, hc⟩ |
    ⟨hlow, hquote, hslash, hc, hunit⟩
  · rw [hc, hunit]
    show literalUnits ('\\' :: e :: rest) = _
    rw [literalUnits, he]
    · cases literalUnits rest <;> rfl
    · intro a b c d r h
      exact absurd h hu
  · rw [hc, hunit]
    show literalUnits ('\\' :: 'u' :: '0' :: '0' :: _ :: _ :: rest) = _
    rw [literalUnits, hexValue4?_hexDigit hlow]
    cases literalUnits rest <;> rfl
  · rw [hc, hunit]
    show literalUnits (c :: rest) = _
    rw [literalUnits, if_neg (by simp [hlow, hslash])]
    all_goals grind

theorem literalUnits_flatMap (cs rest : List Char) :
    literalUnits (cs.flatMap escapeChar ++ '"' :: rest) = some (cs.map unitOf, rest) := by
  induction cs with
  | nil => rfl
  | cons c cs ih =>
      rw [List.flatMap_cons, List.append_assoc, literalUnits_escapeChar, ih]
      rfl

/-! ## Joining units -/

theorem joinUnits_hex {n : Nat} (hhigh : isHighHalf n = false) (hlow : isLowHalf n = false)
    (units : List LiteralUnit) :
    joinUnits (.hex n :: units) = (joinUnits units).map (Char.ofNat n :: ·) := by
  rcases units with _ | ⟨_ | low, units⟩
  · simp [joinUnits, hhigh, hlow]
  · simp [joinUnits, hhigh, hlow]
  · rw [joinUnits]
    simp [hhigh, hlow]

theorem joinUnits_unitOf (c : Char) (units : List LiteralUnit) :
    joinUnits (unitOf c :: units) = (joinUnits units).map (c :: ·) := by
  unfold unitOf
  split
  · rename_i hraw
    have hc : c.toNat < 0x20 := by
      simp only [isRawControl, Bool.and_eq_true, decide_eq_true_eq] at hraw
      exact hraw.1.1.1.1.1
    rw [joinUnits_hex, Char.ofNat_toNat]
    · simp only [isHighHalf, Bool.and_eq_false_iff, decide_eq_false_iff_not]
      omega
    · simp only [isLowHalf, Bool.and_eq_false_iff, decide_eq_false_iff_not]
      omega
  · rfl

theorem joinUnits_map (cs : List Char) : joinUnits (cs.map unitOf) = some cs := by
  induction cs with
  | nil => rfl
  | cons c cs ih => rw [List.map_cons, joinUnits_unitOf, ih, Option.map_some]

/-! ## Literals -/

/-- **Reading a literal undoes writing it.** -/
theorem readQuoted_quote (s : String) (rest : List Char) :
    readQuoted (s.toList.flatMap escapeChar ++ '"' :: rest) = some (some s, rest) := by
  rw [readQuoted, literalUnits_flatMap]
  show some ((joinUnits (s.toList.map unitOf)).map String.ofList, rest) = _
  rw [joinUnits_map, Option.map_some, String.ofList_toList]

theorem newline_notMem_quote (cs : List Char) : '\n' ∉ quote cs := by
  have hchar : ∀ c, '\n' ∉ escapeChar c := by
    intro c
    rcases escapeChar_cases c with ⟨e, hc, hu, he, -⟩ | ⟨hlow, -, hc⟩ | ⟨hlow, -, -, hc, -⟩
    · have hne : '\n' ≠ e := by
        rintro rfl
        cases he
      simp [hc, hne]
    · rw [hc]
      revert hlow
      generalize c.toNat = n
      revert n
      decide +kernel
    · rw [hc, List.mem_singleton]
      rintro rfl
      exact hlow (by decide)
  rw [quote]
  simp [hchar]

end CodeNav.Json
