import CodeNav.Json.Number
import CodeNav.Json.Print

/-!
# Integers, written and read

The digits of a number that fits 64 bits are read as that number, if nothing behind them continues a
number (`readNumber_digits`). The reader refuses a needless zero in front, and `digits` writes none
(`eq_nil_of_digits_eq`).
-/

namespace CodeNav.Json

variable {n : Nat} {cs rest : List Char}

/-! ## Digits -/

theorem isDigit_of_mem_digits {c : Char} (h : c ∈ digits n) : c.isDigit = true :=
  Nat.isDigit_of_mem_toDigits (by decide) (by decide) h

theorem digits_ne_nil (n : Nat) : digits n ≠ [] := Nat.toDigits_ne_nil

/-- A zero in front is the only digit. -/
theorem eq_nil_of_digits_eq (h : digits n = '0' :: cs) : cs = [] := by
  induction n using Nat.strongRecOn generalizing cs with
  | ind n ih =>
      rw [digits, Nat.toDigits_eq_if (by decide)] at h
      split at h
      · exact (List.cons.inj h).2.symm
      · -- the digits in front of the last one are those of a tenth, which is not zero
        rename_i hlarge
        rcases hhead : Nat.toDigits 10 (n / 10) with _ | ⟨c, cs'⟩
        · exact absurd hhead Nat.toDigits_ne_nil
        · rw [hhead, List.cons_append] at h
          obtain ⟨rfl, -⟩ := List.cons.inj h
          obtain rfl := ih (n / 10) (by omega) hhead
          have hzero : n / 10 = 0 := by
            rw [← Nat.ofDigitChars_ten_toDigits (n := n / 10), hhead]
            rfl
          omega

theorem le_ofDigitChars (cs : List Char) (n : Nat) : n ≤ Nat.ofDigitChars 10 cs n := by
  rw [Nat.ofDigitChars_eq_ofDigitChars_zero]
  have hpos : 0 < 10 ^ cs.length := Nat.pow_pos (by decide)
  have hmul : n ≤ 10 ^ cs.length * n := Nat.le_mul_of_pos_left n hpos
  omega

theorem significandOf_eq (h : Nat.ofDigitChars 10 cs n < wordSize) :
    significandOf n 0 cs = (Nat.ofDigitChars 10 cs n, 0) := by
  induction cs generalizing n with
  | nil => rfl
  | cons c cs ih =>
      rw [Nat.ofDigitChars_cons] at h ⊢
      have hstep : n * 10 + digitValue c = 10 * n + (c.toNat - '0'.toNat) := by
        rw [digitValue, Nat.mul_comm]
      have hfits : n * 10 + digitValue c < wordSize := by
        rw [hstep]
        exact Nat.lt_of_le_of_lt (le_ofDigitChars cs _) h
      rw [significandOf, if_pos ⟨rfl, hfits⟩, hstep]
      exact ih h

/-! ## Reading -/

/-- The text does not begin with anything that continues an integer. -/
def EndsNumber (cs : List Char) : Prop :=
  ∀ c ∈ cs.head?, c.isDigit = false ∧ c ≠ '.' ∧ c ≠ 'e' ∧ c ≠ 'E'

theorem spanDigits_append (hcs : ∀ c ∈ cs, c.isDigit = true) (hrest : EndsNumber rest) :
    spanDigits (cs ++ rest) = (cs, rest) := by
  have hstop : rest.takeWhile Char.isDigit = [] ∧ rest.dropWhile Char.isDigit = rest := by
    cases rest with
    | nil => exact ⟨rfl, rfl⟩
    | cons c rest =>
        obtain ⟨hc, -⟩ := hrest c rfl
        simp [hc]
  rw [spanDigits, List.takeWhile_append_of_pos hcs, List.dropWhile_append_of_pos hcs, hstop.1,
    hstop.2, List.append_nil]

theorem readWhole_digits (n : Nat) (hrest : EndsNumber rest) :
    readWhole (digits n ++ rest) = some (digits n, rest) := by
  rw [readWhole, spanDigits_append (fun _ => isDigit_of_mem_digits) hrest]
  split
  · rename_i heq
    exact absurd (Prod.mk.inj heq).1 (digits_ne_nil n)
  · rename_i heq
    exact absurd (eq_nil_of_digits_eq (Prod.mk.inj heq).1) (List.cons_ne_nil _ _)
  · rfl

theorem readFraction_of_ends (hrest : EndsNumber rest) : readFraction rest = some ([], rest) := by
  unfold readFraction
  split
  · exact absurd rfl (hrest '.' rfl).2.1
  · rfl

theorem readExponent_of_ends (hrest : EndsNumber rest) : readExponent rest = some (none, rest) := by
  unfold readExponent
  split
  · rename_i c rest
    obtain ⟨-, -, he, hE⟩ := hrest c rfl
    rw [if_neg (by simp [he, hE])]
  · rfl

/-- **Reading an integer undoes writing it.** -/
theorem readNumber_digits (h : n < wordSize) (hrest : EndsNumber rest) :
    readNumber (digits n ++ rest) = some (.natural n, rest) := by
  have hminus : ∀ r, digits n ++ rest ≠ '-' :: r := by
    intro r heq
    rcases hdigits : digits n with _ | ⟨c, cs⟩
    · exact digits_ne_nil n hdigits
    · rw [hdigits, List.cons_append] at heq
      obtain ⟨rfl, -⟩ := List.cons.inj heq
      have hdigit : ('-').isDigit = true :=
        isDigit_of_mem_digits (n := n) (by rw [hdigits]; exact List.mem_cons_self)
      cases hdigit
  have hvalue : Nat.ofDigitChars 10 (digits n) 0 = n := Nat.ofDigitChars_ten_toDigits
  have hassemble : assemble false (digits n) [] none = .natural n := by
    rw [assemble, significandOf_eq (by rw [hvalue]; exact h), hvalue]
    rfl
  unfold readNumber
  split
  · rename_i isNegative cs heq
    split at heq
    · rename_i r hr
      exact absurd hr (hminus r)
    · obtain ⟨rfl, rfl⟩ := Prod.mk.inj heq
      simp only [readWhole_digits n hrest, Option.bind_eq_bind, Option.bind_some,
        readFraction_of_ends hrest, readExponent_of_ends hrest, hassemble]
      rfl

end CodeNav.Json
