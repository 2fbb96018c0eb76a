/-!
# Doubles

The finite, nonnegative numbers of the 64-bit floating-point format, as a mantissa and an exponent
of two. Every operation is the exact one, followed by rounding to the nearest double, where a tie
goes to the even mantissa. A result that is too large for the format is none.
-/

namespace CodeNav.Decimal

/-- The number `mantissa * 2 ^ exponent`. A mantissa has 53 bits, unless the exponent is the
least. -/
structure Double where
  mantissa : Nat
  exponent : Int
deriving DecidableEq

namespace Double

def leastExponent : Int := -1074

def greatestExponent : Int := 971

def zero : Double := ⟨0, leastExponent⟩

/-- A quotient rounded to the nearest natural number, a tie to the even one. -/
def roundDiv (num den : Nat) : Nat :=
  let q := num / den
  let twice := 2 * (num % den)
  if twice < den ∨ twice = den ∧ q % 2 = 0 then q else q + 1

/-- The quotient `num / den` in units of `2 ^ exponent`, rounded. -/
def roundAt (num den : Nat) (exponent : Int) : Nat :=
  roundDiv (num * Nat.pow 2 (-exponent).toNat) (den * Nat.pow 2 exponent.toNat)

/-- Whether `num / den` is at least `2 ^ k`. -/
def reaches (num den : Nat) (k : Int) : Bool :=
  den * Nat.pow 2 k.toNat ≤ num * Nat.pow 2 (-k).toNat

/-- The exponent of the unit in which a quotient has 53 bits, or the least exponent. The lengths of
the two numbers give the quotient's own length up to one. -/
def unitExponent (num den : Nat) : Int :=
  let k : Int := (Nat.log2 num : Int) - Nat.log2 den
  max ((if reaches num den k then k else k - 1) - 52) leastExponent

def ofQuotient? (num den : Nat) : Option Double :=
  if num = 0 then some zero
  else
    let e := unitExponent num den
    let m := roundAt num den e
    let d : Double := if m = Nat.pow 2 53 then ⟨Nat.pow 2 52, e + 1⟩ else ⟨m, e⟩
    if d.exponent ≤ greatestExponent then some d else none

def ofDecimal? (n : Nat) (e : Int) : Option Double :=
  ofQuotient? (n * Nat.pow 10 e.toNat) (Nat.pow 10 (-e).toNat)

def mul? (a b : Double) : Option Double :=
  let e := a.exponent + b.exponent
  ofQuotient? (a.mantissa * b.mantissa * Nat.pow 2 e.toNat) (Nat.pow 2 (-e).toNat)

/-- The double nearest to the quotient, for a divisor that is not zero. -/
def div? (a b : Double) : Option Double :=
  let e := a.exponent - b.exponent
  ofQuotient? (a.mantissa * Nat.pow 2 e.toNat) (b.mantissa * Nat.pow 2 (-e).toNat)

end Double

end CodeNav.Decimal
