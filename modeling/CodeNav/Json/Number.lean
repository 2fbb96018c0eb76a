import CodeNav.Decimal.Layout
import CodeNav.Json.Basic

/-!
# Numbers of JSON

A number is an optional minus sign, digits without a needless zero in front, a fraction, and an
exponent. Without fraction and exponent it is an integer, unless it does not fit 64 bits; minus zero
is a fraction.

A fraction is read with a significand of 64 bits. From the first digit that does not fit, digits in
front of the point only count for the exponent; from the first that does not fit behind the point,
digits count for nothing. Its value is that significand as a double, multiplied or
divided by a power of ten, so the last bit may differ from the nearest double.
-/

namespace CodeNav.Json

open Decimal (Double)

/-! ## Reading -/

def digitValue (c : Char) : Nat := c.toNat - '0'.toNat

/-- One more than the largest significand and the largest integer. -/
def wordSize : Nat := Nat.pow 2 64

/-- Digits in front of the point: the significand, and how many digits were left out of it. -/
def significandOf : Nat → Nat → List Char → Nat × Nat
  | n, dropped, [] => (n, dropped)
  | n, dropped, c :: rest =>
    if dropped = 0 ∧ n * 10 + digitValue c < wordSize then
      significandOf (n * 10 + digitValue c) 0 rest
    else significandOf n (dropped + 1) rest

/-- Digits behind the point: the significand, and how many of the digits it took in. -/
def extendSignificand : Nat → Nat → List Char → Nat × Nat
  | n, taken, [] => (n, taken)
  | n, taken, c :: rest =>
    if n * 10 + digitValue c < wordSize then
      extendSignificand (n * 10 + digitValue c) (taken + 1) rest
    else (n, taken)

def spanDigits (cs : List Char) : List Char × List Char :=
  (cs.takeWhile Char.isDigit, cs.dropWhile Char.isDigit)

/-- Digits in front of the point: a single zero, or digits that begin with another one. -/
def readWhole (cs : List Char) : Option (List Char × List Char) :=
  match spanDigits cs with
  | ([], _) => none
  | ('0' :: _ :: _, _) => none
  | r => some r

/-- A fraction, if there is a point: its digits, at least one, and what follows. -/
def readFraction : List Char → Option (List Char × List Char)
  | '.' :: rest =>
    match spanDigits rest with
    | ([], _) => none
    | r => some r
  | cs => some ([], cs)

def readExponent : List Char → Option (Option Int × List Char)
  | c :: rest =>
    if c = 'e' ∨ c = 'E' then
      let (isNegative, rest) :=
        match rest with
        | '+' :: r => (false, r)
        | '-' :: r => (true, r)
        | r => (false, r)
      match spanDigits rest with
      | ([], _) => none
      | (ds, r) =>
        let n : Int := Nat.ofDigitChars 10 ds 0
        some (some (if isNegative then -n else n), r)
    else some (none, c :: rest)
  | [] => some (none, [])

def assemble (isNegative : Bool) (whole fraction : List Char) (exponent : Option Int) : Number :=
  let (n, dropped) := significandOf 0 0 whole
  if fraction = [] ∧ exponent = none ∧ dropped = 0 then
    if ¬isNegative then .natural n
    else if n = 0 ∨ Nat.pow 2 63 < n then .decimal true n 0
    else .negative n
  else
    let (m, taken) := extendSignificand n 0 fraction
    .decimal isNegative m ((dropped : Int) - taken + exponent.getD 0)

def readNumber (cs : List Char) : Option (Number × List Char) := do
  let (isNegative, cs) :=
    match cs with
    | '-' :: rest => (true, rest)
    | cs => (false, cs)
  let (whole, cs) ← readWhole cs
  let (fraction, cs) ← readFraction cs
  let (exponent, cs) ← readExponent cs
  return (assemble isNegative whole fraction exponent, cs)

/-! ## Values -/

/-- A double scaled by a power of ten, in one step up to the largest power that a double can hold.
A smaller number is first divided by that power until nothing is left of it; `steps` bounds how
often. There is no result where the number gets too large. -/
def scale (d : Double) (exponent : Int) : Nat → Option Double
  | 0 => some d
  | steps + 1 =>
    if exponent.natAbs ≤ 308 then do
      let power ← Double.ofDecimal? 1 exponent.natAbs
      if 0 ≤ exponent then d.mul? power else d.div? power
    else if d.mantissa = 0 then some d
    else if 0 ≤ exponent then none
    else do
      let d ← d.div? (← Double.ofDecimal? 1 308)
      scale d (exponent + 308) steps

/-- The size of a number with fraction or exponent, unless it is too large. -/
def decimalSize? (significand : Nat) (exponent : Int) : Option Double := do
  scale (← Double.ofDecimal? significand 0) exponent 8

def Number.inRange : Number → Bool
  | .decimal _ significand exponent => (decimalSize? significand exponent).isSome
  | _ => true

end CodeNav.Json
