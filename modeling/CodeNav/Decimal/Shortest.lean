import CodeNav.Decimal.Double

/-!
# Shortest decimals

The decimal with the fewest digits that a double is nearest to. The reals that round to a double
form an interval around it, whose ends belong to it when the mantissa is even. On each decimal grid,
from the coarsest one on, the two neighbours of the number are tried; the first grid with a
neighbour in the interval gives the digits, and of two such neighbours the nearer one. Two that are
equally near are a tie, which each format decides for itself.
-/

namespace CodeNav.Decimal

/-- Which of two equally near grid points is taken: the even one, or the one farther from zero. -/
inductive Tie where
  | toEven
  | fromZero
deriving DecidableEq

/-- Whether a tie between the grid points `k` and `k + 1` goes to `k`. -/
def Tie.keeps (tie : Tie) (k : Nat) : Bool :=
  match tie with
  | toEven => k % 2 = 0
  | fromZero => false

/-- A decimal: `digits * 10 ^ exponent`. -/
structure Digits where
  digits : Nat
  exponent : Int
deriving DecidableEq

/-- A number and its interval on the scale of one decimal grid: the number is `value / unit` steps
from zero, and the interval reaches from `low / unit` to `high / unit`. -/
structure Scaled where
  low : Nat
  value : Nat
  high : Nat
  unit : Nat
  closed : Bool
deriving DecidableEq

/-- Whether the gap below a double is half the gap above it. -/
def Double.isUneven (d : Double) : Bool :=
  d.mantissa = Nat.pow 2 52 && Double.leastExponent < d.exponent

def Double.onGrid (d : Double) (e : Int) : Scaled :=
  let up := Nat.pow 2 (d.exponent - 2).toNat * Nat.pow 10 (-e).toNat
  let m := 4 * d.mantissa
  { low := (m - if d.isUneven then 1 else 2) * up
    value := m * up
    high := (m + 2) * up
    unit := Nat.pow 2 (2 - d.exponent).toNat * Nat.pow 10 e.toNat
    closed := d.mantissa % 2 = 0 }

def Scaled.holds (s : Scaled) (k : Nat) : Bool :=
  if s.closed then s.low ≤ k * s.unit && k * s.unit ≤ s.high
  else s.low < k * s.unit && k * s.unit < s.high

/-- The neighbour on the grid that rounds to the number, the nearer one if both do. -/
def Scaled.neighbour? (s : Scaled) (tie : Tie) : Option Nat :=
  let k := s.value / s.unit
  let below := s.value - k * s.unit
  let above := (k + 1) * s.unit - s.value
  match s.holds k, s.holds (k + 1) with
  | true, true => some (if below < above ∨ below = above ∧ tie.keeps k then k else k + 1)
  | true, false => some k
  | false, true => some (k + 1)
  | false, false => none

/-- The least exponent `e` from `start` on, going up, with the number below `10 ^ (e + 1)`. -/
def Double.magnitude (d : Double) (start : Int) : Nat → Int
  | 0 => start
  | steps + 1 =>
    let s := d.onGrid (start + 1)
    if s.value < s.unit then start else d.magnitude (start + 1) steps

/-- The first grid, from `10 ^ e` downwards, with a point that rounds to the number. -/
def Double.search (d : Double) (tie : Tie) (e : Int) : Nat → Digits
  | 0 => ⟨(d.onGrid e).value / (d.onGrid e).unit, e⟩
  | steps + 1 =>
    match (d.onGrid e).neighbour? tie with
    | some k => ⟨k, e⟩
    | none => d.search tie (e - 1) steps

/-- Moves the zeros at the end of the digits into the exponent; `steps` bounds their number. -/
def Digits.strip (ds : Digits) : Nat → Digits
  | 0 => ds
  | steps + 1 =>
    if ds.digits ≠ 0 ∧ ds.digits % 10 = 0 then strip ⟨ds.digits / 10, ds.exponent + 1⟩ steps
    else ds

/-- The shortest decimal of a double; that of zero is zero. A decimal exponent is at least three
tenths of the binary one, rounded down, less one; from there the magnitude is a few steps away. -/
def Double.shortest (d : Double) (tie : Tie) : Digits :=
  if d.mantissa = 0 then ⟨0, 0⟩
  else
    let log2 : Int := (Nat.log2 d.mantissa : Int) + d.exponent
    let guess := if log2 < 0 then (log2 * 302).fdiv 1000 - 1 else (log2 * 301).fdiv 1000 - 1
    (d.search tie (d.magnitude guess 8) 20).strip 20

end CodeNav.Decimal
