import CodeNav.Decimal.Shortest

/-!
# Layouts of decimals

How a double is laid out in characters: which of two equally near decimals is written, which
magnitudes are written positionally, and how an exponent is written for the others. A whole number
keeps `.0` in the positional form.
-/

namespace CodeNav.Decimal

structure Layout where
  /-- Whether numbers whose first digit stands for `10 ^ p` are written positionally. -/
  isPositional : Int → Bool
  /-- Which of two equally near decimals is written. -/
  tie : Tie

def Digits.positional (d : Digits) : String :=
  let ds := Nat.toDigits 10 d.digits
  let whole : Int := ds.length + d.exponent
  if 0 ≤ d.exponent then
    String.ofList (ds ++ List.replicate d.exponent.toNat '0' ++ ['.', '0'])
  else if 0 < whole then
    String.ofList (ds.take whole.toNat ++ '.' :: ds.drop whole.toNat)
  else
    String.ofList ('0' :: '.' :: List.replicate (-whole).toNat '0' ++ ds)

/-- One digit, the others behind a point, and an exponent, which always has a sign. -/
def Digits.scientific (d : Digits) : String :=
  let ds := Nat.toDigits 10 d.digits
  let p : Int := ds.length + d.exponent - 1
  let lead := match ds with
    | [] => []
    | [c] => [c]
    | c :: rest => c :: '.' :: rest
  String.ofList (lead ++ 'e' :: (if p < 0 then '-' else '+') :: Nat.toDigits 10 p.natAbs)

def Layout.render (l : Layout) (isNegative : Bool) (d : Double) : String :=
  let ds := d.shortest l.tie
  let p : Int := (Nat.toDigits 10 ds.digits).length + ds.exponent - 1
  (if isNegative then "-" else "") ++ if l.isPositional p then ds.positional else ds.scientific

/-- Every number is written positionally, and a tie goes to the decimal farther from zero. -/
def Layout.plain : Layout := ⟨fun _ => true, .fromZero⟩

/-- Numbers from `10 ^ -5` up to below `10 ^ 16` are written positionally, and a tie goes to the
even decimal. -/
def Layout.compact : Layout := ⟨fun p => -5 ≤ p && p < 16, .toEven⟩

end CodeNav.Decimal
