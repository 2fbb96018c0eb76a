import CodeNav.Decimal.Layout
import CodeNav.Mismatch
import CodeNav.Yaml.Event

/-!
# Values of scalars

What a scalar means. A plain scalar means null, a boolean or a number if it is written like one; a
tag of the core schema demands its type whatever the style; everything else is a string.
-/

namespace CodeNav.Yaml

open Decimal (Double)

/-! ## Words -/

/-- The two words for truth, in three spellings each. -/
def boolean? (s : String) : Option Bool :=
  if s ∈ ["true", "True", "TRUE"] then some true
  else if s ∈ ["false", "False", "FALSE"] then some false
  else none

def isNullWord (s : String) : Bool := s ∈ ["null", "Null", "NULL", "~"]

/-! ## Integers -/

def digitIn? (base : Nat) (c : Char) : Option Nat :=
  (hexDigit? c).bind fun d => if d < base then some d else none

def natural? (base : Nat) : List Char → Option Nat
  | [] => none
  | cs => cs.foldlM (fun n c => (digitIn? base c).map (n * base + ·)) 0

/-- A zero in front of further digits, which then do not make a number. -/
def hasLeadingZero : List Char → Bool
  | '0' :: rest => rest ≠ [] && rest.all Char.isDigit
  | _ => false

/-- An integer without sign, in decimal or behind a mark for its base. -/
def unsigned? (cs : List Char) : Option Nat :=
  let based :=
    match cs with
    | '0' :: 'x' :: rest => natural? 16 rest
    | '0' :: 'o' :: rest => natural? 8 rest
    | '0' :: 'b' :: rest => natural? 2 rest
    | _ => none
  based <|> if hasLeadingZero cs then none else natural? 10 cs

def integer? : List Char → Option Int
  | '-' :: rest => (unsigned? rest).map fun n => -Int.ofNat n
  | '+' :: rest => (unsigned? rest).map Int.ofNat
  | cs => (unsigned? cs).map Int.ofNat

/-- An integer of up to 64 bits as such, one of up to 128 bits with its type, a wider one as
nothing. -/
def foundInteger? (n : Int) : Option Found :=
  if -Int.pow 2 63 ≤ n ∧ n < Int.pow 2 64 then some (.integer n)
  else if 0 ≤ n ∧ n < Int.pow 2 128 then some (.wideInteger n "u128")
  else if -Int.pow 2 127 ≤ n ∧ n < 0 then some (.wideInteger n "i128")
  else none

/-! ## Floating-point numbers -/

/-- The double nearest to `n * 10 ^ e`, unless that is too large. Far outside of what doubles hold,
the magnitude alone decides. -/
def finite? (n : Nat) (e : Int) : Option Double :=
  let magnitude : Int := (Nat.toDigits 10 n).length + e
  if n = 0 ∨ magnitude < -400 then some .zero
  else if 400 < magnitude then none
  else Double.ofDecimal? n e

def exponent? : List Char → Option Int
  | [] => some 0
  | c :: rest =>
    if c = 'e' ∨ c = 'E' then
      match rest with
      | '-' :: ds => (natural? 10 ds).map fun n => -Int.ofNat n
      | '+' :: ds => (natural? 10 ds).map Int.ofNat
      | ds => (natural? 10 ds).map Int.ofNat
    else none

/-- A finite number without sign: digits, of which some may stand behind a point, and an
exponent. -/
def unsignedFloat? (cs : List Char) : Option Double := do
  let whole := cs.takeWhile Char.isDigit
  let rest := cs.dropWhile Char.isDigit
  let (fraction, rest) :=
    match rest with
    | '.' :: r => (r.takeWhile Char.isDigit, r.dropWhile Char.isDigit)
    | r => ([], r)
  let n ← natural? 10 (whole ++ fraction)
  let e ← exponent? rest
  finite? n (e - fraction.length)

/-- The text of a finite number with its sign. -/
def finiteText? (isNegative : Bool) (cs : List Char) : Option String :=
  (unsignedFloat? cs).map (Decimal.Layout.plain.render isNegative)

def foundFloat? (s : String) : Option Found :=
  Found.float <$>
    if s ∈ [".inf", ".Inf", ".INF", "+.inf", "+.Inf", "+.INF"] then some "inf"
    else if s ∈ ["-.inf", "-.Inf", "-.INF"] then some "-inf"
    else if s ∈ [".nan", ".NaN", ".NAN"] then some "NaN"
    else
      match s.toList with
      | '-' :: rest => finiteText? true rest
      | '+' :: rest => finiteText? false rest
      | cs => finiteText? false cs

/-! ## Scalars -/

def withoutSign : List Char → List Char
  | '+' :: rest => rest
  | '-' :: rest => rest
  | cs => cs

def foundPlain (s : String) : Found :=
  if s = "" ∨ isNullWord s then .null
  else
    ((boolean? s).map Found.boolean <|> (integer? s.toList).bind foundInteger? <|>
      (if hasLeadingZero (withoutSign s.toList) then none else foundFloat? s)).getD (.string s)

def coreTag (name : String) : TagBytes := .ofString (corePrefix ++ name)

/-- A type that a tag of the core schema demands: its name in words, and how it is read. -/
def demandOf? (tag : TagBytes) : Option (String × (String → Option Found)) :=
  if tag = coreTag "bool" then some ("a boolean", fun s => (boolean? s).map Found.boolean)
  else if tag = coreTag "int" then
    some ("an integer", fun s => (integer? s.toList).bind foundInteger?)
  else if tag = coreTag "float" then some ("a float", foundFloat?)
  else if tag = coreTag "null" then
    some ("null", fun s => if isNullWord s then some .null else none)
  else none

def scalarMismatch (tag : Option TagBytes) (text : String) (style : Style) (expected : String) :
    Mismatch :=
  match tag with
  | none => .invalidType (if style = .plain then foundPlain text else .string text) expected
  | some tag =>
    match demandOf? tag with
    | some (type, read) =>
      match read text with
      | some found => .invalidType found expected
      | none => .invalidValue (.string text) type
    | none =>
      let isLocal := (TagBytes.ofString "!").isPrefixOf tag
      .invalidType (if isLocal && style = .plain then foundPlain text else .string text) expected

/-- The boolean that a scalar is, if it is written plainly, or as a literal block with the tag of
booleans. -/
def scalarBoolean? (tag : Option TagBytes) (text : String) (style : Style) : Option Bool :=
  if style = .plain || (style = .literal && tag = some (coreTag "bool")) then boolean? text
  else none

end CodeNav.Yaml
