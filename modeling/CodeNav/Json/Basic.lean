/-!
# JSON documents

The values of JSON, together with what a text says that stops being JSON somewhere. A text that
breaks off is still read from its beginning: what comes before the break is decoded first, and only
then is the break an error. So a document may hold `broken` where the text goes wrong, and an
array or object that is not `complete` ends at a break.

A number is kept as its digits say, since decoding decides how it is rounded. A string literal may
be well formed and yet spell no text, when its escapes name half of a surrogate pair.
-/

namespace CodeNav

inductive Json.Number where
  /-- An integer without sign. -/
  | natural (n : Nat)
  /-- The integer `-n`, where `n` is positive. -/
  | negative (n : Nat)
  /-- The number `significand * 10 ^ exponent`, with its sign. -/
  | decimal (isNegative : Bool) (significand : Nat) (exponent : Int)
deriving DecidableEq

/-- A JSON document, up to where its text breaks. -/
inductive Json where
  | null
  | bool (b : Bool)
  | number (n : Json.Number)
  | string (s : String)
  /-- A string literal that spells no text. -/
  | halfPair
  | array (items : List Json) (complete : Bool)
  /-- The fields in the order of the text; a key that spells no text is `none`. -/
  | object (fields : List (Option String × Json)) (complete : Bool)
  /-- The text is not JSON from here on. -/
  | broken

namespace Json

/-- An array that the text closes. -/
def ofItems (items : List Json) : Json := array items true

/-- An object that the text closes. -/
def ofFields (fields : List (String × Json)) : Json :=
  object (fields.map fun f => (some f.1, f.2)) true

def ofNat (n : Nat) : Json := number (.natural n)

def ofOption {α : Type} (encode : α → Json) : Option α → Json
  | none => null
  | some a => encode a

end Json

end CodeNav
