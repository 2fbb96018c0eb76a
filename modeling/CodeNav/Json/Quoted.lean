/-!
# String literals of JSON

Writing: a quote and a backslash are escaped by a backslash, the five control characters that have
a short escape use it, every other character below a blank is written with four hexadecimal digits,
and all else stands for itself.

Reading: a literal is first cut into units, each a character or the value of a `\u` escape, and the
units are then joined. A unit from D800 to DFFF has to be one half of a pair.
-/

namespace CodeNav.Json

/-! ## Writing -/

def hexDigit (n : Nat) : Char := Nat.digitChar n

def escapeChar (c : Char) : List Char :=
  match c with
  | '"' => ['\\', '"']
  | '\\' => ['\\', '\\']
  | '\n' => ['\\', 'n']
  | '\r' => ['\\', 'r']
  | '\t' => ['\\', 't']
  | '\x08' => ['\\', 'b']
  | '\x0c' => ['\\', 'f']
  | _ =>
    if c.toNat < 0x20 then ['\\', 'u', '0', '0', hexDigit (c.toNat / 16), hexDigit (c.toNat % 16)]
    else [c]

/-- A string literal that spells a text. -/
def quote (s : List Char) : List Char := '"' :: (s.flatMap escapeChar ++ ['"'])

def isVerbatim (c : Char) : Bool := escapeChar c = [c]

/-- The pieces in which a literal is written: the quotes, each escape, and between escapes as many
characters as stand for themselves. -/
def quotePieces (s : List Char) : List (List Char) :=
  ['"'] :: (s.splitBy fun a b => isVerbatim a && isVerbatim b).map (·.flatMap escapeChar) ++ [['"']]

/-! ## Reading -/

/-- A piece of a string literal. -/
inductive LiteralUnit where
  | plain (c : Char)
  | hex (n : Nat)
deriving DecidableEq

def hexValue? (c : Char) : Option Nat :=
  if '0' ≤ c ∧ c ≤ '9' then some (c.toNat - '0'.toNat)
  else if 'a' ≤ c ∧ c ≤ 'f' then some (c.toNat - 'a'.toNat + 10)
  else if 'A' ≤ c ∧ c ≤ 'F' then some (c.toNat - 'A'.toNat + 10)
  else none

def hexValue4? (a b c d : Char) : Option Nat := do
  return (((← hexValue? a) * 16 + (← hexValue? b)) * 16 + (← hexValue? c)) * 16 + (← hexValue? d)

def shortEscape? : Char → Option Char
  | '"' => some '"'
  | '\\' => some '\\'
  | '/' => some '/'
  | 'b' => some '\x08'
  | 'f' => some '\x0c'
  | 'n' => some '\n'
  | 'r' => some '\r'
  | 't' => some '\t'
  | _ => none

/-- The units up to the closing quote, and the text behind it; nothing if the literal is
malformed. Control characters have to be escaped. -/
def literalUnits : List Char → Option (List LiteralUnit × List Char)
  | [] => none
  | '"' :: rest => some ([], rest)
  | '\\' :: 'u' :: a :: b :: c :: d :: rest => do
    let n ← hexValue4? a b c d
    let (units, rest) ← literalUnits rest
    return (.hex n :: units, rest)
  | '\\' :: e :: rest => do
    let c ← shortEscape? e
    let (units, rest) ← literalUnits rest
    return (.plain c :: units, rest)
  | c :: rest =>
    if c.toNat < 0x20 ∨ c = '\\' then none
    else (literalUnits rest).map fun (units, rest) => (.plain c :: units, rest)

def isHighHalf (n : Nat) : Bool := 0xD800 ≤ n && n ≤ 0xDBFF

def isLowHalf (n : Nat) : Bool := 0xDC00 ≤ n && n ≤ 0xDFFF

def joinHalves (high low : Nat) : Char :=
  Char.ofNat ((high - 0xD800) * 0x400 + (low - 0xDC00) + 0x10000)

/-- The text that units spell; nothing if a half stands alone. -/
def joinUnits : List LiteralUnit → Option (List Char)
  | [] => some []
  | .plain c :: rest => (joinUnits rest).map (c :: ·)
  | .hex high :: .hex low :: rest =>
    if isHighHalf high then
      if isLowHalf low then (joinUnits rest).map (joinHalves high low :: ·) else none
    else if isLowHalf high then none
    else (joinUnits (.hex low :: rest)).map (Char.ofNat high :: ·)
  | .hex n :: rest =>
    if isHighHalf n || isLowHalf n then none else (joinUnits rest).map (Char.ofNat n :: ·)

/-- Reads a literal whose opening quote is already read: its text, if it spells one, and what
follows it. -/
def readQuoted (cs : List Char) : Option (Option String × List Char) :=
  (literalUnits cs).map fun (units, rest) => ((joinUnits units).map String.ofList, rest)

end CodeNav.Json
