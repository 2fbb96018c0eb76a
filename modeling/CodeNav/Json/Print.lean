import CodeNav.Json.Basic
import CodeNav.Json.Quoted

/-!
# Printing JSON

The compact form: no blanks, fields in the given order. Documents that are printed hold integers
without sign and no breaks; the other cases have a printed form too, which no reader is expected to
accept.

A destination is given that form in pieces: brackets and marks each on their own, and a literal as
`quotePieces` has it.
-/

namespace CodeNav.Json

def digits (n : Nat) : List Char := Nat.toDigits 10 n

def printNumber : Number → List Char
  | .natural n => digits n
  | .negative n => '-' :: digits n
  | .decimal isNegative significand exponent =>
    (if isNegative then ['-'] else []) ++ digits significand ++ 'e' :: (toString exponent).toList

mutual

/-- The compact form of a document. -/
def print : Json → List Char
  | null => ['n', 'u', 'l', 'l']
  | bool true => ['t', 'r', 'u', 'e']
  | bool false => ['f', 'a', 'l', 's', 'e']
  | number n => printNumber n
  | string s => quote s.toList
  | halfPair => []
  | array items _ => '[' :: printItems items
  | object fields _ => '{' :: printFields fields
  | broken => []

def printItems : List Json → List Char
  | [] => [']']
  | [v] => print v ++ [']']
  | v :: rest => print v ++ ',' :: printItems rest

def printFields : List (Option String × Json) → List Char
  | [] => ['}']
  | [(k, v)] => quote (k.getD "").toList ++ ':' :: print v ++ ['}']
  | (k, v) :: rest => quote (k.getD "").toList ++ ':' :: print v ++ ',' :: printFields rest

end

mutual

/-- The pieces in which a document is written. -/
def pieces : Json → List (List Char)
  | string s => quotePieces s.toList
  | array items _ => ['['] :: itemPieces items
  | object fields _ => ['{'] :: fieldPieces fields
  | j => [print j]

def itemPieces : List Json → List (List Char)
  | [] => [[']']]
  | [v] => pieces v ++ [[']']]
  | v :: rest => pieces v ++ [','] :: itemPieces rest

def fieldPieces : List (Option String × Json) → List (List Char)
  | [] => [['}']]
  | [(k, v)] => quotePieces (k.getD "").toList ++ [':'] :: pieces v ++ [['}']]
  | (k, v) :: rest =>
    quotePieces (k.getD "").toList ++ [':'] :: pieces v ++ [','] :: fieldPieces rest

end

def text (j : Json) : String := String.ofList j.print

end CodeNav.Json
