import CodeNav.Json.Number
import CodeNav.Json.Quoted

/-!
# Reading JSON

A text is read up to its end or to where it breaks. A reader yields what it has read, and the rest
of the text if nothing was wrong so far. Every value takes at least one character, so the length of
the text bounds the nesting of calls.
-/

namespace CodeNav.Json

def isBlank (c : Char) : Bool := c = ' ' || c = '\n' || c = '\t' || c = '\r'

def skipBlanks (cs : List Char) : List Char := cs.dropWhile isBlank

/-- A text behind a given beginning, if it has that beginning. -/
def after? : List Char → List Char → Option (List Char)
  | [], cs => some cs
  | _ :: _, [] => none
  | w :: ws, c :: cs => if w = c then after? ws cs else none

def readWord (word : String) (v : Json) (cs : List Char) : Json × Option (List Char) :=
  match after? word.toList cs with
  | some rest => (v, some rest)
  | none => (broken, none)

def readString (cs : List Char) : Json × Option (List Char) :=
  match readQuoted cs with
  | some (some s, rest) => (string s, some rest)
  | some (none, rest) => (halfPair, some rest)
  | none => (broken, none)

mutual

def readValue : Nat → List Char → Json × Option (List Char)
  | 0, _ => (broken, none)
  | depth + 1, cs =>
    match skipBlanks cs with
    | [] => (broken, none)
    | '"' :: rest => readString rest
    | '[' :: rest =>
      let (items, r) := readItems depth true rest
      (array items r.isSome, r)
    | '\x7b' :: rest =>
      let (fields, r) := readFields depth true rest
      (object fields r.isSome, r)
    | 'n' :: rest => readWord "ull" null rest
    | 't' :: rest => readWord "rue" (bool true) rest
    | 'f' :: rest => readWord "alse" (bool false) rest
    | cs =>
      match readNumber cs with
      | some (n, rest) => (number n, some rest)
      | none => (broken, none)

/-- Reads the items of an array up to its bracket. Before the first item no comma is due. -/
def readItems : Nat → Bool → List Char → List Json × Option (List Char)
  | 0, _, _ => ([], none)
  | depth + 1, isFirst, cs =>
    match skipBlanks cs, isFirst with
    | ']' :: rest, _ => ([], some rest)
    | ',' :: rest, false =>
      let (v, r) := readValue depth rest
      let (vs, r) := readMoreItems depth r
      (v :: vs, r)
    | cs, true =>
      let (v, r) := readValue depth cs
      let (vs, r) := readMoreItems depth r
      (v :: vs, r)
    | _, false => ([], none)

/-- Reads further items, unless the text is broken. -/
def readMoreItems : Nat → Option (List Char) → List Json × Option (List Char)
  | _, none => ([], none)
  | 0, some _ => ([], none)
  | depth + 1, some cs => readItems depth false cs

/-- Reads the fields of an object up to its brace. Before the first field no comma is due. -/
def readFields : Nat → Bool → List Char → List (Option String × Json) × Option (List Char)
  | 0, _, _ => ([], none)
  | depth + 1, isFirst, cs =>
    match skipBlanks cs, isFirst with
    | '\x7d' :: rest, _ => ([], some rest)
    | ',' :: rest, false => readField depth (skipBlanks rest)
    | cs, true => readField depth cs
    | _, false => ([], none)

/-- Reads a field and those behind it. A key may be followed by no value. -/
def readField : Nat → List Char → List (Option String × Json) × Option (List Char)
  | 0, _ => ([], none)
  | depth + 1, cs =>
    match cs with
    | '"' :: rest =>
      match readQuoted rest with
      | none => ([], none)
      | some (key, rest) =>
        match skipBlanks rest with
        | ':' :: rest =>
          let (v, r) := readValue depth rest
          match r with
          | none => ([(key, v)], none)
          | some rest =>
            let (fields, r) := readFields depth false rest
            ((key, v) :: fields, r)
        | _ => ([(key, broken)], none)
    | _ => ([], none)

end

def read (cs : List Char) : Json × Option (List Char) := readValue (4 * cs.length + 4) cs

end CodeNav.Json
