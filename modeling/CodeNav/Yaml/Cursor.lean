/-!
# Positions in a YAML text

A cursor is the rest of a text with its position, in bytes and in lines and columns of characters.
The characters of YAML fall into blanks, line breaks, the end of the text, and all others.
-/

namespace CodeNav.Yaml

/-! ## Characters -/

/-- A character that a text may hold. Other control characters are refused. -/
def isAllowed (c : Char) : Bool :=
  let n := c.toNat
  n = 0x09 || n = 0x0A || n = 0x0D || (0x20 ≤ n && n ≤ 0x7E) || n = 0x85 ||
    (0xA0 ≤ n && n ≤ 0xFFFD) || 0x10000 ≤ n

def isBlank (c : Char) : Bool := c = ' ' || c = '\t'

def isBreak (c : Char) : Bool :=
  c = '\r' || c = '\n' || c = '\u0085' || c = '\u2028' || c = '\u2029'

def isWord (c : Char) : Bool := c.isAlphanum || c = '_' || c = '-'

def isBreakOrEnd (c : Option Char) : Bool := c.elim true isBreak

def isSpaceOrEnd (c : Option Char) : Bool := c.elim true fun c => isBlank c || isBreak c

/-! ## Pieces of a text -/

/-- How many bytes of a text are checked at a time. -/
def pieceSize : Nat := 16384

/-- The longest beginning of a text that fits a number of bytes, and the rest. -/
def splitPiece : Nat → List Char → List Char × List Char
  | _, [] => ([], [])
  | room, c :: rest =>
    if c.utf8Size ≤ room then
      let (piece, rest) := splitPiece (room - c.utf8Size) rest
      (c :: piece, rest)
    else ([], c :: rest)

/-- The pieces of a text before the first one that holds a refused character, and whether there is
such a one. -/
def admitted : Nat → List Char → List Char × Bool
  | 0, _ => ([], false)
  | pieces + 1, text =>
    let (piece, rest) := splitPiece pieceSize text
    if piece = [] then ([], false)
    else if piece.all isAllowed then
      let (more, isCut) := admitted pieces rest
      (piece ++ more, isCut)
    else ([], true)

/-! ## Cursors -/

def byteLength (cs : List Char) : Nat := cs.foldr (fun c n => c.utf8Size + n) 0

/-- The rest of a text, and where it begins: the number of bytes before it, its line and its
column. -/
structure Cursor where
  rest : List Char
  index : Nat
  line : Nat
  column : Nat
deriving DecidableEq

namespace Cursor

def start (text : List Char) : Cursor := ⟨text, 0, 0, 0⟩

def peek (c : Cursor) (k : Nat) : Option Char := c.rest[k]?

def at? (c : Cursor) (x : Char) : Bool := c.rest.head? = some x

def atEnd (c : Cursor) : Bool := c.rest.isEmpty

def next? (c : Cursor) (p : Char → Bool) : Bool := c.rest.head?.any p

def advance (c : Cursor) (n : Nat) : Cursor :=
  ⟨c.rest.drop n, c.index + byteLength (c.rest.take n), c.line, c.column + n⟩

/-- Goes on behind a line break, if there is one; carriage return and line feed are one break. -/
def skipBreak (c : Cursor) : Cursor :=
  match c.rest with
  | '\r' :: '\n' :: rest => ⟨rest, c.index + 2, c.line + 1, 0⟩
  | x :: rest => if isBreak x then ⟨rest, c.index + x.utf8Size, c.line + 1, 0⟩ else c
  | [] => c

/-- At the end of the text, ends the last line if it has characters. -/
def endLine (c : Cursor) : Cursor :=
  if c.column = 0 then c else { c with line := c.line + 1, column := 0 }

/-- What the line break here means as text: a line feed, or itself for the two breaks of Unicode
that separate lines and paragraphs. -/
def breakText (c : Cursor) : List Char :=
  match c.rest with
  | x :: _ => if x = '\u2028' || x = '\u2029' then [x] else if isBreak x then ['\n'] else []
  | [] => []

/-- The characters from here on that have a property, none of them a line break. -/
def takeWhile (c : Cursor) (p : Char → Bool) : List Char := c.rest.takeWhile p

/-- Goes on behind the characters that have a property, none of them a line break. -/
def skipWhile (c : Cursor) (p : Char → Bool) : Cursor := c.advance (c.takeWhile p).length

def skipLine (c : Cursor) : Cursor := c.skipWhile fun x => !isBreak x

def skipComment (c : Cursor) : Cursor :=
  let c := c.skipWhile isBlank
  if c.at? '#' then c.skipLine else c

/-- A line begins here with a given mark of three characters that stands alone. -/
def atMark (c : Cursor) (x : Char) : Bool :=
  c.column = 0 && c.rest.take 3 = [x, x, x] && isSpaceOrEnd (c.peek 3)

def atDocumentMark (c : Cursor) : Bool := c.atMark '-' || c.atMark '.'

end Cursor

end CodeNav.Yaml
