import CodeNav.Yaml.Scalar

/-!
# Tags of YAML

How the name of a tag is read: a handle, which stands for the beginning of the name, and a suffix.
Inside a name, a percent sign and two hexadecimal digits stand for a byte. The bytes of a character
have to come together, but no more is asked of them, so the name of a tag is bytes and not text.
-/

namespace CodeNav.Yaml

/-! ## Bytes -/

/-- The bytes of a tag. A tag may spell any bytes by escapes, and need not be text. -/
abbrev TagBytes := List UInt8

def TagBytes.ofString (s : String) : TagBytes := s.toUTF8.data.toList

/-- A character of a tag. Inside angle brackets a tag may hold brackets and commas. -/
def isTagChar (isVerbatim : Bool) (c : Char) : Bool :=
  isWord c || ";/?:@&=+$.!~*'()".contains c || (isVerbatim && (c = ',' || c = '[' || c = ']'))

def utf8Width? (first : Nat) : Option Nat :=
  if first < 0x80 then some 1
  else if 0xC0 ≤ first ∧ first < 0xE0 then some 2
  else if 0xE0 ≤ first ∧ first < 0xF0 then some 3
  else if 0xF0 ≤ first ∧ first < 0xF8 then some 4
  else none

def readEscapedByte : List Char → Option Nat
  | '%' :: a :: b :: _ => hexNumber? [a, b]
  | _ => none

def readTrailingBytes : Nat → List Char → Option TagBytes
  | 0, _ => some []
  | n + 1, cs => do
    let b ← readEscapedByte cs
    if b / 0x40 = 2 then return UInt8.ofNat b :: (← readTrailingBytes n (cs.drop 3)) else none

/-- Reads the bytes of a character that is written by escapes: a first byte, and as many trailing
ones as it asks for. A form that is longer than the character needs is read like any other. -/
def readEscapedChar (cs : List Char) : Option TagBytes := do
  let first ← readEscapedByte cs
  let width ← utf8Width? first
  return UInt8.ofNat first :: (← readTrailingBytes (width - 1) (cs.drop 3))

def readTagBytes (isVerbatim : Bool) : Nat → Cursor → Option (TagBytes × Cursor)
  | 0, c => some ([], c)
  | steps + 1, c =>
    match c.rest with
    | [] => some ([], c)
    | x :: _ =>
      if x = '%' then do
        let bytes ← readEscapedChar c.rest
        let (more, c) ← readTagBytes isVerbatim steps (c.advance (3 * bytes.length))
        return (bytes ++ more, c)
      else if isTagChar isVerbatim x then do
        let (more, c) ← readTagBytes isVerbatim steps (c.advance 1)
        return (UInt8.ofNat x.toNat :: more, c)
      else some ([], c)

/-- Reads the characters of a tag behind those that were read as its handle. Altogether there has to
be one. A zero byte ends the tag, whatever follows it. -/
def readTagSuffix (isVerbatim : Bool) (handle : List Char) (c : Cursor) :
    Option (TagBytes × Cursor) := do
  let (bytes, c) ← readTagBytes isVerbatim c.rest.length c
  if handle = [] ∧ bytes = [] then none
  else return ((.ofString (String.ofList (handle.drop 1)) ++ bytes).takeWhile (· ≠ 0), c)

/-! ## Handles and names -/

/-- Reads an exclamation mark and a word behind it, with another exclamation mark if there is
one. -/
def readTagHandle (c : Cursor) : Option (List Char × Cursor) :=
  if c.at? '!' then
    let word := (c.advance 1).takeWhile isWord
    let c := c.advance (word.length + 1)
    if c.at? '!' then some ('!' :: word ++ ['!'], c.advance 1) else some ('!' :: word, c)
  else none

/-- Reads a tag: its handle and its suffix. A tag between angle brackets has no handle, and a lone
exclamation mark is a suffix. -/
def readTagName (c : Cursor) : Option (List Char × TagBytes × Cursor) :=
  if c.peek 1 = some '<' then do
    let (suffix, c) ← readTagSuffix true [] (c.advance 2)
    if c.at? '>' then return ([], suffix, c.advance 1) else none
  else do
    let (handle, c) ← readTagHandle c
    if 1 < handle.length && handle.getLast? = some '!' then do
      let (suffix, c) ← readTagSuffix false [] c
      return (handle, suffix, c)
    else do
      let (suffix, c) ← readTagSuffix false handle c
      if suffix = [] then return ([], .ofString "!", c) else return (['!'], suffix, c)

end CodeNav.Yaml
