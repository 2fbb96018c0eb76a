import CodeNav.Yaml.Tag

/-!
# Tokens of YAML

A text is cut into tokens from its beginning to its end. Two things make this more than a matter of
the next characters. Indentation opens and closes blocks, which have tokens of their own. And that
a token begins the key of a mapping shows only at the colon behind it, so for each level of brackets
the place of a possible key is kept, and the key's token is put in front of it later.

So a token is handed on only when no key can begin in front of it any more, and no further text is
looked at than that takes. Where the text is malformed, the tokens handed on before are good.
-/

namespace CodeNav.Yaml

inductive Token where
  | streamStart
  | streamEnd
  | versionDirective (major minor : Nat)
  | tagDirective (handle : String) (expansion : TagBytes)
  | documentStart
  | documentEnd
  | blockSequenceStart
  | blockMappingStart
  | blockEnd
  | flowSequenceStart
  | flowSequenceEnd
  | flowMappingStart
  | flowMappingEnd
  | blockEntry
  | flowEntry
  | key
  | value
  | alias (name : String)
  | anchor (name : String)
  | tag (handle : String) (suffix : TagBytes)
  | scalar (text : String) (style : Style)
deriving DecidableEq

/-! ## Names, tags and directives -/

def readAnchorName (c : Cursor) : Option (String × Cursor) :=
  let name := c.takeWhile isWord
  let c := c.advance name.length
  let ends := isSpaceOrEnd (c.peek 0) ||
    c.next? fun x => x = '?' || x = ':' || x = ',' || x = ']' || x = '}' || x = '%' || x = '@' ||
      x = '\x60'
  if name = [] || !ends then none else some (String.ofList name, c)

/-- Reads a tag, which a blank or a line break has to follow, or inside brackets a comma. -/
def readTag (inFlow : Bool) (c : Cursor) : Option (Token × Cursor) := do
  let (handle, suffix, c) ← readTagName c
  if inFlow && c.at? ',' || isSpaceOrEnd (c.peek 0) then
    return (.tag (String.ofList handle) suffix, c)
  else none

/-- Reads one of the two numbers of a version, of at most nine digits. -/
def readVersionNumber (c : Cursor) : Option (Nat × Cursor) :=
  let ds := c.takeWhile Char.isDigit
  if ds = [] || 9 < ds.length then none
  else some (Nat.ofDigitChars 10 ds 0, c.advance ds.length)

def readVersion (c : Cursor) : Option (Token × Cursor) := do
  let (major, c) ← readVersionNumber (c.skipWhile isBlank)
  if !c.at? '.' then none
  let (minor, c) ← readVersionNumber (c.advance 1)
  return (.versionDirective major minor, c)

/-- Reads a tag directive, behind its name: a handle and what it stands for. -/
def readTagExpansion (c : Cursor) : Option (Token × Cursor) := do
  let (handle, c) ← readTagHandle (c.skipWhile isBlank)
  if handle ≠ ['!'] ∧ handle.getLast? ≠ some '!' then none
  if !c.next? isBlank then none
  let (expansion, c) ← readTagSuffix true [] (c.skipWhile isBlank)
  if !isSpaceOrEnd (c.peek 0) then none
  return (.tagDirective (String.ofList handle) expansion, c)

def readDirective (c : Cursor) : Option (Token × Cursor) := do
  let name := (c.advance 1).takeWhile isWord
  let c := c.advance (name.length + 1)
  if name = [] || !isSpaceOrEnd (c.peek 0) then none
  let (token, c) ←
    if name = "YAML".toList then readVersion c
    else if name = "TAG".toList then readTagExpansion c
    else none
  let c := c.skipComment
  if !isBreakOrEnd (c.peek 0) then none
  return (token, c.skipBreak)

/-! ## The state of cutting -/

/-- The place of a possible key: the number of the token there, and its position in the text. A
required key is one where nothing else can stand. -/
structure KeyPlace where
  isRequired : Bool
  token : Nat
  line : Nat
  index : Nat
  column : Nat
deriving DecidableEq

/-- The state of cutting a text into tokens. Indentation is negative outside of any block. -/
structure Lexer where
  cursor : Cursor
  /-- The text goes on behind what the cursor has left, but must not be looked at there. -/
  isCut : Bool
  /-- The tokens that were not handed on yet. -/
  queue : List Token
  /-- How many tokens were handed on. -/
  handedOn : Nat
  indent : Int
  outerIndents : List Int
  /-- Whether a key may begin here. -/
  keyAllowed : Bool
  /-- The place of a possible key on this level of brackets. -/
  key : Option KeyPlace
  /-- The same for the levels around it. -/
  outerKeys : List (Option KeyPlace)

namespace Lexer

def start (text : List Char) (isCut : Bool) : Lexer :=
  ⟨.start text, isCut, [.streamStart], 0, -1, [], true, none, []⟩

def nextToken (s : Lexer) : Nat := s.handedOn + s.queue.length

def inFlow (s : Lexer) : Bool := !s.outerKeys.isEmpty

def emit (s : Lexer) (t : Token) : Lexer := { s with queue := s.queue ++ [t] }

def emitOver (s : Lexer) (t : Token) (n : Nat) : Lexer :=
  { s.emit t with cursor := s.cursor.advance n }

/-- Adds a token in front of the token of a given number, which was not handed on yet. -/
def insert (s : Lexer) (k : Nat) (t : Token) : Lexer :=
  let (before, behind) := s.queue.splitAt (k - s.handedOn)
  { s with queue := before ++ t :: behind }

/-- Whether a possible key is out of reach: a key is on one line, its colon within 1024 bytes. -/
def isStale (c : Cursor) (k : KeyPlace) : Bool := k.line < c.line || k.index + 1024 < c.index

/-- Gives up a possible key that is out of reach, unless it is required. -/
def refreshKey (c : Cursor) : Option KeyPlace → Option (Option KeyPlace)
  | none => some none
  | some k => if isStale c k then (if k.isRequired then none else some none) else some (some k)

def refreshKeys (s : Lexer) : Option Lexer := do
  let key ← refreshKey s.cursor s.key
  let outerKeys ← s.outerKeys.mapM (refreshKey s.cursor)
  return { s with key := key, outerKeys := outerKeys }

def dropKey (s : Lexer) : Option Lexer :=
  if s.key.any (·.isRequired) then none else some { s with key := none }

def saveKey (s : Lexer) : Option Lexer :=
  if s.keyAllowed then do
    let c := s.cursor
    let s ← s.dropKey
    let isRequired := !s.inFlow && s.indent = c.column
    return { s with key := some ⟨isRequired, s.nextToken, c.line, c.index, c.column⟩ }
  else some s

/-- Opens a block at a column that is further in, with its token in front of token `k`. -/
def openBlock (s : Lexer) (column k : Nat) (t : Token) : Lexer :=
  if !s.inFlow && s.indent < column then
    { s.insert k t with indent := column, outerIndents := s.indent :: s.outerIndents }
  else s

/-- Closes the blocks that are indented by more than `column`; `indents` are those around the
present one. -/
def closeBlocksIn (column : Int) : List Int → Int → Nat × Int × List Int
  | [], indent => if column < indent then (1, -1, []) else (0, indent, [])
  | outer :: rest, indent =>
    if column < indent then
      let (n, r) := closeBlocksIn column rest outer
      (n + 1, r)
    else (0, indent, outer :: rest)

def closeBlocks (s : Lexer) (column : Int) : Lexer :=
  if s.inFlow then s
  else
    let (n, indent, outerIndents) := closeBlocksIn column s.outerIndents s.indent
    { s with
      queue := s.queue ++ List.replicate n .blockEnd
      indent := indent
      outerIndents := outerIndents }

/-! ## The next token -/

/-- Goes on to the next token, over blanks, comments and line breaks. A byte order mark may begin a
line. A tab may not stand where a key may begin, and outside brackets a line break allows one. -/
def skipToToken : Nat → Lexer → Lexer
  | 0, s => s
  | steps + 1, s =>
    let c := s.cursor
    let c := if c.column = 0 && c.at? '\uFEFF' then c.advance 1 else c
    let c := c.skipWhile fun x => x = ' ' || (x = '\t' && (s.inFlow || !s.keyAllowed))
    let c := if c.at? '#' then c.skipLine else c
    if c.next? isBreak then
      skipToToken steps { s with cursor := c.skipBreak, keyAllowed := s.keyAllowed || !s.inFlow }
    else { s with cursor := c }

/-- Takes a token that closes all blocks and begins no key: a directive or a document mark. -/
def takeOutside (s : Lexer) : Option Lexer := do
  let s ← (s.closeBlocks (-1)).dropKey
  return { s with keyAllowed := false }

/-- Takes the end of the text, which ends its last line. -/
def takeEnd (s : Lexer) : Option Lexer := do
  let s ← s.takeOutside
  return { s.emit .streamEnd with cursor := s.cursor.endLine }

def takeDirective (s : Lexer) : Option Lexer := do
  let s ← s.takeOutside
  let (t, c) ← readDirective s.cursor
  return { s.emit t with cursor := c }

def takeMark (t : Token) (s : Lexer) : Option Lexer := do return (← s.takeOutside).emitOver t 3

def takeOpening (t : Token) (s : Lexer) : Option Lexer := do
  let s ← s.saveKey
  return { s.emitOver t 1 with keyAllowed := true, key := none, outerKeys := s.key :: s.outerKeys }

def takeClosing (t : Token) (s : Lexer) : Option Lexer := do
  let s ← s.dropKey
  return { s.emitOver t 1 with
    keyAllowed := false
    key := s.outerKeys.headD s.key
    outerKeys := s.outerKeys.tail }

def takeFlowEntry (s : Lexer) : Option Lexer := do
  let s ← s.dropKey
  return { s.emitOver .flowEntry 1 with keyAllowed := true }

/-- Takes a dash. Outside brackets it begins an item, where a key might begin. -/
def takeBlockEntry (s : Lexer) : Option Lexer := do
  if !s.inFlow && !s.keyAllowed then none
  let s ← (s.openBlock s.cursor.column s.nextToken .blockSequenceStart).dropKey
  return { s.emitOver .blockEntry 1 with keyAllowed := true }

/-- Takes a question mark that begins a key. -/
def takeKey (s : Lexer) : Option Lexer := do
  if !s.inFlow && !s.keyAllowed then none
  let s ← (s.openBlock s.cursor.column s.nextToken .blockMappingStart).dropKey
  return { s.emitOver .key 1 with keyAllowed := !s.inFlow }

/-- Takes a colon. Behind a possible key it makes it one; otherwise its key is empty, or was marked
by a question mark. -/
def takeValue (s : Lexer) : Option Lexer :=
  match s.key with
  | some k =>
    let s := (s.insert k.token .key).openBlock k.column k.token .blockMappingStart
    some { s.emitOver .value 1 with key := none, keyAllowed := false }
  | none => do
    if !s.inFlow && !s.keyAllowed then none
    let s := s.openBlock s.cursor.column s.nextToken .blockMappingStart
    return { s.emitOver .value 1 with keyAllowed := !s.inFlow }

def takeAnchor (make : String → Token) (s : Lexer) : Option Lexer := do
  let s ← s.saveKey
  let (name, c) ← readAnchorName (s.cursor.advance 1)
  return { s.emit (make name) with cursor := c, keyAllowed := false }

def takeTag (s : Lexer) : Option Lexer := do
  let s ← s.saveKey
  let (t, c) ← readTag s.inFlow s.cursor
  return { s.emit t with cursor := c, keyAllowed := false }

/-- Takes a block scalar, behind which a key may begin. -/
def takeBlockScalar (style : Style) (s : Lexer) : Option Lexer := do
  let s ← s.dropKey
  let (text, c) ← readBlock style s.indent s.cursor
  return { s.emit (.scalar (String.ofList text) style) with cursor := c, keyAllowed := true }

def takeQuoted (style : Style) (s : Lexer) : Option Lexer := do
  let s ← s.saveKey
  let (text, c) ← readQuoted style s.cursor
  return { s.emit (.scalar (String.ofList text) style) with cursor := c, keyAllowed := false }

/-- Takes a plain scalar, which may be a key. Behind lines that ended after it a key may begin. -/
def takePlain (s : Lexer) : Option Lexer := do
  let s ← s.saveKey
  let (text, isBroken, c) ← readPlain s.inFlow (s.indent + 1).toNat s.cursor
  return { s.emit (.scalar (String.ofList text) .plain) with cursor := c, keyAllowed := isBroken }

def beginsPlain (inFlow : Bool) (x : Char) (next : Option Char) : Bool :=
  if x = '-' then !next.any isBlank
  else if x = '?' || x = ':' then !inFlow && !isSpaceOrEnd next
  else !isBlank x && !isBreak x && !",[]\x7b\x7d#&*!|>'\"%@\x60".contains x

def takeToken (s : Lexer) : Option Lexer :=
  let c := s.cursor
  let next := c.peek 1
  match c.rest with
  | [] => s.takeEnd
  | x :: _ =>
    if x = '%' && c.column = 0 then s.takeDirective
    else if c.atMark '-' then s.takeMark .documentStart
    else if c.atMark '.' then s.takeMark .documentEnd
    else if x = '[' then s.takeOpening .flowSequenceStart
    else if x = '{' then s.takeOpening .flowMappingStart
    else if x = ']' then s.takeClosing .flowSequenceEnd
    else if x = '}' then s.takeClosing .flowMappingEnd
    else if x = ',' then s.takeFlowEntry
    else if x = '-' && isSpaceOrEnd next then s.takeBlockEntry
    else if x = '?' && (s.inFlow || isSpaceOrEnd next) then s.takeKey
    else if x = ':' && (s.inFlow || isSpaceOrEnd next) then s.takeValue
    else if x = '*' then s.takeAnchor .alias
    else if x = '&' then s.takeAnchor .anchor
    else if x = '!' then s.takeTag
    else if x = '|' && !s.inFlow then s.takeBlockScalar .literal
    else if x = '>' && !s.inFlow then s.takeBlockScalar .folded
    else if x = '\'' then s.takeQuoted .singleQuoted
    else if x = '"' then s.takeQuoted .doubleQuoted
    else if beginsPlain s.inFlow x next then s.takePlain
    else none

/-- Goes on to the next token and takes it. Four characters are looked at to tell what it is, and
one behind it to tell where it ends; where the text is cut off, they have to be there. -/
def step (s : Lexer) : Option Lexer := do
  let s ← (skipToToken (s.cursor.rest.length + 1) s).refreshKeys
  if s.isCut && (s.cursor.peek 3).isNone then none
  let s ← (s.closeBlocks s.cursor.column).takeToken
  if s.isCut && s.cursor.atEnd then none
  return s

/-- Whether a key may yet begin in front of the first token that was not handed on. -/
def isHeldBack (s : Lexer) : Bool := (s.key :: s.outerKeys).any (·.any (·.token = s.handedOn))

/-- The tokens that are handed on, up to the end of the text or to where it is malformed. A turn
hands on a token or takes one more from the text. -/
def run : Nat → Lexer → List Token
  | 0, _ => []
  | turns + 1, s =>
    match s.queue with
    | [] => s.step.elim [] (run turns)
    | t :: queue =>
      match s.refreshKeys with
      | none => []
      | some s =>
        if s.isHeldBack then s.step.elim [] (run turns)
        else if t = .streamEnd then [t]
        else t :: run turns { s with queue := queue, handedOn := s.handedOn + 1 }

end Lexer

/-- The tokens of a text, up to where it is malformed; only those of a well-formed text end with
the end of the stream. Characters are checked piece by piece, as the text is read, so the tokens in
front of a piece that is refused are good. Each character makes up at most one step and, with the
keys and blocks that it opens and closes, at most four tokens. -/
def tokens (text : List Char) : List Token :=
  let (text, isCut) := admitted (text.length + 1) text
  (Lexer.start text isCut).run (5 * text.length + 10)

end CodeNav.Yaml
