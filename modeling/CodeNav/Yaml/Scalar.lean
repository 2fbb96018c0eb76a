import CodeNav.Yaml.Cursor

/-!
# Scalars of YAML

How the text of a scalar is read: plain, between single or double quotes, and in blocks that keep
or fold their lines. Within a scalar, the blanks and line breaks between two words form a gap; a
gap on one line stands for itself, and a gap with line breaks is folded. A reader yields nothing
where the text is malformed.

Each step of a reader goes on by at least one character, so the length of the text bounds the
number of steps.
-/

namespace CodeNav.Yaml

inductive Style where
  | plain
  | singleQuoted
  | doubleQuoted
  | literal
  | folded
deriving DecidableEq

/-! ## Gaps -/

/-- What lies between two words: blanks on the line of the first, or line breaks. The text of the
first break is kept apart from that of the others. -/
structure Gap where
  blanks : List Char
  isBroken : Bool
  firstBreak : List Char
  otherBreaks : List Char
deriving DecidableEq

namespace Gap

def empty : Gap := ⟨[], false, [], []⟩

/-- Nothing between, at a line break that was escaped. -/
def escapedBreak : Gap := ⟨[], true, [], []⟩

/-- The text of a gap. A single line feed becomes a blank, and of several the first is dropped. -/
def text (g : Gap) : List Char :=
  if g.isBroken then
    if g.firstBreak = ['\n'] then (if g.otherBreaks = [] then [' '] else g.otherBreaks)
    else g.firstBreak ++ g.otherBreaks
  else g.blanks

def withBreak (g : Gap) (br : List Char) : Gap :=
  if g.isBroken then { g with otherBreaks := g.otherBreaks ++ br }
  else ⟨[], true, br, g.otherBreaks⟩

end Gap

/-- Reads on through a gap. On its lines a tab may not stand left of the column `indent`. -/
def readGap (indent : Nat) : Nat → Gap → Cursor → Option (Gap × Cursor)
  | 0, g, c => some (g, c)
  | steps + 1, g, c =>
    match c.rest with
    | [] => some (g, c)
    | x :: _ =>
      if isBlank x then
        if g.isBroken then
          if x = '\t' && c.column < indent then none
          else readGap indent steps g (c.advance 1)
        else readGap indent steps { g with blanks := g.blanks ++ [x] } (c.advance 1)
      else if isBreak x then readGap indent steps (g.withBreak c.breakText) c.skipBreak
      else some (g, c)

/-! ## Plain scalars -/

def isFlowIndicator (c : Char) : Bool :=
  c = ',' || c = '[' || c = ']' || c = '{' || c = '}'

/-- The word of a plain scalar that begins here. A colon ends it before a blank; inside brackets an
indicator ends it too, and a colon may not stand before one. -/
def plainWord (inFlow : Bool) : List Char → Option (List Char)
  | [] => some []
  | x :: rest =>
    if isBlank x || isBreak x then some []
    else if x = ':' && inFlow && rest.head?.any (fun y => isFlowIndicator y || y = '?') then none
    else if x = ':' && isSpaceOrEnd rest.head? then some []
    else if inFlow && isFlowIndicator x then some []
    else (plainWord inFlow rest).map (x :: ·)

/-- Reads on in a plain scalar, `text` and `gap` being what was read so far. Outside brackets its
lines have to be indented by `indent`. The result has the gap behind the last word. -/
def readPlainOn (inFlow : Bool) (indent : Nat) :
    Nat → List Char → Gap → Cursor → Option (List Char × Gap × Cursor)
  | 0, text, gap, c => some (text, gap, c)
  | steps + 1, text, gap, c =>
    if c.atDocumentMark || c.at? '#' then some (text, gap, c)
    else do
      let word ← plainWord inFlow c.rest
      let (text, gap) := if word = [] then (text, gap) else (text ++ gap.text ++ word, .empty)
      let c := c.advance word.length
      if c.atEnd || !isSpaceOrEnd (c.peek 0) then return (text, gap, c)
      let (gap, c) ← readGap indent c.rest.length gap c
      if !inFlow && c.column < indent then return (text, gap, c)
      readPlainOn inFlow indent steps text gap c

/-- Reads a plain scalar: its text, whether lines were ended behind it, and where it ends. -/
def readPlain (inFlow : Bool) (indent : Nat) (c : Cursor) : Option (List Char × Bool × Cursor) := do
  let (text, gap, c) ← readPlainOn inFlow indent (c.rest.length + 1) [] .empty c
  return (text, gap.isBroken, c)

/-! ## Quoted scalars -/

def escaped? : Char → Option Char
  | '0' => some '\x00'
  | 'a' => some '\x07'
  | 'b' => some '\x08'
  | 't' | '\t' => some '\t'
  | 'n' => some '\n'
  | 'v' => some '\x0b'
  | 'f' => some '\x0c'
  | 'r' => some '\r'
  | 'e' => some '\x1b'
  | ' ' => some ' '
  | '"' => some '"'
  | '/' => some '/'
  | '\\' => some '\\'
  | 'N' => some '\u0085'
  | '_' => some '\u00a0'
  | 'L' => some '\u2028'
  | 'P' => some '\u2029'
  | _ => none

def escapeWidth? : Char → Option Nat
  | 'x' => some 2
  | 'u' => some 4
  | 'U' => some 8
  | _ => none

def hexDigit? (c : Char) : Option Nat :=
  if c.isDigit then some (c.toNat - '0'.toNat)
  else if 'a' ≤ c ∧ c ≤ 'f' then some (c.toNat - 'a'.toNat + 10)
  else if 'A' ≤ c ∧ c ≤ 'F' then some (c.toNat - 'A'.toNat + 10)
  else none

def hexNumber? (cs : List Char) : Option Nat :=
  cs.foldlM (fun n c => (hexDigit? c).map (n * 16 + ·)) 0

def charOfCode? (n : Nat) : Option Char :=
  if 0xD800 ≤ n ∧ n ≤ 0xDFFF ∨ 0x10FFFF < n then none else some (Char.ofNat n)

/-- What a backslash and the characters behind it stand for, and how many characters that is. -/
def readEscape (rest : List Char) : Option (Char × Nat) :=
  match rest with
  | _ :: e :: digits =>
    match escaped? e, escapeWidth? e with
    | some x, _ => some (x, 2)
    | none, some width =>
      if digits.length < width then none
      else do
        let x ← charOfCode? (← hexNumber? (digits.take width))
        return (x, width + 2)
    | none, none => none
  | _ => none

/-- Reads a word between quotes: its text, whether an escaped line break ends it, and what
follows. -/
def quotedWord (style : Style) : Nat → Cursor → Option (List Char × Bool × Cursor)
  | 0, c => some ([], false, c)
  | steps + 1, c =>
    match style, c.rest with
    | .singleQuoted, '\'' :: '\'' :: _ => do
      let (word, esc, c) ← quotedWord style steps (c.advance 2)
      return ('\'' :: word, esc, c)
    | .singleQuoted, '\'' :: _ => some ([], false, c)
    | .doubleQuoted, '"' :: _ => some ([], false, c)
    | .doubleQuoted, '\\' :: rest =>
      if rest.head?.any isBreak then some ([], true, (c.advance 1).skipBreak)
      else do
        let (x, n) ← readEscape c.rest
        let (word, esc, c) ← quotedWord style steps (c.advance n)
        return (x :: word, esc, c)
    | _, [] => some ([], false, c)
    | _, x :: _ =>
      if isBlank x || isBreak x then some ([], false, c)
      else do
        let (word, esc, c) ← quotedWord style steps (c.advance 1)
        return (x :: word, esc, c)

def closingQuote : Style → Char
  | .singleQuoted => '\''
  | _ => '"'

/-- Reads on between quotes. No line may begin with a document mark. -/
def readQuotedOn (style : Style) : Nat → List Char → Cursor → Option (List Char × Cursor)
  | 0, _, _ => none
  | steps + 1, text, c =>
    if c.atDocumentMark || c.atEnd then none
    else do
      let (word, atEscapedBreak, c) ← quotedWord style (c.rest.length + 1) c
      let text := text ++ word
      if c.at? (closingQuote style) then return (text, c.advance 1)
      let gap := if atEscapedBreak then .escapedBreak else .empty
      let (gap, c) ← readGap 0 c.rest.length gap c
      readQuotedOn style steps (text ++ gap.text) c

def readQuoted (style : Style) (c : Cursor) : Option (List Char × Cursor) :=
  readQuotedOn style (c.rest.length + 1) [] (c.advance 1)

/-! ## Block scalars -/

/-- What becomes of the line breaks at the end of a block. -/
inductive Chomping where
  | strip
  | clip
  | keep
deriving DecidableEq

def chompingOf? : Char → Option Chomping
  | '+' => some .keep
  | '-' => some .strip
  | _ => none

def readIndentDigit (c : Cursor) : Option (Nat × Cursor) :=
  match c.rest with
  | x :: _ =>
    if x.isDigit then if x = '0' then none else some (x.toNat - '0'.toNat, c.advance 1)
    else some (0, c)
  | [] => some (0, c)

/-- Reads the chomping sign and the indentation digit of a block, in either order; the digit is
zero if there is none. -/
def readBlockHeader (c : Cursor) : Option (Chomping × Nat × Cursor) :=
  match c.rest.head?.bind chompingOf? with
  | some chomping => do
    let (digit, c) ← readIndentDigit (c.advance 1)
    return (chomping, digit, c)
  | none => do
    let (digit, c) ← readIndentDigit c
    if digit = 0 then return (.clip, 0, c)
    match c.rest.head?.bind chompingOf? with
    | some chomping => return (chomping, digit, c.advance 1)
    | none => return (.clip, digit, c)

/-- Reads empty lines of a block, and the indentation of the next line: the text of their breaks,
and the widest indentation met. While `indent` is zero, the indentation is not known yet. -/
def readBlockBreaks (indent : Nat) : Nat → Nat → Cursor → Option (List Char × Nat × Cursor)
  | 0, widest, c => some ([], widest, c)
  | steps + 1, widest, c =>
    let spaces := (c.takeWhile (· = ' ')).length
    let c := c.advance (if indent = 0 then spaces else min spaces (indent - c.column))
    let widest := max widest c.column
    if (indent = 0 || c.column < indent) && c.at? '\t' then none
    else if c.next? isBreak then do
      let (breaks, widest, c') ← readBlockBreaks indent steps widest c.skipBreak
      return (c.breakText ++ breaks, widest, c')
    else some ([], widest, c)

/-- The indentation of a block whose header gives none: that of its widest leading line, and more
than that of the structure around it. -/
def detectIndent (outer : Int) (widest : Nat) : Nat := max (max widest (outer + 1).toNat) 1

/-- Reads the lines of a block. `lastBreak` and `breaks` are the line breaks before the line, and
`afterBlank` says that the line before began with a blank; around such lines nothing is folded. -/
def readBlockLines (style : Style) (indent : Nat) :
    Nat → List Char → List Char → List Char → Bool → Cursor →
    Option (List Char × List Char × List Char × Cursor)
  | 0, text, lastBreak, breaks, _, c => some (text, lastBreak, breaks, c)
  | steps + 1, text, lastBreak, breaks, afterBlank, c =>
    if c.column = indent && !c.atEnd then do
      let beginsBlank := c.next? isBlank
      let join :=
        if style = .folded && lastBreak = ['\n'] && !afterBlank && !beginsBlank then
          if breaks = [] then [' '] else []
        else lastBreak
      let line := c.takeWhile fun x => !isBreak x
      let c := c.skipLine
      let (breaks', _, c') ← readBlockBreaks indent (c.rest.length + 1) 0 c.skipBreak
      readBlockLines style indent steps (text ++ join ++ breaks ++ line) c.breakText breaks'
        beginsBlank c'
    else some (text, lastBreak, breaks, c)

/-- Reads a block scalar, from its indicator on, inside a structure indented by `outer`, which is
negative outside of any. -/
def readBlock (style : Style) (outer : Int) (c : Cursor) : Option (List Char × Cursor) := do
  let (chomping, digit, c) ← readBlockHeader (c.advance 1)
  let c := c.skipComment
  if !isBreakOrEnd (c.peek 0) then none
  let given := if digit = 0 then 0 else outer.toNat + digit
  let c := c.skipBreak
  let (breaks, widest, c) ← readBlockBreaks given (c.rest.length + 1) 0 c
  let indent := if given = 0 then detectIndent outer widest else given
  let (text, lastBreak, breaks, c) ←
    readBlockLines style indent (c.rest.length + 1) [] [] breaks false c
  match chomping with
  | .strip => return (text, c)
  | .clip => return (text ++ lastBreak, c)
  | .keep => return (text ++ lastBreak ++ breaks, c)

end CodeNav.Yaml
