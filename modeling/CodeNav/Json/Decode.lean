import CodeNav.Json.Parse
import CodeNav.Mismatch

/-!
# Decoding JSON

Values of the library are read from documents in one of two ways, which differ in the order of
errors. A plain structure is decoded along its text, so that an error in its fields comes before
any break further on. A tagged structure is first taken up whole, since its tag may come last; then
a break anywhere in it comes before an error in its fields, except for an error in the tag.

A structure is described by a `Shape`: its fields in declared order, each with a decoder. It is
written as an object, with its fields in any order and unknown ones left aside, or as an array of
its fields in declared order.
-/

namespace CodeNav.Json

inductive Fault where
  /-- The text is not JSON, or goes beyond its limits. -/
  | malformed
  /-- The document is not the one wanted. -/
  | mismatch (m : Mismatch)
deriving DecidableEq

/-- The fault in words, where they do not depend on a position in the text. -/
def Fault.message? : Fault → Option String
  | malformed => none
  | mismatch m => some ("JSON error: " ++ m.message "null")

/-! ## Limits -/

mutual

def isUnbroken : Json → Bool
  | broken => false
  | array items complete => complete && areUnbroken items
  | object fields complete => complete && haveUnbroken fields
  | _ => true

def areUnbroken : List Json → Bool
  | [] => true
  | v :: rest => isUnbroken v && areUnbroken rest

def haveUnbroken : List (Option String × Json) → Bool
  | [] => true
  | (_, v) :: rest => isUnbroken v && haveUnbroken rest

end

mutual

/-- The document can be taken up as a whole: it is unbroken, its literals spell texts, its numbers
have values, and it is nested less deep than `depth` levels. -/
def isSound (depth : Nat) : Json → Bool
  | broken | halfPair => false
  | number n => n.inRange
  | array items complete => complete && 1 < depth && areSound (depth - 1) items
  | object fields complete => complete && 1 < depth && haveSound (depth - 1) fields
  | _ => true

def areSound (depth : Nat) : List Json → Bool
  | [] => true
  | v :: rest => isSound depth v && areSound depth rest

def haveSound (depth : Nat) : List (Option String × Json) → Bool
  | [] => true
  | (key, v) :: rest => key.isSome && isSound depth v && haveSound depth rest

end

/-- The levels that a document taken up as a whole may have, its outermost one included, plus
one. -/
def depthLimit : Nat := 128

/-! ## Scalars -/

def found : Json → Except Fault Found
  | null => .ok .null
  | bool b => .ok (.boolean b)
  | number (.natural n) => .ok (.integer n)
  | number (.negative n) => .ok (.integer (-n))
  | number (.decimal isNegative significand exponent) =>
    match decimalSize? significand exponent with
    | some d => .ok (.float (Decimal.Layout.compact.render isNegative d))
    | none => .error .malformed
  | string s => .ok (.string s)
  | array .. => .ok .sequence
  | object .. => .ok .mapping
  | halfPair | broken => .error .malformed

def invalidType {α : Type} (expected : String) (j : Json) : Except Fault α := do
  .error (.mismatch (.invalidType (← found j) expected))

/-- An integer from zero to below `size`. -/
def decodeNat (size : Nat) (expected : String) : Json → Except Fault Nat
  | number (.natural n) =>
    if n < size then .ok n else .error (.mismatch (.invalidValue (.integer n) expected))
  | number (.negative n) => .error (.mismatch (.invalidValue (.integer (-n)) expected))
  | j => invalidType expected j

def decodeWord (j : Json) : Except Fault UInt32 :=
  (decodeNat UInt32.size "u32" j).map UInt32.ofNat

def decodeCount : Json → Except Fault Nat := decodeNat UInt64.size "usize"

def decodeString : Json → Except Fault String
  | string s => .ok s
  | j => invalidType "a string" j

def decodeBool : Json → Except Fault Bool
  | bool b => .ok b
  | j => invalidType "a boolean" j

def decodeOption {α : Type} (decode : Json → Except Fault α) : Json → Except Fault (Option α)
  | null => .ok none
  | j => (decode j).map some

def decodeItems {α : Type} (decode : Json → Except Fault α) : List Json → Except Fault (List α)
  | [] => .ok []
  | v :: rest => do
    let a ← decode v
    let as ← decodeItems decode rest
    return a :: as

def decodeList {α : Type} (decode : Json → Except Fault α) : Json → Except Fault (List α)
  | array items _ => decodeItems decode items
  | j => invalidType "a sequence" j

/-! ## Structures -/

/-- The fields of a structure in declared order, with what each has to be, and how the structure is
made of them. -/
structure Shape (α : Type) where
  fields : List (String × (Json → Except Fault Unit))
  build : (String → Option Json) → Except Fault α

namespace Shape

variable {α β : Type}

def field (name : String) (decode : Json → Except Fault α) (absent : Except Fault α) : Shape α :=
  { fields := [(name, fun j => (decode j).map fun _ => ())]
    build := fun get => (get name).elim absent decode }

def required (name : String) (decode : Json → Except Fault α) : Shape α :=
  field name decode (.error (.mismatch (.missingField name)))

/-- A field that may be null or absent. -/
def optional (name : String) (decode : Json → Except Fault α) : Shape (Option α) :=
  field name (decodeOption decode) (.ok none)

instance : Applicative Shape where
  pure a := ⟨[], fun _ => .ok a⟩
  seq f x :=
    let y := x ()
    { fields := f.fields ++ y.fields
      build := fun get => do
        let g ← f.build get
        let a ← y.build get
        return g a }

def elements (n : Nat) : String := if n = 1 then "1 element" else s!"{n} elements"

/-- Checks the fields of an object in the order of the text, `seen` being the names met so far. -/
def checkFields (s : Shape α) (seen : List String) :
    List (Option String × Json) → Except Fault Unit
  | [] => .ok ()
  | (none, _) :: _ => .error .malformed
  | (some key, v) :: rest =>
    match s.fields.lookup key with
    | some check =>
      if key ∈ seen then .error (.mismatch (.duplicateField key))
      else do
        check v
        checkFields s (key :: seen) rest
    | none => if v.isUnbroken then checkFields s seen rest else .error .malformed

def checkItems (tooFew tooMany : Fault) :
    List (String × (Json → Except Fault Unit)) → List Json → Except Fault Unit
  | [], [] => .ok ()
  | [], _ :: _ => .error tooMany
  | _ :: _, [] => .error tooFew
  | (_, check) :: fields, v :: items => do
    check v
    checkItems tooFew tooMany fields items

/-- How a document is decoded: along its text, or taken up as a whole. -/
inductive Mode where
  | alongText
  | asWhole
deriving DecidableEq

/-- Too many items: along the text it is a bracket that is missing. -/
def tooMany (mode : Mode) (length wanted : Nat) : Fault :=
  match mode with
  | .alongText => .malformed
  | .asWhole => .mismatch (.invalidLength length s!"{elements wanted} in sequence")

/-- Decodes a structure; `expected` names it in messages. -/
def decode (s : Shape α) (mode : Mode) (expected : String) : Json → Except Fault α
  | object fields complete => do
    s.checkFields [] fields
    if complete then s.build fun name => fields.lookup (some name) else .error .malformed
  | array items complete => do
    let wanted := s.fields.length
    let tooFew : Fault :=
      if complete then
        .mismatch (.invalidLength items.length s!"{expected} with {elements wanted}")
      else .malformed
    checkItems tooFew (tooMany mode items.length wanted) s.fields items
    if complete then s.build fun name => ((s.fields.map (·.1)).zip items).lookup name
    else .error .malformed
  | j => invalidType expected j

end Shape

/-! ## Names and tags -/

def checkVariant (names : List String) (s : String) : Except Fault String :=
  if s ∈ names then .ok s else .error (.mismatch (.unknownVariant s names))

def decodeVariant (names : List String) : Json → Except Fault String
  | string s => checkVariant names s
  | j => invalidType "variant identifier" j

/-- A name, or an object whose only key is the name and whose value is empty, in a document taken
up as a whole. -/
def decodeName (names : List String) : Json → Except Fault String
  | string s => checkVariant names s
  | object [(some key, v)] _ => do
    let s ← checkVariant names key
    match v with
    | null | object [] _ => .ok s
    | v => invalidType "unit" v
  | object _ _ => .error (.mismatch (.invalidValue .mapping "map with a single key"))
  | j => invalidType "string or map" j

/-- Looks for the tag among the fields of an object in the order of the text: the tag, and the
other fields. -/
def splitTag (tag : String) (names : List String) (complete : Bool) :
    Option String → List (Option String × Json) →
    Except Fault (String × List (Option String × Json))
  | variant, [] =>
    if complete then
      match variant with
      | some s => .ok (s, [])
      | none => .error (.mismatch (.missingField tag))
    else .error .malformed
  | _, (none, _) :: _ => .error .malformed
  | variant, (some key, v) :: rest =>
    if key = tag then
      if variant.isSome then .error (.mismatch (.duplicateField tag))
      else do
        let s ← decodeVariant names v
        splitTag tag names complete (some s) rest
    else if v.isSound (depthLimit - 1) then do
      let (s, others) ← splitTag tag names complete variant rest
      return (s, (some key, v) :: others)
    else .error .malformed

/-- Decodes a tagged structure: its tag, and a document of its other fields. In an array the tag
comes first. -/
def decodeTagged {α : Type} (tag expected : String) (names : List String)
    (body : String → Json → Except Fault α) : Json → Except Fault α
  | object fields complete => do
    let (s, others) ← splitTag tag names complete none fields
    body s (object others true)
  | array [] complete =>
    .error (if complete then .mismatch (.missingField tag) else .malformed)
  | array (v :: items) complete => do
    let s ← decodeVariant names v
    if complete && areSound (depthLimit - 1) items then body s (array items true)
    else .error .malformed
  | j => invalidType expected j

/-! ## Texts -/

def checkEnd {α : Type} (a : α) : Option (List Char) → Except Fault α
  | some rest => if skipBlanks rest = [] then .ok a else .error .malformed
  | none => .error .malformed

def decodeText {α : Type} (decode : Json → Except Fault α) (text : String) : Except Fault α := do
  let (j, rest) := read text.toList
  let a ← decode j
  checkEnd a rest

/-- Decodes a text that holds a name alone, or as the only key of an object with the value null. It
is decoded along the text. -/
def decodeNameText (names : List String) (text : String) : Except Fault String :=
  match skipBlanks text.toList with
  | '"' :: rest => do
    let (j, rest) := readString rest
    let s ← decodeVariant names j
    checkEnd s rest
  | '\x7b' :: rest =>
    match skipBlanks rest with
    | '"' :: rest => do
      let (key, rest) := readString rest
      let s ← decodeVariant names key
      match rest.map skipBlanks with
      | some (':' :: rest) =>
        let (v, rest) := read rest
        match v, rest.map skipBlanks with
        | null, some ('\x7d' :: rest) => checkEnd s (some rest)
        | null, _ => .error .malformed
        | v, _ => invalidType "unit" v
      | _ => .error .malformed
    | _ => .error .malformed
  | _ => .error .malformed

end CodeNav.Json
