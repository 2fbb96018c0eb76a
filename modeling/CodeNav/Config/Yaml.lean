import CodeNav.Config.Basic
import CodeNav.Text.Blank
import CodeNav.Yaml.Linked
import CodeNav.Yaml.Resolve

/-!
# Configuration in YAML

A configuration is a mapping of two mappings of switches. Everything may be left out, up to the
whole document; unknown and repeated keys are refused. The document is decoded along its text, so
that an error in its content comes before any malformed text behind it.
-/

namespace CodeNav.Config

open Yaml

inductive ReadFault where
  | notFound
  | isDirectory
  | notDirectory
  | notUnicode
deriving DecidableEq

def ReadFault.message : ReadFault → String
  | notFound => "No such file or directory (os error 2)"
  | isDirectory => "Is a directory (os error 21)"
  | notDirectory => "Not a directory (os error 20)"
  | notUnicode => "stream did not contain valid UTF-8"

inductive Fault where
  /-- The text is not YAML, or not a single document. -/
  | malformed
  /-- The value at a path of keys is not the one wanted. -/
  | mismatch (path : List String) (m : Mismatch)
  /-- The file cannot be read. -/
  | unreadable (file : String) (cause : ReadFault)
deriving DecidableEq

/-- The fault in words, where they do not depend on a position in the text. -/
def Fault.message? : Fault → Option String
  | malformed => none
  | mismatch path m =>
    let place := if path.isEmpty then "" else ".".intercalate path ++ ": "
    some ("configuration error: " ++ place ++ m.message "unit value")
  | unreadable file cause => some s!"configuration error: {file}: {cause.message}"

/-! ## Values -/

/-- A decoder of the value that begins with an event: the value, and what follows it. -/
abbrev Decoder (α : Type) := Yaml.Event → List Entry → Except Fault (α × List Entry)

/-- Decodes the next value, which may be given by an alias. -/
def next {α : Type} (d : Linked) (decode : Decoder α) :
    List Entry → Except Fault (α × List Entry)
  | .event e :: rest => decode e rest
  | .alias number :: rest =>
    match d.target number with
    | .event e :: inner => (decode e inner).map fun r => (r.1, rest)
    | _ => .error .malformed
  | [] => .error .malformed

def unexpected {α : Type} (path : List String) (expected : String) : Yaml.Event → Except Fault α
  | .scalar _ tag text style => .error (.mismatch path (scalarMismatch tag text style expected))
  | .sequenceStart .. => .error (.mismatch path (.invalidType .sequence expected))
  | .mappingStart .. => .error (.mismatch path (.invalidType .mapping expected))
  | .alias _ | .sequenceEnd | .mappingEnd => .error .malformed

def decodeSwitch (path : List String) : Decoder Bool
  | .scalar anchor tag text style, rest =>
    match scalarBoolean? tag text style with
    | some b => .ok (b, rest)
    | none => unexpected path "a boolean" (.scalar anchor tag text style)
  | e, _ => unexpected path "a boolean" e

def decodeKey (path : List String) : Decoder String
  | .scalar _ _ text _, rest => .ok (text, rest)
  | e, _ => unexpected path "field identifier" e

/-! ## Mappings -/

/-- How a mapping is decoded into values of a type: its keys, and what each does to a value. -/
structure Fields (α : Type) where
  names : List String
  read : Linked → List String → String → α → List Entry → Except Fault (α × List Entry)

/-- The part of a path that a key adds. A key that is given by an alias is not shown. -/
def stepOf : List Entry → String
  | .event (.scalar _ _ text _) :: _ => text
  | _ => "?"

/-- Decodes the rest of a mapping, `seen` being the keys so far. Each turn takes a key, so the
number of entries bounds the number of turns. -/
def decodeFields {α : Type} (fields : Fields α) (d : Linked) (path : List String) :
    Nat → List String → α → List Entry → Except Fault (α × List Entry)
  | 0, _, _, _ => .error .malformed
  | turns + 1, seen, a, entries =>
    match entries with
    | .event .mappingEnd :: rest => .ok (a, rest)
    | entries => do
      let (name, rest) ← next d (decodeKey path) entries
      if name ∉ fields.names then .error (.mismatch path (.unknownField name fields.names))
      else if name ∈ seen then .error (.mismatch path (.duplicateField name))
      else do
        let (a, rest) ← fields.read d (path ++ [stepOf entries]) name a rest
        decodeFields fields d path turns (name :: seen) a rest

/-- Decodes a mapping; a missing one is the default. -/
def decodeMapping {α : Type} (fields : Fields α) (default : α) (expected : String) (d : Linked)
    (path : List String) : Decoder α
  | .mappingStart .., rest => decodeFields fields d path (rest.length + 1) [] default rest
  | .scalar anchor tag text style, rest =>
    if text = "" ∧ style = .plain then .ok (default, rest)
    else unexpected path expected (.scalar anchor tag text style)
  | e, _ => unexpected path expected e

def readSwitch {α : Type} (set : Bool → α) (d : Linked) (path : List String)
    (entries : List Entry) : Except Fault (α × List Entry) :=
  (next d (decodeSwitch path) entries).map fun r => (set r.1, r.2)

def toggleFields : Fields Toggles where
  names := ["definitions", "references", "hover", "implementations"]
  read d path name c entries :=
    if name = "definitions" then readSwitch (fun b => { c with definitions := b }) d path entries
    else if name = "references" then
      readSwitch (fun b => { c with references := b }) d path entries
    else if name = "hover" then readSwitch (fun b => { c with hover := b }) d path entries
    else readSwitch (fun b => { c with implementations := b }) d path entries

def hoverFields : Fields HoverOptions where
  names := ["show_supertypes"]
  read d path _ _ entries := readSwitch HoverOptions.mk d path entries

def configFields : Fields Config where
  names := ["facts", "hover"]
  read d path name c entries :=
    if name = "facts" then
      (next d (decodeMapping toggleFields .default "struct FactToggles" d path) entries).map
        fun r => ({ c with facts := r.1 }, r.2)
    else
      (next d (decodeMapping hoverFields .default "struct HoverConfig" d path) entries).map
        fun r => ({ c with hover := r.1 }, r.2)

/-! ## Texts -/

/-- Reads a configuration. A text of white space alone is the default. -/
def ofYaml (text : String) : Except Fault Config :=
  if Text.isBlank text then .ok .default
  else do
    let d := Linked.ofDocument (.ofText text.toList)
    let (c, _) ← next d (decodeMapping configFields .default "struct IndexerConfig" d []) d.entries
    if d.whole then return c else .error .malformed

def ofFile (file : String) (contents : Except ReadFault ByteArray) : Except Fault Config :=
  match contents with
  | .error cause => .error (.unreadable file cause)
  | .ok bytes =>
    match String.fromUTF8? bytes with
    | some text => ofYaml text
    | none => .error (.unreadable file .notUnicode)

def toYaml (c : Config) : String :=
  let line (indent key : String) (b : Bool) := s!"{indent}{key}: {b}\n"
  "facts:\n" ++ line "  " "definitions" c.facts.definitions ++
    line "  " "references" c.facts.references ++ line "  " "hover" c.facts.hover ++
    line "  " "implementations" c.facts.implementations ++
    "hover:\n" ++ line "  " "show_supertypes" c.hover.showSupertypes

end CodeNav.Config
