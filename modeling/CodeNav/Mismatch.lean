import CodeNav.Text.Display

/-!
# Mismatches

What is wrong with a well-formed document that is not the document wanted. JSON and YAML share the
causes and their wording, apart from the word for the null value.
-/

namespace CodeNav

/-- What a document has where something else is wanted. A floating-point number is given by its
text, and an integer of more than 64 bits with the type that holds it. -/
inductive Found where
  | null
  | boolean (b : Bool)
  | integer (i : Int)
  | wideInteger (i : Int) (type : String)
  | float (text : String)
  | string (s : String)
  | sequence
  | mapping
deriving DecidableEq

def Found.text (nullWord : String) : Found → String
  | null => nullWord
  | boolean b => s!"boolean `{b}`"
  | integer i => s!"integer `{i}`"
  | wideInteger i type => s!"integer `{i}` as {type}"
  | float text => s!"floating point `{text}`"
  | string s => s!"string {Text.display s}"
  | sequence => "sequence"
  | mapping => "map"

inductive Mismatch where
  | invalidType (found : Found) (expected : String)
  | invalidValue (found : Found) (expected : String)
  | invalidLength (length : Nat) (expected : String)
  | missingField (name : String)
  | duplicateField (name : String)
  | unknownField (name : String) (known : List String)
  | unknownVariant (name : String) (known : List String)
deriving DecidableEq

def oneOf (names : List String) : String :=
  match names.map fun n => s!"`{n}`" with
  | [] => "nothing"
  | [a] => a
  | [a, b] => s!"{a} or {b}"
  | quoted => "one of " ++ ", ".intercalate quoted

def Mismatch.message (nullWord : String) : Mismatch → String
  | invalidType found expected => s!"invalid type: {found.text nullWord}, expected {expected}"
  | invalidValue found expected => s!"invalid value: {found.text nullWord}, expected {expected}"
  | invalidLength length expected => s!"invalid length {length}, expected {expected}"
  | missingField name => s!"missing field `{name}`"
  | duplicateField name => s!"duplicate field `{name}`"
  | unknownField name known => s!"unknown field `{name}`, expected {oneOf known}"
  | unknownVariant name known => s!"unknown variant `{name}`, expected {oneOf known}"

end CodeNav
