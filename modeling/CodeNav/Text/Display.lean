import CodeNav.Text.Hidden

/-!
# Quoted display of text

Text between double quotes, for messages and displays: a quote or backslash is escaped, as are the
line ends, the tab and the zero character, and a character that is not shown by itself is written
with its code point.
-/

namespace CodeNav.Text

/-- The code point of a character in hexadecimal, between braces. -/
def escapeCodePoint (c : Char) : List Char :=
  '\\' :: 'u' :: '\x7b' :: Nat.toDigits 16 c.toNat ++ ['\x7d']

def displayChar (c : Char) : List Char :=
  match c with
  | '"' => ['\\', '"']
  | '\\' => ['\\', '\\']
  | '\n' => ['\\', 'n']
  | '\r' => ['\\', 'r']
  | '\t' => ['\\', 't']
  | '\x00' => ['\\', '0']
  | _ => if isHidden c then escapeCodePoint c else [c]

def display (s : String) : String := String.ofList ('"' :: s.toList.flatMap displayChar ++ ['"'])

end CodeNav.Text
