import PropertyGraph.Json
import PropertyGraph.Double.Numeral

/-! JSON values as text. The compact layout has no blanks; the pretty one puts every
item on a line of its own, indented by two spaces a level, and keeps empty arrays
and objects on one line. Besides the quote and the backslash only control
characters are escaped. -/

namespace PropertyGraph.Json

inductive Layout where
  | compact
  | pretty
deriving DecidableEq, Repr

def hexDigit (n : Nat) : Char := Nat.digitChar n

/-- One character of a string. -/
def escape (c : Char) : List Char :=
  match c with
  | '"' => ['\\', '"']
  | '\\' => ['\\', '\\']
  | '\n' => ['\\', 'n']
  | '\r' => ['\\', 'r']
  | '\t' => ['\\', 't']
  | c =>
    if c.toNat = 8 then ['\\', 'b']
    else if c.toNat = 12 then ['\\', 'f']
    else if c.toNat < 32 then
      ['\\', 'u', '0', '0', hexDigit (c.toNat / 16), hexDigit (c.toNat % 16)]
    else [c]

def quoted (s : String) : List Char := '"' :: (s.toList.flatMap escape ++ ['"'])

def numberChars : JsonNumber → List Char
  | .integer n => Digits.ofInt n
  | .float x => (Double.documentFormat.write x).toList

namespace Layout

/-- What separates the items of an array or object at this depth. -/
def newline (layout : Layout) (depth : Nat) : List Char :=
  match layout with
  | .compact => []
  | .pretty => '\n' :: List.replicate (2 * depth) ' '

def colon : Layout → List Char
  | .compact => [':']
  | .pretty => [':', ' ']

mutual

def chars (layout : Layout) (depth : Nat) : Json → List Char
  | .null => "null".toList
  | .boolean true => "true".toList
  | .boolean false => "false".toList
  | .number n => numberChars n
  | .string s => quoted s
  | .array [] => ['[', ']']
  | .array (x :: xs) =>
    '[' :: (layout.newline (depth + 1) ++ chars layout (depth + 1) x ++
      itemsChars layout (depth + 1) xs ++ layout.newline depth ++ [']'])
  | .object [] => ['{', '}']
  | .object ((k, x) :: ms) =>
    '{' :: (layout.newline (depth + 1) ++ quoted k ++ layout.colon ++
      chars layout (depth + 1) x ++ membersChars layout (depth + 1) ms ++
      layout.newline depth ++ ['}'])

/-- The items after the first. -/
def itemsChars (layout : Layout) (depth : Nat) : List Json → List Char
  | [] => []
  | x :: xs =>
    ',' :: (layout.newline depth ++ chars layout depth x ++ itemsChars layout depth xs)

def membersChars (layout : Layout) (depth : Nat) : List (String × Json) → List Char
  | [] => []
  | (k, x) :: ms =>
    ',' :: (layout.newline depth ++ quoted k ++ layout.colon ++ chars layout depth x ++
      membersChars layout depth ms)

end

end Layout

def write (layout : Layout) (j : Json) : String := String.ofList (layout.chars 0 j)

def compact (j : Json) : String := j.write .compact

def pretty (j : Json) : String := j.write .pretty

end PropertyGraph.Json
