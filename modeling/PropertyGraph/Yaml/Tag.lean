import PropertyGraph.Text.Digits
import PropertyGraph.Yaml.Cursor

/-! Tags of YAML texts. A tag is written as a handle, which stands for the beginning of an
address, and the rest of that address, or in full between angle brackets. An octet of an
address may be written as a percent sign and two hexadecimal digits. -/

namespace PropertyGraph.Yaml

def isNameChar (c : Char) : Bool := c.isAlphanum || c == '_' || c == '-'

structure Tag where
  /-- Empty where the address is written in full. -/
  handle : String
  suffix : String
deriving DecidableEq

/-! ### Addresses -/

def isAddressChar (full : Bool) (c : Char) : Bool :=
  isNameChar c || ";/?:@&=+$.!~*'()".toList.contains c || (full && ",[]".toList.contains c)

/-- The number of octets that follow the first one of a character. -/
def trailing? (lead : Nat) : Option Nat :=
  if lead < 0x80 then some 0
  else if lead < 0xc0 then none
  else if lead < 0xe0 then some 1
  else if lead < 0xf0 then some 2
  else if lead < 0xf8 then some 3
  else none

/-- The number of octets that are missing to a character after one more of them. -/
def dueAfter? (due octet : Nat) : Option Nat :=
  match due with
  | 0 => trailing? octet
  | due + 1 => if octet / 64 = 2 then some due else none

/-- The address at the front of a text, where octets that are written out stand for the
characters of the same numbers. A character that is begun in octets is ended in octets,
and `due` of them are missing. -/
def address? (full : Bool) : (due : Nat) → List Char → Option (List Char × List Char)
  | due, '%' :: a :: b :: s => do
    let octet := 16 * (← Digits.hexValue? a) + (← Digits.hexValue? b)
    let (address, rest) ← address? full (← dueAfter? due octet) s
    some (Char.ofNat octet :: address, rest)
  | 0, c :: s =>
    if c == '%' then none
    else if isAddressChar full c then (address? full 0 s).map fun r => (c :: r.1, r.2)
    else some ([], c :: s)
  | 0, [] => some ([], [])
  | _ + 1, _ => none

/-- What an address says: no more than comes before a null octet. -/
def addressText (address : List Char) : String :=
  String.ofList (address.takeWhile (· != Char.ofNat 0))

/-! ### Handles -/

/-- An exclamation mark, and a name behind it that another one may end. -/
def handle (s : List Char) : List Char × List Char :=
  let name := s.takeWhile isNameChar
  match s.drop name.length with
  | '!' :: rest => ('!' :: (name ++ ['!']), rest)
  | rest => ('!' :: name, rest)

def isNamedHandle (h : List Char) : Bool := 1 < h.length && h.getLast? == some '!'

/-- The handles that need no declaration. -/
def standardHandles : List (String × String) := [("!", "!"), ("!!", "tag:yaml.org,2002:")]

/-- The address that a tag stands for, if its handle is declared. -/
def Tag.address? (handles : List (String × String)) (t : Tag) : Option String :=
  if t.handle == "" then some t.suffix else (handles.lookup t.handle).map (· ++ t.suffix)

/-! ### Tags -/

/-- The tag that follows an exclamation mark. What is no named handle belongs to the
address, and a single exclamation mark is a tag of its own. -/
def tag? (s : List Char) : Option (Tag × List Char) :=
  match s with
  | '<' :: s => do
    match ← address? true 0 s with
    | (c :: address, '>' :: rest) => some (⟨"", addressText (c :: address)⟩, rest)
    | _ => none
  | s => do
    let (h, rest) := handle s
    let (address, rest) ← address? false 0 rest
    if isNamedHandle h then
      if address.isEmpty then none else some (⟨String.ofList h, addressText address⟩, rest)
    else
      let suffix := addressText (h.drop 1 ++ address)
      some (if suffix == "" then ⟨"", "!"⟩ else ⟨"!", suffix⟩, rest)

/-- The declaration of a handle: the handle and the address that it stands for. -/
def declaration? (s : List Char) : Option ((String × String) × List Char) :=
  match s with
  | '!' :: s => do
    let (h, rest) := handle s
    if 1 < h.length && !isNamedHandle h || !(rest.head?.any isSpace) then none
    else
      let (address, rest) ← address? true 0 (rest.dropWhile isSpace)
      if address.isEmpty || !atBlank rest then none
      else some ((String.ofList h, addressText address), rest)
  | _ => none

end PropertyGraph.Yaml
