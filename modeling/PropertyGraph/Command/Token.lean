import PropertyGraph.Text.Blank
import PropertyGraph.Text.Digits

/-! Tokens of command texts. Every token may have blanks in front of it. Keywords are
read in any letter case and end where the word ends; any word may serve as a name. -/

namespace PropertyGraph.Token

def isWordStart (c : Char) : Bool := c.isAlpha || c == '_'

def isWordChar (c : Char) : Bool := c.isAlphanum || c == '_'

/-- What follows a text in upper case, whatever case it is written in. -/
def afterFolded? : List Char → List Char → Option (List Char)
  | [], s => some s
  | _ :: _, [] => none
  | w :: ws, c :: s => if c.toUpper = w then afterFolded? ws s else none

/-- Whether a word ends here. -/
def atWordEnd : List Char → Bool
  | [] => true
  | c :: _ => !isWordChar c

def keyword? (w : String) (s : List Char) : Option (List Char) := do
  let rest ← afterFolded? w.toList (Blank.skip s)
  if atWordEnd rest then some rest else none

def symbol? (w : String) (s : List Char) : Option (List Char) :=
  w.toList.isPrefixOf? (Blank.skip s)

/-- A word that starts right here. -/
def wordHere? : List Char → Option (String × List Char)
  | [] => none
  | c :: s =>
    if isWordStart c then
      some (String.ofList (c :: s.takeWhile isWordChar), s.dropWhile isWordChar)
    else none

def word? (s : List Char) : Option (String × List Char) := wordHere? (Blank.skip s)

def digits? (s : List Char) : Option (List Char × List Char) := Digits.split? (Blank.skip s)

/-! ### Quoted text -/

/-- The character that a backslash and `c` stand for. -/
def unescape : Char → Char
  | 'n' => '\n'
  | 't' => '\t'
  | 'r' => '\r'
  | c => c

/-- The text up to a quote, and what follows the quote. -/
def untilQuote (quote : Char) : List Char → Option (List Char × List Char)
  | [] => none
  | '\\' :: c :: s => (untilQuote quote s).map fun r => (unescape c :: r.1, r.2)
  | c :: s =>
    if c = quote then some ([], s)
    else if c = '\\' then none
    else (untilQuote quote s).map fun r => (c :: r.1, r.2)

/-- A text between two quotes of either kind. -/
def quoted? (s : List Char) : Option (String × List Char) :=
  match Blank.skip s with
  | '"' :: s => (untilQuote '"' s).map fun r => (String.ofList r.1, r.2)
  | '\'' :: s => (untilQuote '\'' s).map fun r => (String.ofList r.1, r.2)
  | _ => none

/-- One character between double quotes. -/
def escape (c : Char) : List Char := if c = '"' ∨ c = '\\' then ['\\', c] else [c]

/-- A text between double quotes; the quote and the backslash are escaped. -/
def quote (s : List Char) : List Char := '"' :: (s.flatMap escape ++ ['"'])

/-- A path that is not quoted ends at a blank or a semicolon. -/
def isPathChar (c : Char) : Bool := !Blank.isBlank c && c != ';'

def barePath? (s : List Char) : Option (String × List Char) :=
  let s := Blank.skip s
  match s.takeWhile isPathChar with
  | [] => none
  | path => some (String.ofList path, s.dropWhile isPathChar)

/-- A quoted text, or else a bare path. -/
def path? (s : List Char) : Option (String × List Char) := (quoted? s).or (barePath? s)

end PropertyGraph.Token
