/-! Positions in a YAML text: what is left of it and the column. -/

namespace PropertyGraph.Yaml

structure Cursor where
  rest : List Char
  column : Nat

/-- Characters that may stand in a YAML text. -/
def isPrintable (c : Char) : Bool :=
  let n := c.toNat
  n == 9 || n == 10 || n == 13 || (0x20 ≤ n && n ≤ 0x7e) || n == 0x85 ||
    (0xa0 ≤ n && n ≤ 0xfffd) || 0x10000 ≤ n

/-- Every line break that is spelled with control characters as a line feed. -/
def unifyBreaks : List Char → List Char
  | [] => []
  | '\r' :: '\n' :: s => '\n' :: unifyBreaks s
  | '\r' :: s => '\n' :: unifyBreaks s
  | c :: s => (if c.toNat = 0x85 then '\n' else c) :: unifyBreaks s

def isSpace (c : Char) : Bool := c == ' ' || c == '\t'

/-- Whether a character ends a line: a line feed, or the line separator and the paragraph
separator, which stay what they are where a scalar keeps its line breaks. -/
def isBreak (c : Char) : Bool := c == '\n' || c == '\u2028' || c == '\u2029'

/-- Whether nothing, a blank or a line break comes first. -/
def atBlank : List Char → Bool
  | [] => true
  | c :: _ => isSpace c || isBreak c

namespace Cursor

/-- After `n` characters of the line. -/
def skip (c : Cursor) (n : Nat) : Cursor := ⟨c.rest.drop n, c.column + n⟩

/-- Whether a line of three dashes or three dots starts here. -/
def atMarker (c : Cursor) : Bool :=
  c.column == 0 && match c.rest with
    | '-' :: '-' :: '-' :: s => atBlank s
    | '.' :: '.' :: '.' :: s => atBlank s
    | _ => false

/-- Up to the next content, over spaces, comments and line breaks; tabs are passed over
only where the line cannot start a block, and a byte order mark only where a line begins.
Tells whether a line was crossed. -/
def skipBlanks (flow : Bool) : (tabs crossed : Bool) → (column : Nat) → List Char → Cursor × Bool
  | _, crossed, column, [] => (⟨[], column⟩, crossed)
  | tabs, crossed, column, c :: s =>
    if c == ' ' || (tabs && c == '\t') || (column == 0 && c == '\ufeff') then
      skipBlanks flow tabs crossed (column + 1) s
    else if isBreak c then skipBlanks flow flow true 0 s
    else if c == '#' then skipComment flow tabs crossed s
    else (⟨c :: s, column⟩, crossed)
where
  /-- To the end of a comment, and on from there. -/
  skipComment (flow : Bool) : (tabs crossed : Bool) → List Char → Cursor × Bool
  | _, crossed, [] => (⟨[], 0⟩, crossed)
  | tabs, crossed, c :: s =>
    if isBreak c then skipBlanks flow flow true 0 s else skipComment flow tabs crossed s

/-- To the next content, inside brackets or not. -/
def toContent (c : Cursor) (flow tabs : Bool) : Cursor × Bool :=
  skipBlanks flow tabs false c.column c.rest

end Cursor

end PropertyGraph.Yaml
