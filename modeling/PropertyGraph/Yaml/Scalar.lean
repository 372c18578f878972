import PropertyGraph.Text.Digits
import PropertyGraph.Yaml.Cursor

/-! Scalars of YAML texts: plain, quoted and block scalars. Inside a plain or quoted
scalar one line feed is read as a space and several as one less. -/

namespace PropertyGraph.Yaml

/-- The text of a scalar, where it ends, and whether line breaks were passed after it. -/
structure Scanned where
  text : List Char
  after : Cursor
  broken : Bool

def Scanned.cons (c : Char) (x : Scanned) : Scanned := { x with text := c :: x.text }

/-- Blanks and line breaks between two parts of a scalar. -/
structure Gap where
  /-- The blanks before the first line break. -/
  spaces : List Char
  breaks : List Char
  after : Cursor

/-- What a gap is read as. -/
def Gap.fill (g : Gap) : List Char :=
  match g.breaks with
  | [] => g.spaces
  | ['\n'] => [' ']
  | '\n' :: more => more
  | breaks => breaks

/-- The gap at the front of a text. A tab may not stand in for the indentation of a
line. -/
def gap? (indent : Nat) : (spaces breaks : List Char) → (column : Nat) → List Char → Option Gap
  | spaces, breaks, column, [] => some ⟨spaces, breaks, ⟨[], column⟩⟩
  | spaces, breaks, column, c :: s =>
    if isBreak c then gap? indent spaces (breaks ++ [c]) 0 s
    else if isSpace c then
      if breaks.isEmpty then gap? indent (spaces ++ [c]) breaks (column + 1) s
      else if c == '\t' && decide (column < indent) then none
      else gap? indent spaces breaks (column + 1) s
    else some ⟨spaces, breaks, ⟨c :: s, column⟩⟩

def Cursor.gap? (c : Cursor) (indent : Nat) : Option Gap := Yaml.gap? indent [] [] c.column c.rest

/-! ### Plain scalars -/

def isFlowIndicator (c : Char) : Bool :=
  c == ',' || c == '[' || c == ']' || c == '\x7b' || c == '\x7d'

/-- Whether a plain scalar can start here. -/
def canStartPlain (flow : Bool) : List Char → Bool
  | [] => false
  | c :: s =>
    if c == '-' then !(s.head?.any isSpace)
    else if c == '?' || c == ':' then !flow && !atBlank s
    else !(isSpace c || isBreak c || isFlowIndicator c || "#&*!|>'\"%@`".toList.contains c)

/-- Characters up to a blank or an indicator that ends a plain scalar. Inside brackets a
colon may not stand right before an indicator. -/
def plainPart? (flow : Bool) : List Char → Option (List Char × List Char)
  | [] => some ([], [])
  | c :: s =>
    if isSpace c || isBreak c then some ([], c :: s)
    else if flow && c == ':' && s.head?.any (fun d => d == '?' || isFlowIndicator d) then none
    else if (c == ':' && atBlank s) || (flow && isFlowIndicator c) then some ([], c :: s)
    else (plainPart? flow s).map fun r => (c :: r.1, r.2)

/-- A plain scalar. In a block its further lines are indented by `indent` at least. -/
def plain? (flow : Bool) (indent : Nat) : Nat → Cursor → Option Scanned
  | 0, _ => none
  | fuel + 1, c =>
    if c.atMarker || c.rest.head? == some '#' then some ⟨[], c, false⟩
    else do
      match ← plainPart? flow c.rest with
      | ([], _) => some ⟨[], c, false⟩
      | (part, rest) =>
        let gap ← Cursor.gap? ⟨rest, c.column + part.length⟩ indent
        let broken := !gap.breaks.isEmpty
        if broken && !flow && gap.after.column < indent then some ⟨part, gap.after, true⟩
        else
          let more ← plain? flow indent fuel gap.after
          if more.text.isEmpty then some ⟨part, more.after, broken⟩
          else some ⟨part ++ gap.fill ++ more.text, more.after, more.broken⟩

/-! ### Quoted scalars -/

/-- The rest of a single-quoted scalar; two quotes stand for one. -/
def singleQuoted? : Nat → Cursor → Option Scanned
  | 0, _ => none
  | fuel + 1, c =>
    if c.atMarker then none
    else match c.rest with
      | [] => none
      | '\'' :: '\'' :: _ => (singleQuoted? fuel (c.skip 2)).map (.cons '\'')
      | '\'' :: _ => some ⟨[], c.skip 1, false⟩
      | x :: _ =>
        if isSpace x || isBreak x then do
          let gap ← c.gap? 0
          let more ← singleQuoted? fuel gap.after
          some ⟨gap.fill ++ more.text, more.after, false⟩
        else (singleQuoted? fuel (c.skip 1)).map (.cons x)

/-- The characters that a backslash and one letter stand for. -/
def escapes : List (Char × Nat) :=
  [('0', 0), ('a', 7), ('b', 8), ('t', 9), ('\t', 9), ('n', 10), ('v', 11), ('f', 12), ('r', 13),
    ('e', 27), (' ', 32), ('"', 34), ('/', 47), ('\\', 92), ('N', 0x85), ('_', 0xa0),
    ('L', 0x2028), ('P', 0x2029)]

/-- The number of hexadecimal digits after a letter. -/
def hexLength? : Char → Option Nat
  | 'x' => some 2
  | 'u' => some 4
  | 'U' => some 8
  | _ => none

def hexChar? (digits : List Char) : Option Char := do
  let n ← Digits.ofHex? digits
  if n.isValidChar then some (Char.ofNat n) else none

/-- The character of an escape after its backslash, and the length of the escape. -/
def escaped? : List Char → Option (Char × Nat)
  | [] => none
  | c :: s =>
    match escapes.lookup c with
    | some n => some (Char.ofNat n, 1)
    | none => do
      let n ← hexLength? c
      if s.length < n then none
      else (hexChar? (s.take n)).map (·, n + 1)

/-- The rest of a double-quoted scalar. A backslash at the end of a line joins it with
the next. -/
def doubleQuoted? : Nat → Cursor → Option Scanned
  | 0, _ => none
  | fuel + 1, c =>
    if c.atMarker then none
    else match c.rest with
      | [] => none
      | '"' :: _ => some ⟨[], c.skip 1, false⟩
      | '\\' :: s =>
        if s.head?.any isBreak then do
          let gap ← Yaml.gap? 0 [] ['\n'] 0 (s.drop 1)
          let more ← doubleQuoted? fuel gap.after
          some ⟨gap.breaks.drop 1 ++ more.text, more.after, false⟩
        else do
          let (x, n) ← escaped? s
          (doubleQuoted? fuel (c.skip (n + 1))).map (.cons x)
      | x :: _ =>
        if isSpace x || isBreak x then do
          let gap ← c.gap? 0
          let more ← doubleQuoted? fuel gap.after
          some ⟨gap.fill ++ more.text, more.after, false⟩
        else (doubleQuoted? fuel (c.skip 1)).map (.cons x)

/-! ### Block scalars -/

/-- What becomes of the line breaks at the end of a block scalar. -/
inductive Chomping where
  | strip
  | clip
  | keep
deriving DecidableEq

structure BlockHeader where
  folded : Bool
  chomping : Chomping
  /-- The indentation that is written out, or zero. -/
  increment : Nat

/-- The indicators of a block scalar after the first one. -/
def blockHeader? (folded : Bool) (s : List Char) : Option (BlockHeader × List Char) :=
  let chomping? : Char → Option Chomping
    | '+' => some .keep
    | '-' => some .strip
    | _ => none
  let increment? (c : Char) : Option Nat :=
    if '1' ≤ c ∧ c ≤ '9' then some (c.toNat - 48) else none
  match s with
  | [] => some (⟨folded, .clip, 0⟩, [])
  | a :: s =>
    match chomping? a, increment? a, s with
    | some k, _, b :: t =>
      match increment? b with
      | some n => some (⟨folded, k, n⟩, t)
      | none => some (⟨folded, k, 0⟩, s)
    | some k, _, [] => some (⟨folded, k, 0⟩, [])
    | none, some n, b :: t =>
      match chomping? b with
      | some k => some (⟨folded, k, n⟩, t)
      | none => some (⟨folded, .clip, n⟩, s)
    | none, some n, [] => some (⟨folded, .clip, n⟩, [])
    | none, none, s => some (⟨folded, .clip, 0⟩, a :: s)

/-- What follows the line of a block header, which may end in a comment. -/
def afterHeader? (s : List Char) : Option (List Char) :=
  match s.dropWhile isSpace with
  | [] => some []
  | c :: rest =>
    if isBreak c then some rest
    else if c == '#' then some ((rest.dropWhile (!isBreak ·)).drop 1)
    else none

/-- Indentation and empty lines: the greatest column reached, the breaks of the empty
lines and the place of the next text. Indentation zero is still to be found. -/
def emptyLines? (indent : Nat) : (greatest : Nat) → (breaks : List Char) → (column : Nat) →
    List Char → Option (Nat × List Char × Cursor)
  | greatest, breaks, column, [] => some (max greatest column, breaks, ⟨[], column⟩)
  | greatest, breaks, column, c :: s =>
    let indented := decide (indent = 0 ∨ column < indent)
    if isBreak c then emptyLines? indent (max greatest column) (breaks ++ [c]) 0 s
    else if indented && c == ' ' then emptyLines? indent greatest breaks (column + 1) s
    else if indented && c == '\t' then none
    else some (max greatest column, breaks, ⟨c :: s, column⟩)

/-- Lines of a block scalar so far. -/
structure BlockState where
  /-- The break that ended the last line, if there is one. -/
  ending : List Char
  /-- Whether the last line began with a blank. -/
  blank : Bool
  /-- The breaks of the empty lines since. -/
  breaks : List Char

/-- The text between the last line and a line that begins with a blank or not. -/
def BlockState.glue (b : BlockState) (folded blank : Bool) : List Char :=
  if folded && b.ending == ['\n'] && !b.blank && !blank then
    if b.breaks.isEmpty then [' '] else b.breaks
  else b.ending ++ b.breaks

/-- The text that ends a block scalar. -/
def BlockState.finish (b : BlockState) (chomping : Chomping) : List Char :=
  match chomping with
  | .strip => []
  | .clip => b.ending
  | .keep => b.ending ++ b.breaks

def blockLines? (h : BlockHeader) (indent : Nat) :
    Nat → BlockState → Cursor → Option (List Char × Cursor)
  | 0, _, _ => none
  | fuel + 1, b, c =>
    match c.rest with
    | [] => some (b.finish h.chomping, c)
    | x :: _ =>
      if c.column = indent then do
        let blank := isSpace x
        let line := c.rest.takeWhile (!isBreak ·)
        let rest := c.rest.drop line.length
        let (_, breaks, after) ← emptyLines? indent 0 [] 0 (rest.drop 1)
        let (more, after) ← blockLines? h indent fuel ⟨rest.take 1, blank, breaks⟩ after
        some (b.glue h.folded blank ++ line ++ more, after)
      else some (b.finish h.chomping, c)

/-- A block scalar after its first indicator, inside a block at column `parent - 1`. -/
def blockScalar? (folded : Bool) (parent : Nat) (s : List Char) : Option (List Char × Cursor) := do
  let (h, s) ← blockHeader? folded s
  let s ← afterHeader? s
  let fixed := if h.increment = 0 then 0 else parent - 1 + h.increment
  let (greatest, breaks, c) ← emptyLines? fixed 0 [] 0 s
  let indent := if fixed = 0 then max greatest (max parent 1) else fixed
  blockLines? h indent (s.length + 2) ⟨[], false, breaks⟩ c

end PropertyGraph.Yaml
