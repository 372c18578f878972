import PropertyGraph.Yaml
import PropertyGraph.Yaml.Scalar
import PropertyGraph.Yaml.Tag

/-! Tokens of YAML texts. Indentation becomes tokens too: one where a block begins and one
where it ends. What stands before a colon is known to be a key only when the colon is
reached, so the place of a possible key is kept, and its tokens are put there then. A
key that is not marked stands on one line. -/

namespace PropertyGraph.Yaml

inductive Token where
  | version (major minor : Nat)
  /-- The declaration of a tag handle. -/
  | handle (name address : String)
  | documentStart
  | documentEnd
  | blockSequence
  | blockMapping
  | blockEnd
  | flowSequence
  | flowSequenceEnd
  | flowMapping
  | flowMappingEnd
  | comma
  | entry
  | key
  | value
  | alias (name : String)
  | anchor (name : String)
  | tag (t : Tag)
  | scalar (text : String) (style : Style)
deriving DecidableEq

/-- A place where a key may begin. -/
structure PossibleKey where
  /-- Whether only a key can stand there. -/
  required : Bool
  /-- The number of tokens before it. -/
  index : Nat
  line : Nat
  /-- The number of octets before it. -/
  offset : Nat
  column : Nat

structure Scan where
  cursor : Cursor
  line : Nat := 0
  offset : Nat := 0
  /-- The number of open brackets. -/
  depth : Nat := 0
  /-- One more than the columns of the open blocks, innermost first. -/
  indents : List Nat := []
  /-- Whether a key may begin here. -/
  keyAllowed : Bool := true
  /-- The possible key at each depth, innermost first. -/
  keys : List (Option PossibleKey) := [none]
  tokens : Array Token := #[]

namespace Scan

/-- The column that the lines of a value in the innermost block have at least. -/
def indent (s : Scan) : Nat := s.indents.headD 0

def inFlow (s : Scan) : Bool := decide (0 < s.depth)

def push (s : Scan) (t : Token) : Scan := { s with tokens := s.tokens.push t }

def moveTo (s : Scan) (c : Cursor) : Scan :=
  let passed := s.cursor.rest.take (s.cursor.rest.length - c.rest.length)
  { s with
    cursor := c
    line := s.line + passed.countP isBreak
    offset := passed.foldl (· + ·.utf8Size) s.offset }

def skip (s : Scan) (n : Nat) : Scan := s.moveTo (s.cursor.skip n)

def allowKey (s : Scan) (allowed : Bool) : Scan := { s with keyAllowed := allowed }

/-! ### Blocks -/

/-- Opens a block at a column, unless one is open there or brackets are; its token goes
before the token of the given number. -/
def openBlock (s : Scan) (column index : Nat) (t : Token) : Scan :=
  if s.inFlow || column + 1 ≤ s.indent then s
  else { s with
    indents := (column + 1) :: s.indents
    tokens := s.tokens.insertIdxIfInBounds index t }

def openBlockHere (s : Scan) (t : Token) : Scan :=
  s.openBlock s.cursor.column s.tokens.size t

/-- Ends the blocks that are indented by `bound` or more. -/
def closeBlocks (s : Scan) (bound : Nat) : Scan :=
  if s.inFlow then s
  else
    let closed := s.indents.takeWhile (bound < ·)
    { s with
      indents := s.indents.drop closed.length
      tokens := s.tokens ++ (closed.map fun _ => Token.blockEnd).toArray }

/-! ### Keys -/

/-- Gives up the possible key of this depth. -/
def dropKey? (s : Scan) : Option Scan :=
  match s.keys with
  | some key :: keys => if key.required then none else some { s with keys := none :: keys }
  | _ => some s

/-- Notes that a key may begin here. -/
def saveKey? (s : Scan) : Option Scan :=
  if s.keyAllowed then do
    let s ← s.dropKey?
    let key : PossibleKey :=
      ⟨!s.inFlow && s.indent == s.cursor.column + 1, s.tokens.size, s.line, s.offset,
        s.cursor.column⟩
    some { s with keys := some key :: s.keys.drop 1 }
  else some s

/-- The greatest length of a key, in octets. -/
def keyLimit : Nat := 1024

/-- A possible key whose colon may still come. -/
def keptKey? (s : Scan) : Option PossibleKey → Option (Option PossibleKey)
  | none => some none
  | some key =>
    if key.line < s.line || key.offset + keyLimit < s.offset then
      if key.required then none else some none
    else some (some key)

/-- To the next content. Keys that it is too far for are given up, and blocks that it is
not indented enough for end. -/
def toContent? (s : Scan) : Option Scan := do
  let (c, crossed) := s.cursor.toContent s.inFlow (s.inFlow || !s.keyAllowed)
  let s := (s.moveTo c).allowKey (s.keyAllowed || (crossed && !s.inFlow))
  let keys ← s.keys.mapM s.keptKey?
  some ({ s with keys }.closeBlocks (s.cursor.column + 1))

/-! ### Indicators -/

/-- An indicator that opens brackets; all that it begins may be a key. -/
def openFlow? (s : Scan) (t : Token) : Option Scan := do
  let s ← s.saveKey?
  some (({ s with keys := none :: s.keys, depth := s.depth + 1 }.allowKey true).skip 1 |>.push t)

def closeFlow? (s : Scan) (t : Token) : Option Scan := do
  let s ← s.dropKey?
  let s := if s.inFlow then { s with keys := s.keys.drop 1, depth := s.depth - 1 } else s
  some (((s.allowKey false).skip 1).push t)

def comma? (s : Scan) : Option Scan := do
  let s ← s.dropKey?
  some (((s.allowKey true).skip 1).push .comma)

/-- The dash of a sequence. -/
def entry? (s : Scan) : Option Scan := do
  if !s.inFlow && !s.keyAllowed then none
  else
    let s ← (if s.inFlow then s else s.openBlockHere .blockSequence).dropKey?
    some (((s.allowKey true).skip 1).push .entry)

/-- The question mark of a marked key. -/
def key? (s : Scan) : Option Scan := do
  if !s.inFlow && !s.keyAllowed then none
  else
    let s ← (s.openBlockHere .blockMapping).dropKey?
    some (((s.allowKey !s.inFlow).skip 1).push .key)

/-- The colon before a value. What it makes a key gets its token now. -/
def value? (s : Scan) : Option Scan :=
  match s.keys with
  | some key :: keys =>
    let s := { s with keys := none :: keys, tokens := s.tokens.insertIdxIfInBounds key.index .key }
    let s := s.openBlock key.column key.index .blockMapping
    some (((s.allowKey false).skip 1).push .value)
  | _ =>
    if !s.inFlow && !s.keyAllowed then none
    else some ((((s.openBlockHere .blockMapping).allowKey !s.inFlow).skip 1).push .value)

/-- A line of three dashes or dots. -/
def marker? (s : Scan) (t : Token) : Option Scan := do
  let s ← (s.closeBlocks 0).dropKey?
  some (((s.allowKey false).skip 3).push t)

/-! ### Names -/

/-- The name of an anchor. -/
def name? (s : List Char) : Option (String × List Char) :=
  let name := s.takeWhile isNameChar
  let rest := s.drop name.length
  if name.isEmpty || !(atBlank rest || rest.head?.any "?:,]\x7d%@`".toList.contains) then none
  else some (String.ofList name, rest)

/-- An anchor or alias behind its indicator. -/
def named? (s : Scan) (make : String → Token) : Option Scan := do
  let s ← s.saveKey?
  let (name, _) ← name? (s.cursor.rest.drop 1)
  some (((s.allowKey false).skip (1 + name.length)).push (make name))

def tag? (s : Scan) : Option Scan := do
  let s ← s.saveKey?
  let (t, rest) ← Yaml.tag? (s.cursor.rest.drop 1)
  if atBlank rest || (s.inFlow && rest.head? == some ',') then
    some (((s.allowKey false).skip (s.cursor.rest.length - rest.length)).push (.tag t))
  else none

/-! ### Directives -/

def number? (s : List Char) : Option (Nat × List Char) := do
  let (digits, rest) ← Digits.split? s
  if 9 < digits.length then none else some (Digits.toNat digits, rest)

/-- What a directive says, and what follows that on its line. -/
def directiveAt? (s : List Char) : Option (Token × List Char) := do
  let name := s.takeWhile isNameChar
  let rest := s.drop name.length
  let arguments := rest.dropWhile isSpace
  if name == "YAML".toList && atBlank rest then
    let (major, rest) ← number? arguments
    match rest with
    | '.' :: rest => (number? rest).map fun r => (.version major r.1, r.2)
    | _ => none
  else if name == "TAG".toList && atBlank rest then
    (declaration? arguments).map fun r => (.handle r.1.1 r.1.2, r.2)
  else none

def directive? (s : Scan) : Option Scan := do
  let s ← (s.closeBlocks 0).dropKey?
  let (t, rest) ← directiveAt? (s.cursor.rest.drop 1)
  let rest ← afterHeader? rest
  some (((s.allowKey false).moveTo ⟨rest, 0⟩).push t)

/-! ### Scalars -/

def quoted? (s : Scan) (read : Nat → Cursor → Option Scanned) : Option Scan := do
  let s ← s.saveKey?
  let x ← read (s.cursor.rest.length + 1) (s.cursor.skip 1)
  some (((s.allowKey false).moveTo x.after).push (.scalar (String.ofList x.text) .quoted))

def block? (s : Scan) (folded : Bool) : Option Scan := do
  let s ← s.dropKey?
  let (text, after) ← blockScalar? folded s.indent (s.cursor.rest.drop 1)
  some (((s.allowKey true).moveTo after).push
    (.scalar (String.ofList text) (if folded then .folded else .literal)))

def plainScalar? (s : Scan) : Option Scan := do
  if !canStartPlain s.inFlow s.cursor.rest then none
  else
    let s ← s.saveKey?
    let x ← plain? s.inFlow s.indent (s.cursor.rest.length + 1) s.cursor
    some (((s.allowKey x.broken).moveTo x.after).push (.scalar (String.ofList x.text) .plain))

/-! ### Texts -/

/-- The token that starts with a character. -/
def token? (s : Scan) (c : Char) (rest : List Char) : Option Scan :=
  if s.cursor.column == 0 && c == '%' then s.directive?
  else if s.cursor.atMarker then s.marker? (if c == '-' then .documentStart else .documentEnd)
  else match c with
    | '[' => s.openFlow? .flowSequence
    | '\x7b' => s.openFlow? .flowMapping
    | ']' => s.closeFlow? .flowSequenceEnd
    | '\x7d' => s.closeFlow? .flowMappingEnd
    | ',' => s.comma?
    | '*' => s.named? .alias
    | '&' => s.named? .anchor
    | '!' => s.tag?
    | '\'' => s.quoted? singleQuoted?
    | '"' => s.quoted? doubleQuoted?
    | _ =>
      if c == '-' && atBlank rest then s.entry?
      else if c == '?' && (s.inFlow || atBlank rest) then s.key?
      else if c == ':' && (s.inFlow || atBlank rest) then s.value?
      else if c == '|' && !s.inFlow then s.block? false
      else if c == '>' && !s.inFlow then s.block? true
      else s.plainScalar?

/-- The tokens of what is left of a text. -/
def tokens? : Nat → Scan → Option (List Token)
  | 0, _ => none
  | fuel + 1, s => do
    let s ← s.toContent?
    match s.cursor.rest with
    | [] => do
      let s ← (s.closeBlocks 0).dropKey?
      some s.tokens.toList
    | c :: rest => do
      let s ← s.token? c rest
      tokens? fuel s

end Scan

/-- The tokens of a text. -/
def Token.ofText? (s : List Char) : Option (List Token) :=
  if s.all isPrintable then
    Scan.tokens? (s.length + 2) { cursor := ⟨unifyBreaks s, 0⟩ }
  else none

end PropertyGraph.Yaml
