import PropertyGraph.Text.Emoji
import PropertyGraph.Text.Ligature
import PropertyGraph.Text.Width.Double
import PropertyGraph.Text.Width.Zero

/-! Columns that a line of text takes where every character has a place of its own.
Ideographs and most pictures take two columns, marks on another character none, almost
all else one. Sequences of characters that are shown as one picture or one letter take
the columns of that; they are found from the end of the line, since what a character
adds depends on what it stands in front of. -/

namespace PropertyGraph.Width

/-- The columns of a character on its own. -/
def ofChar (c : Char) : Nat :=
  if c.toNat ≤ 0xa0 then 1
  else if c == '\u17d8' then 3
  else if zeroWidth.contains c then 0
  else if doubleWidth.contains c then 2
  else 1

/-! ### Followers -/

/-- What a character stands in front of, as far as that matters to its columns. -/
inductive Follower where
  | other
  /-- The ending of a ligature, with a joiner in front of it or not. -/
  | ending (e : Ligature.Ending) (joined : Bool)
  /-- The vowels of Kirat Rai that continue another one. -/
  | vowelE
  | vowelAi
  | picture
  | skinTone
  | flagHalf
  /-- Two halves of flags or more. -/
  | flagHalves
  /-- A picture with a joiner in front of it, and what can stand in front of that. -/
  | joinedPicture
  | joinedKeycap
  | joinedFlagHalf
  | joinedFlags (odd : Bool)
  /-- The end of the tags that spell the region of a flag, and so many tags from there on. -/
  | tagEnd
  | tagDigits (n : Nat)
  | tagLetters (n : Nat)
deriving DecidableEq

namespace Follower

/-- What a character is of itself. -/
def of (c : Char) : Follower :=
  if Emoji.isFlagHalf c then .flagHalf
  else if Emoji.isSkinTone c then .skinTone
  else if Emoji.pictures.contains c then .picture
  else if c.toNat == 0x16d67 then .vowelE
  else if c.toNat == 0x16d68 then .vowelAi
  else match Ligature.Ending.of? c with
    | some e => .ending e false
    | none => .other

/-- The same as far as the ending of a ligature goes. -/
def asEnding : Follower → Follower
  | .ending e joined => .ending e joined
  | _ => .other

/-- Whether a picture behind this one by way of a joiner makes them one. -/
def isJoined : Follower → Bool
  | .joinedPicture | .joinedKeycap => true
  | _ => false

/-- The columns that a character adds in front of what it makes one sign or sequence with,
and what the whole is to the character before it. Columns are given back where the whole
turns out to be narrower. -/
def combine? (c : Char) : Follower → Option (Int × Follower)
  | .other | .joinedKeycap => none
  | .ending e joined =>
    if e == .alef then
      if isTransparent c then some (0, .ending e joined)
      else (e.combine? c joined).map fun r => (r.1, .other)
    else if c == Emoji.joiner then some (0, .ending e true)
    else if formMarks.contains c then some (0, .ending e joined)
    else (e.combine? c joined).map fun r => (r.1, r.2.elim .other (.ending · false))
  | .vowelE =>
    match c.toNat with
    | 0x16d63 | 0x16d69 => some (0, .other)
    | 0x16d67 => some (0, .vowelAi)
    | 0x16d68 => some (1, .vowelE)
    | _ => none
  | .vowelAi => if c.toNat == 0x16d63 then some (0, .other) else none
  | .picture => if c == Emoji.joiner then some (0, .joinedPicture) else none
  | .skinTone =>
    if Emoji.tonable.contains c then some (0, .picture)
    else if c == Emoji.joiner then some (0, .joinedPicture)
    else none
  | .flagHalf => if Emoji.isFlagHalf c then some (1, .flagHalves) else none
  | .flagHalves =>
    if Emoji.isFlagHalf c then some (1, .flagHalves)
    else if c == Emoji.joiner then some (0, .joinedPicture)
    else none
  | .joinedPicture =>
    if c == Emoji.keycap then some (0, .joinedKeycap)
    else if Emoji.isTagEnd c then some (0, .tagEnd)
    else match of c with
      | .flagHalf => some (1, .joinedFlagHalf)
      | .skinTone => some (0, .skinTone)
      | .picture => some (0, .picture)
      | _ => none
  | .joinedFlagHalf => if Emoji.isFlagHalf c then some (-1, .joinedFlags false) else none
  | .joinedFlags odd =>
    if Emoji.isFlagHalf c then some (if odd then -1 else 3, .joinedFlags !odd)
    else if c == Emoji.joiner then some (0, .joinedPicture)
    else none
  | .tagEnd =>
    if Emoji.isTagLetter c then some (0, .tagLetters 1)
    else if Emoji.isTagDigit c then some (0, .tagDigits 1)
    else none
  | .tagDigits n =>
    if Emoji.isTagDigit c && n < 3 then some (0, .tagDigits (n + 1))
    else if Emoji.isTaggedFlag c && n == 3 then some (0, .picture)
    else none
  | .tagLetters n =>
    if Emoji.isTagLetter c && n < 6 then some (0, .tagLetters (n + 1))
    else if Emoji.isTagDigit c && n < 5 then some (0, .tagDigits 1)
    else if Emoji.isTaggedFlag c && 3 ≤ n then some (0, .picture)
    else none

end Follower

/-! ### Selectors -/

/-- Marks that choose the form of the character before them. -/
inductive Selector where
  | picture
  | text
  | full
deriving DecidableEq

def Selector.of? (c : Char) : Option Selector :=
  match c.toNat with
  | 0xfe0f => some .picture
  | 0xfe0e => some .text
  | 0xfe01 => some .full
  | _ => none

/-- What follows a selector, as far as it matters to what is before the selector. -/
def Selector.keep (s : Selector) (f : Follower) : Follower :=
  if s == .picture && f.isJoined then f else f.asEnding

/-- What is behind a place in a line. -/
structure Context where
  follower : Follower := .other
  selector : Option Selector := none

/-- The columns of a character whose form a selector chooses, and what it is then to the
character before it. -/
def selected? (c : Char) (x : Context) : Option (Int × Follower) :=
  match x.selector with
  | some .picture =>
    if Emoji.selectable.contains c then some (if x.follower.isJoined then 0 else 2, .picture)
    else none
  | some .text =>
    let ideograph := decide (0x1f200 ≤ c.toNat ∧ c.toNat ≤ 0x1f2ff)
    if Emoji.selectable.contains c && Emoji.pictures.contains c && !ideograph then some (1, .other)
    else none
  | some .full => if "‘’“”".toList.contains c then some (2, .other) else none
  | none => none

/-! ### Lines -/

/-- The columns that a character adds to what is behind it, and what the character before
it stands in front of. -/
def step (c : Char) (x : Context) : Int × Context :=
  match selected? c x with
  | some (columns, f) => (columns, ⟨f, none⟩)
  | none =>
    let f := if x.selector.isSome then x.follower.asEnding else x.follower
    match Selector.of? c with
    | some s => (0, ⟨s.keep f, some s⟩)
    | none =>
      let (columns, f) := (f.combine? c).getD (ofChar c, .of c)
      (columns, ⟨f, none⟩)

/-- The columns of a text without line feeds. -/
def ofChars (s : List Char) : Nat :=
  (s.foldr (fun c r => let (columns, x) := step c r.2; (r.1 + columns, x))
    ((0 : Int), ({} : Context))).1.toNat

end PropertyGraph.Width
