import PropertyGraph.Text.CodePoints

/-! Letters that are written as one sign with the letter in front of them. -/

namespace PropertyGraph.Ligature

/-- What a ligature can end with. -/
inductive Ending where
  /-- The Arabic alef. -/
  | alef
  /-- The Hebrew lamed. -/
  | lamed
  /-- The Buginese ya. -/
  | ya
  /-- The Buginese vowel sign of i, joined to ya. -/
  | iYa
  /-- A Tifinagh consonant. -/
  | tifinagh
  /-- A Tifinagh consonant behind the consonant joiner. -/
  | joinedTifinagh
  /-- A second tone letter of Lisu. -/
  | lisuTone
  /-- The Orkhon i. -/
  | orkhonI
  /-- A Khmer letter that can be set below another one. -/
  | khmer
deriving DecidableEq

/-! ### Letters -/

def alefs : CodePoints :=
  ⟨[(0x622, 0x623), (0x625, 0x625), (0x627, 0x627), (0x671, 0x673), (0x675, 0x675), (0x773, 0x774),
    (0x870, 0x882)]⟩

def lams : CodePoints :=
  ⟨[(0x644, 0x644), (0x6b5, 0x6b8), (0x76a, 0x76a), (0x8a6, 0x8a6), (0x8c7, 0x8c7)]⟩

def tifinaghConsonants : CodePoints :=
  ⟨[(0x2d31, 0x2d65), (0x2d6f, 0x2d6f)]⟩

def khmerLetters : CodePoints :=
  ⟨[(0x1780, 0x1782), (0x1784, 0x1787), (0x1789, 0x178c), (0x178e, 0x1793), (0x1795, 0x1798),
    (0x179b, 0x179d), (0x17a0, 0x17a0), (0x17a2, 0x17a2), (0x17a7, 0x17a7), (0x17ab, 0x17ac),
    (0x17af, 0x17af)]⟩

def isFirstLisuTone (c : Char) : Bool := 0xa4f8 ≤ c.toNat && c.toNat ≤ 0xa4fb

def isSecondLisuTone (c : Char) : Bool := c.toNat == 0xa4fc || c.toNat == 0xa4fd

/-! ### Ligatures -/

/-- The ending that a letter is of itself. -/
def Ending.of? (c : Char) : Option Ending :=
  if alefs.contains c then some .alef
  else if c == '\u05dc' then some .lamed
  else if c == '\u1a10' then some .ya
  else if tifinaghConsonants.contains c then some .tifinagh
  else if isSecondLisuTone c then some .lisuTone
  else if c.toNat == 0x10c03 then some .orkhonI
  else if khmerLetters.contains c then some .khmer
  else none

/-- The columns that a letter adds in front of an ending with which it makes a ligature, and
the ending that the two are again. Some ligatures need a joiner between the letters. -/
def Ending.combine? (c : Char) (joined : Bool) : Ending → Option (Int × Option Ending)
  | .alef => if lams.contains c then some (0, none) else none
  | .lamed => if joined && c == '\u05d0' then some (0, none) else none
  | .ya => if joined && c == '\u1a17' then some (0, some .iYa) else none
  | .iYa => if c == '\u1a15' then some (0, none) else none
  | .tifinagh =>
    if c == '\u2d7f' then some (1, some .joinedTifinagh)
    else if joined && tifinaghConsonants.contains c then some (0, none)
    else none
  | .joinedTifinagh => if tifinaghConsonants.contains c then some (-1, none) else none
  | .lisuTone => if isFirstLisuTone c then some (0, none) else none
  | .orkhonI => if joined && c.toNat == 0x10c32 then some (0, none) else none
  | .khmer => if c == '\u17d2' then some (-1, none) else none

end PropertyGraph.Ligature
