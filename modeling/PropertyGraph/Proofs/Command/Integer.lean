import PropertyGraph.Proofs.Command.Statement
import PropertyGraph.Proofs.Json.Integer

/-! Integers of any length in commands. The command that creates a node with one integer is
read whatever the integer is, since a draft keeps it as digits. It is a command if the integer
is one of the signed 64 bits, negative zero among them, and a fault otherwise. -/

namespace PropertyGraph

open Json Blank Token

/-- The text of the command that creates a node with an integer as its property. -/
def creation (label key : String) (l : NumberLiteral) : String :=
  "CREATE NODE " ++ label ++ " \x7b" ++ key ++ ": " ++ String.ofList l.chars ++ "\x7d"

variable {label key : String} {l : NumberLiteral} {rest : List Char}

-- The words are variables here, since unifying with their characters takes long.
theorem toList_words (a b c d e f : String) (s : List Char) :
    (a ++ b ++ c ++ d ++ e ++ String.ofList s ++ f).toList = a.toList ++ (b.toList ++
      (c.toList ++ (d.toList ++ (e.toList ++ (s ++ f.toList))))) := by
  simp only [String.toList_append, String.toList_ofList, List.append_assoc]

theorem toList_creation : (creation label key l).toList = "CREATE NODE ".toList ++ (label.toList ++
    (" \x7b".toList ++ (key.toList ++ (": ".toList ++ (l.chars ++ "\x7d".toList))))) :=
  toList_words ..

namespace Draft

theorem chars_eq_cons (h : l.IsInteger) :
    ∃ c cs, l.chars = c :: cs ∧ (c = '-' ∨ c.isDigit = true) := by
  rw [h.chars_eq]
  cases l.negative with
  | true => exact ⟨_, _, rfl, .inl rfl⟩
  | false =>
    obtain ⟨d, ds, hwhole⟩ := List.exists_cons_of_ne_nil h.whole.1
    exact ⟨d, ds, hwhole, .inr (h.whole.2 d (hwhole ▸ List.mem_cons_self))⟩

/-- An integer literal of a document is one of a command too. -/
theorem numeral?_chars (h : l.IsInteger) (hrest : Stops rest) :
    numeral? (l.chars ++ rest) = some (.integer l.negative l.whole, rest) := by
  rw [h.chars_eq]
  cases l.negative with
  | true => exact unsigned?_integer true h.whole hrest
  | false => exact (numeral?_digits h.whole).trans (unsigned?_integer false h.whole hrest)

theorem property?_chars (hkey : isName key = true) (h : l.IsInteger) (hrest : Stops rest) :
    property? (key.toList ++ (':' :: ' ' :: (l.chars ++ rest))) =
      some ((key, .integer l.negative l.whole), rest) := by
  have hword : word? (key.toList ++ (':' :: ' ' :: (l.chars ++ rest))) =
      some (key, ':' :: ' ' :: (l.chars ++ rest)) := word?_spaced hkey isSpacing_nil rfl
  have hcolon : symbol? ":" (':' :: ' ' :: (l.chars ++ rest)) = some (' ' :: (l.chars ++ rest)) :=
    symbol?_spaced (List.contains_iff_mem.1 rfl) isSpacing_nil
  have hvalue : value? (' ' :: (l.chars ++ rest)) =
      some (.integer l.negative l.whole, rest) := by
    have hnumeral := numeral?_chars h hrest
    obtain ⟨c, cs, hchars, hc⟩ := chars_eq_cons h
    rw [hchars, List.cons_append] at hnumeral ⊢
    exact literal?_numeral (isGap_singleton rfl).2 hc hnumeral
  simp [property?, key?, hword, hcolon, hvalue]

/-- The block with an integer as its only property. -/
theorem blockIfAny?_chars (hkey : isName key = true) (h : l.IsInteger) :
    blockIfAny? (' ' :: '\x7b' :: (key.toList ++ (':' :: ' ' :: (l.chars ++ ['\x7d'])))) =
      some ([(key, .integer l.negative l.whole)], []) := by
  have hproperty := property?_chars hkey h (.cons rfl (by decide) : Stops ['\x7d'])
  obtain ⟨c, cs, hword, hc, -⟩ := isName_iff.1 hkey
  have hblank : isBlank c = false := isBlank_of_not_isWhiteSpace
    (not_isWhiteSpace_of_isWordChar (isWordChar_of_isWordStart hc))
  have hne : c ≠ '\x7d' := by
    rintro rfl
    cases hc
  have hopen : ∀ s, symbol? "\x7b" (' ' :: '\x7b' :: s) = some s := fun s =>
    (symbol?_spaced (List.contains_iff_mem.1 rfl) (isGap_singleton rfl).2 :
      symbol? "\x7b" ([' '] ++ ("\x7b".toList ++ s)) = some s)
  have hclose : ∀ s, symbol? "\x7d" (c :: s) = none := fun s =>
    symbol?_cons_eq_none isSpacing_nil hblank rfl hne
  rw [hword, List.cons_append] at hproperty ⊢
  rw [blockIfAny?, hopen, block?, hopen, Option.bind_eq_bind, Option.bind_some, hclose,
    List.length_cons, properties?, hproperty]
  rfl

/-- The command that creates a node is read whatever its integer is. -/
theorem readChars_creation (hlabel : isName label = true) (hkey : isName key = true)
    (h : l.IsInteger) : readChars (creation label key l).toList =
      some (.createNode label [(key, .integer l.negative l.whole)]) := by
  have hgap : IsGap [' '] := isGap_singleton rfl
  have hcreate : ∀ {s}, keyword? "CREATE" ([] ++ ("CREATE".toList ++ ([' '] ++ s))) =
      some ([' '] ++ s) := keyword?_spells (.keyword rfl rfl) isSpacing_nil (.gap hgap)
  have hnode : ∀ {s}, keyword? "NODE" ([' '] ++ ("NODE".toList ++ ([' '] ++ s))) =
      some ([' '] ++ s) := keyword?_spells (.keyword rfl rfl) hgap.2 (.gap hgap)
  have hblock := blockIfAny?_chars hkey h
  have htext : (creation label key l).toList = [] ++ ("CREATE".toList ++ ([' '] ++
      ("NODE".toList ++ ([' '] ++ (label.toList ++ (' ' :: '\x7b' ::
        (key.toList ++ (':' :: ' ' :: (l.chars ++ ['\x7d']))))))))) := toList_creation
  generalize hhead : ' ' :: '\x7b' :: (key.toList ++ (':' :: ' ' :: (l.chars ++ ['\x7d']))) =
    block at hblock htext
  have hname : word? ([' '] ++ (label.toList ++ block)) = some (label, block) :=
    word?_spaced hlabel hgap.2 (by rw [← hhead]; rfl)
  have hcreated : create? ([' '] ++ ("NODE".toList ++ ([' '] ++ (label.toList ++ block)))) =
      some (.createNode label [(key, .integer l.negative l.whole)], []) := by
    rw [create?, hnode]
    simp only [hname, hblock, Option.bind_eq_bind, Option.bind_some]
  have hopened : (keyword? "CREATE" (creation label key l).toList).bind create? =
      some (.createNode label [(key, .integer l.negative l.whole)], []) := by
    rw [htext, hcreate, Option.bind_some, hcreated]
  have hstatement : statement? (creation label key l).toList =
      some (.createNode label [(key, .integer l.negative l.whole)], []) := by
    simp only [statement?, openings, List.findSome?_cons, hopened]
  rw [readChars, hstatement]
  rfl

end Draft

theorem isTrimmed_creation : IsTrimmed (creation label key l).toList := by
  have hends : (creation label key l).toList = ['C'] ++ ("REATE NODE ".toList ++ (label.toList ++
      (" \x7b".toList ++ (key.toList ++ (": ".toList ++ l.chars)))) ++ ['\x7d']) := by
    rw [toList_creation]
    simp only [List.append_assoc]
    rfl
  rw [hends]
  exact (isTrimmed_singleton rfl).append _ (isTrimmed_singleton rfl)

/-- The fault of an integer that is out of range names it as it is written. -/
def integerFault (l : NumberLiteral) : CommandFault :=
  if l.negative then .integerTooSmall (String.ofList l.chars)
  else .integerTooLarge (String.ofList l.chars)

theorem Draft.settleInteger_whole (h : l.IsInteger) : settleInteger l.negative l.whole =
    if l.IsSigned then .ok (.integer (.ofInt l.toInt)) else .error (integerFault l) := by
  have hint : Value.int64? l.toInt = if l.IsSigned then some (.ofInt l.toInt) else none := rfl
  cases hnegative : l.negative with
  | true =>
    have htoInt : -(Digits.toNat l.whole : Int) = l.toInt := by
      rw [NumberLiteral.toInt, if_pos hnegative]
    simp only [settleInteger, integerFault, h.chars_eq, hnegative, if_true, htoInt, hint]
    by_cases hsigned : l.IsSigned <;> simp only [hsigned, if_true, if_false]
  | false =>
    have htoInt : (Digits.toNat l.whole : Int) = l.toInt := by
      rw [NumberLiteral.toInt, hnegative, if_neg Bool.false_ne_true]
    simp only [settleInteger, integerFault, h.chars_eq, hnegative, Bool.false_eq_true, if_false, htoInt,
      hint]
    by_cases hsigned : l.IsSigned <;> simp only [hsigned, if_true, if_false]

/-- The command stands if its integer is one of the signed 64 bits. -/
theorem Command.read_creation (hlabel : isName label = true) (hkey : isName key = true)
    (h : l.IsInteger) : Command.read (creation label key l) =
      if l.IsSigned then .ok (.createNode label (.ofList [(key, .integer (.ofInt l.toInt))]))
      else .error (.fault (integerFault l)) := by
  have htrim := trimChars_append (List.forall_mem_nil _) (List.forall_mem_nil _)
    (isTrimmed_creation : IsTrimmed (creation label key l).toList)
  rw [List.nil_append, List.append_nil] at htrim
  rw [Command.read, htrim, Draft.readChars_creation hlabel hkey h]
  simp only [Draft.settle, Draft.settleBag, Draft.Literal.settle, Draft.settleInteger_whole h]
  split <;> rfl

end PropertyGraph
