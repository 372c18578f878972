import PropertyGraph.Json.Source
import PropertyGraph.Proofs.Json.Double
import PropertyGraph.Proofs.Text.Blank

/-! Written JSON values are read back. In either layout the text of a value whose doubles
are finite is read as the tree of the value, whatever follows it. Blanks in front of a
token do not matter, and the characters of the text are fuel enough, since every level
of arrays and objects has two brackets. -/

namespace PropertyGraph

theorem Blank.isBlank_of_number {c : Char} (hc : c = '-' ∨ c.isDigit = true) :
    isBlank c = false := by
  rw [← Bool.not_eq_true]
  intro hblank
  rcases isBlank_iff.1 hblank with rfl | rfl | rfl | rfl <;> exact absurd hc (by decide)

namespace Json

/-- All doubles in the value are finite. -/
inductive IsFinite : Json → Prop where
  | null : IsFinite .null
  | boolean (b : Bool) : IsFinite (.boolean b)
  | integer (n : Int) : IsFinite (.number (.integer n))
  | float {x : Double} : x.isFinite = true → IsFinite (.number (.float x))
  | string (s : String) : IsFinite (.string s)
  | array {items : List Json} : (∀ x ∈ items, IsFinite x) → IsFinite (.array items)
  | object {members : List (String × Json)} :
    (∀ m ∈ members, IsFinite m.2) → IsFinite (.object members)

theorem IsFinite.nil : (Json.object []).IsFinite := .object nofun

theorem IsFinite.cons {k : String} {x : Json} {members : List (String × Json)} (hx : x.IsFinite)
    (h : (Json.object members).IsFinite) : (Json.object ((k, x) :: members)).IsFinite := by
  cases h with
  | object h => exact .object (List.forall_mem_cons.2 ⟨hx, h⟩)

namespace Layout

variable {layout : Layout} {depth : Nat} {rest : List Char}

theorem isBlank_newline (layout : Layout) (depth : Nat) :
    ∀ c ∈ layout.newline depth, Blank.isBlank c = true := by
  intro c h
  cases layout with
  | compact => cases h
  | pretty =>
    rcases List.mem_cons.1 h with rfl | h
    · rfl
    · rw [List.eq_of_mem_replicate h]
      rfl

theorem colon_eq_cons (layout : Layout) :
    ∃ gap, layout.colon = ':' :: gap ∧ ∀ c ∈ gap, Blank.isBlank c = true := by
  cases layout with
  | compact => exact ⟨[], rfl, nofun⟩
  | pretty =>
    refine ⟨[' '], rfl, fun c hc => ?_⟩
    rw [List.mem_singleton.1 hc]
    rfl

theorem endsNumber_newline_cons {c : Char} (hc : NumberLiteral.EndsNumber (c :: rest)) :
    NumberLiteral.EndsNumber (layout.newline depth ++ c :: rest) := by
  cases layout with
  | compact => exact hc
  | pretty =>
    rintro _ ⟨⟩
    decide

theorem ne_bracket_of_number {c : Char} (hc : c = '-' ∨ c.isDigit = true) : c ≠ ']' := by
  rintro rfl
  exact absurd hc (by decide)

/-- The text of a value starts with a character that is neither a blank nor a bracket
that closes an array. -/
theorem chars_eq_cons (layout : Layout) (depth : Nat) {j : Json} (h : j.IsFinite) :
    ∃ c cs, layout.chars depth j = c :: cs ∧ Blank.isBlank c = false ∧ c ≠ ']' := by
  cases h with
  | null => exact ⟨_, _, rfl, rfl, by decide⟩
  | boolean b => cases b <;> exact ⟨_, _, rfl, rfl, by decide⟩
  | string s => exact ⟨_, _, rfl, rfl, by decide⟩
  | @array items _ => cases items <;> exact ⟨_, _, rfl, rfl, by decide⟩
  | @object members _ => cases members <;> exact ⟨_, _, rfl, rfl, by decide⟩
  | integer n =>
    obtain ⟨c, cs, hcons, hc⟩ := Digits.ofInt_eq_cons n
    exact ⟨c, cs, hcons, Blank.isBlank_of_number hc, ne_bracket_of_number hc⟩
  | float hx =>
    obtain ⟨c, cs, hcons, hc⟩ := NumberLiteral.numberChars_eq_cons hx
    exact ⟨c, cs, hcons, Blank.isBlank_of_number hc, ne_bracket_of_number hc⟩

end Layout

namespace Source

mutual

/-- The tree of the text of a value whose doubles are finite. -/
def ofJson : Json → Source
  | .null => .null
  | .boolean b => .boolean b
  | .number (.integer n) => .number (.ofInt n)
  | .number (.float x) => .number (.ofDouble x)
  | .string s => .string (some s)
  | .array items => .array (ofItems items)
  | .object members => .object (ofMembers members)

def ofItems : List Json → List Source
  | [] => []
  | x :: xs => ofJson x :: ofItems xs

def ofMembers : List (String × Json) → List (Option String × Source)
  | [] => []
  | (k, x) :: ms => (some k, ofJson x) :: ofMembers ms

end

/-! ### Strings -/

theorem ofHex?_hexDigit : ∀ n < 32,
    Digits.ofHex? ['0', '0', hexDigit (n / 16), hexDigit (n % 16)] = some n := by decide

theorem ofUnit_of_lt {n : Nat} (h : n < 0xd800) : Piece.ofUnit n = .char (Char.ofNat n) := by
  have hhigh : isHighHalf n = false := by
    simp only [isHighHalf, Bool.and_eq_false_iff, decide_eq_false_iff_not]
    omega
  have hlow : isLowHalf n = false := by
    simp only [isLowHalf, Bool.and_eq_false_iff, decide_eq_false_iff_not]
    omega
  rw [Piece.ofUnit, hhigh, hlow]
  rfl

theorem readPieces_simple {c d : Char} (hc : c ≠ 'u') (hd : simpleEscape? c = some d)
    (s : List Char) : readPieces ('\\' :: c :: s) =
      (readPieces s).map fun p => (.char d :: p.1, p.2) := by
  rw [readPieces]
  · rw [hd, Option.map_eq_bind]
    rfl
  · intro _ _ _ _ _ hu
    exact absurd hu hc

theorem readPieces_plain {c : Char} (hquote : c ≠ '"') (hslash : c ≠ '\\')
    (hc : 32 ≤ c.toNat) (s : List Char) :
    readPieces (c :: s) = (readPieces s).map fun p => (.char c :: p.1, p.2) := by
  rw [readPieces]
  · rw [if_neg (Nat.not_lt.2 hc), Option.map_eq_bind]
    rfl
  · exact hquote
  · intro _ _ _ _ _ h
    exact absurd h hslash
  · intro _ _ h
    exact absurd h hslash

theorem readPieces_control {c : Char} (hc : c.toNat < 32) (s : List Char) :
    readPieces ('\\' :: 'u' :: '0' :: '0' :: hexDigit (c.toNat / 16) ::
      hexDigit (c.toNat % 16) :: s) = (readPieces s).map fun p => (.char c :: p.1, p.2) := by
  rw [readPieces, ofHex?_hexDigit _ hc, Option.bind_eq_bind, Option.bind_some,
    ofUnit_of_lt (by omega), Char.ofNat_toNat, Option.map_eq_bind]
  rfl

/-- An escaped character is read as the character. -/
theorem readPieces_escape_append (c : Char) (s : List Char) :
    readPieces (escape c ++ s) = (readPieces s).map fun p => (.char c :: p.1, p.2) := by
  unfold escape
  split
  · exact readPieces_simple (by decide) rfl s
  · exact readPieces_simple (by decide) rfl s
  · exact readPieces_simple (by decide) rfl s
  · exact readPieces_simple (by decide) rfl s
  · exact readPieces_simple (by decide) rfl s
  · next _ hquote hslash _ _ _ =>
    split
    · next hc =>
      have hchar : c = '\x08' := by rw [← Char.ofNat_toNat c, hc]
      rw [hchar]
      exact readPieces_simple (by decide) rfl s
    split
    · next hc =>
      have hchar : c = '\x0c' := by rw [← Char.ofNat_toNat c, hc]
      rw [hchar]
      exact readPieces_simple (by decide) rfl s
    split
    · next hc => exact readPieces_control hc s
    · next hc => exact readPieces_plain hquote hslash (Nat.not_lt.1 hc) s

theorem readPieces_flatMap_escape (cs rest : List Char) :
    readPieces (cs.flatMap escape ++ '"' :: rest) = some (cs.map .char, rest) := by
  induction cs with
  | nil => rfl
  | cons c cs ih =>
    rw [List.flatMap_cons, List.append_assoc, readPieces_escape_append, ih]
    rfl

theorem join?_map_char (cs : List Char) : join? (cs.map .char) = some cs := by
  induction cs with
  | nil => rfl
  | cons c cs ih =>
    rw [List.map_cons, join?, ih]
    rfl

theorem readString_quoted (s : String) (rest : List Char) :
    readString (s.toList.flatMap escape ++ '"' :: rest) = some (some s, rest) := by
  rw [readString, readPieces_flatMap_escape]
  simp [join?_map_char]

/-! ### Values -/

section Steps

variable {fuel : Nat} {s rest : List Char} {x : Source} {b : List Char}

theorem readValue_skip (fuel : Nat) (s : List Char) :
    readValue fuel (Blank.skip s) = readValue fuel s := by
  cases fuel with
  | zero => rfl
  | succ fuel => rw [readValue, readValue, Blank.skip_skip]

theorem readValue_blank_append (hb : ∀ c ∈ b, Blank.isBlank c = true) :
    readValue fuel (b ++ s) = readValue fuel s := by
  rw [← readValue_skip, Blank.skip_append hb, readValue_skip]

theorem readItems_skip (fuel : Nat) (s : List Char) :
    readItems fuel (Blank.skip s) = readItems fuel s := by
  cases fuel with
  | zero => rfl
  | succ fuel => rw [readItems, readItems, readValue_skip]

theorem readKey_skip (s : List Char) : readKey (Blank.skip s) = readKey s := by
  rw [readKey, readKey, Blank.skip_skip]

theorem readMembers_skip (fuel : Nat) (s : List Char) :
    readMembers fuel (Blank.skip s) = readMembers fuel s := by
  cases fuel with
  | zero => rfl
  | succ fuel => rw [readMembers, readMembers, readKey_skip]

theorem readValue_string (fuel : Nat) (t : String) (rest : List Char) :
    readValue (fuel + 1) (quoted t ++ rest) = some (.string (some t), rest) := by
  rw [quoted, List.cons_append, List.append_assoc, readValue, Blank.skip_cons rfl]
  simp only [List.cons_append, List.nil_append, readString_quoted, Option.map_some]

/-- A sign or a digit in front is the start of a number. -/
theorem readValue_number {c : Char} (hc : c = '-' ∨ c.isDigit = true) :
    readValue (fuel + 1) (c :: s) =
      (NumberLiteral.read (c :: s)).map fun r => (.number r.1, r.2) := by
  have hblank : Blank.isBlank c = false := Blank.isBlank_of_number hc
  rw [readValue, Blank.skip_cons hblank]
  split
  case h_7 => rfl
  all_goals
    next hcons =>
      obtain ⟨rfl, -⟩ := List.cons.inj hcons
      exact absurd hc (by decide)

theorem readValue_integer (fuel : Nat) (n : Int) (h : NumberLiteral.EndsNumber rest) :
    readValue (fuel + 1) (Digits.ofInt n ++ rest) = some (.number (.ofInt n), rest) := by
  have hread := NumberLiteral.read_ofInt_append n h
  obtain ⟨c, cs, hcons, hc⟩ := Digits.ofInt_eq_cons n
  rw [hcons, List.cons_append] at hread ⊢
  rw [readValue_number hc, hread]
  rfl

theorem readValue_float (fuel : Nat) {x : Double} (hx : x.isFinite = true)
    (h : NumberLiteral.EndsNumber rest) :
    readValue (fuel + 1) (numberChars (.float x) ++ rest) = some (.number (.ofDouble x), rest) := by
  have hread := NumberLiteral.read_numberChars_append hx h
  obtain ⟨c, cs, hcons, hc⟩ := NumberLiteral.numberChars_eq_cons hx
  rw [hcons, List.cons_append] at hread ⊢
  rw [readValue_number hc, hread]
  rfl

/-- The items of an array start with no closing bracket. -/
theorem readValue_array (h : ∀ t, Blank.skip s ≠ ']' :: t) :
    readValue (fuel + 1) ('[' :: s) = (readItems fuel s).map fun r => (.array r.1, r.2) := by
  rw [readValue, Blank.skip_cons rfl]
  simp only [readItems_skip]

theorem readValue_object (h : ∀ t, Blank.skip s ≠ '}' :: t) :
    readValue (fuel + 1) ('{' :: s) = (readMembers fuel s).map fun r => (.object r.1, r.2) := by
  rw [readValue, Blank.skip_cons rfl]
  simp only [readMembers_skip]

theorem readItems_last (hx : readValue fuel s = some (x, b ++ ']' :: rest))
    (hb : ∀ c ∈ b, Blank.isBlank c = true) : readItems (fuel + 1) s = some ([x], rest) := by
  rw [readItems, hx]
  simp only [Option.bind_eq_bind, Option.bind_some, Blank.skip_append hb]
  rw [Blank.skip_cons rfl]
  rfl

theorem readItems_more (hx : readValue fuel s = some (x, ',' :: rest)) :
    readItems (fuel + 1) s = (readItems fuel rest).map fun r => (x :: r.1, r.2) := by
  rw [readItems, hx]
  simp only [Option.bind_eq_bind, Option.bind_some]
  rw [Blank.skip_cons rfl]
  rfl

theorem readKey_quoted (k : String) (t : List Char) :
    readKey (quoted k ++ ':' :: t) = some (some k, t) := by
  rw [readKey, quoted, List.cons_append, List.append_assoc, Blank.skip_cons rfl]
  simp only [List.cons_append, List.nil_append, readString_quoted, Option.bind_eq_bind,
    Option.bind_some]
  rw [Blank.skip_cons rfl]
  rfl

theorem readMembers_last {key : Option String} {t : List Char} (hk : readKey s = some (key, t))
    (hx : readValue fuel t = some (x, b ++ '}' :: rest))
    (hb : ∀ c ∈ b, Blank.isBlank c = true) :
    readMembers (fuel + 1) s = some ([(key, x)], rest) := by
  rw [readMembers, hk]
  simp only [Option.bind_eq_bind, Option.bind_some, hx, Blank.skip_append hb]
  rw [Blank.skip_cons rfl]
  rfl

theorem readMembers_more {key : Option String} {t : List Char} (hk : readKey s = some (key, t))
    (hx : readValue fuel t = some (x, ',' :: rest)) :
    readMembers (fuel + 1) s = (readMembers fuel rest).map fun r => ((key, x) :: r.1, r.2) := by
  rw [readMembers, hk]
  simp only [Option.bind_eq_bind, Option.bind_some, hx]
  rw [Blank.skip_cons rfl]
  rfl

end Steps

open Layout NumberLiteral

variable (layout : Layout)

theorem endsNumber_cons {c : Char} (hc : c.isDigit = false ∧ c ≠ '.' ∧ c ≠ 'e' ∧ c ≠ 'E')
    (s : List Char) : EndsNumber (c :: s) := by
  rintro _ ⟨⟩
  exact hc

theorem endsNumber_itemsChars (depth outer : Nat) (xs : List Json) (rest : List Char) :
    EndsNumber (layout.itemsChars depth xs ++ (layout.newline outer ++ ']' :: rest)) := by
  cases xs with
  | nil => exact endsNumber_newline_cons (endsNumber_cons (by decide) rest)
  | cons x xs => exact endsNumber_cons (by decide) _

theorem endsNumber_membersChars (depth outer : Nat) (ms : List (String × Json))
    (rest : List Char) :
    EndsNumber (layout.membersChars depth ms ++ (layout.newline outer ++ '}' :: rest)) := by
  cases ms with
  | nil => exact endsNumber_newline_cons (endsNumber_cons (by decide) rest)
  | cons m ms => exact endsNumber_cons (by decide) _

-- The induction is on the value. The fuel is bounded by the text and not by the nesting, so
-- that one bound serves the value, the items after the first and the members alike.
mutual

/-- The text of a value is read as its tree. -/
theorem readValue_chars : (j : Json) → j.IsFinite → (fuel depth : Nat) → (rest : List Char) →
    (layout.chars depth j).length ≤ fuel → EndsNumber rest →
    readValue fuel (layout.chars depth j ++ rest) = some (ofJson j, rest)
  | .null, _, _ + 1, _, _, _, _ => rfl
  | .boolean true, _, _ + 1, _, _, _, _ => rfl
  | .boolean false, _, _ + 1, _, _, _, _ => rfl
  | .number (.integer n), _, 0, _, _, hfuel, _ => by
    obtain ⟨c, cs, hcons, -⟩ := Digits.ofInt_eq_cons n
    rw [Layout.chars, numberChars, hcons] at hfuel
    cases hfuel
  | .number (.integer n), _, fuel + 1, _, _, _, hrest => readValue_integer fuel n hrest
  | .number (.float _), .float hx, 0, _, _, hfuel, _ => by
    obtain ⟨c, cs, hcons, -⟩ := NumberLiteral.numberChars_eq_cons hx
    rw [Layout.chars, hcons] at hfuel
    cases hfuel
  | .number (.float _), .float hx, fuel + 1, _, _, _, hrest => readValue_float fuel hx hrest
  | .string s, _, fuel + 1, _, rest, _, _ => readValue_string fuel s rest
  | .array [], _, _ + 1, _, _, _, _ => rfl
  | .object [], _, _ + 1, _, _, _, _ => rfl
  | .array (x :: xs), .array h, fuel + 1, depth, rest, hfuel, _ => by
    obtain ⟨c, cs, hcons, hblank, hc⟩ := chars_eq_cons layout (depth + 1) (h x List.mem_cons_self)
    simp only [Layout.chars, List.length_cons, List.length_append] at hfuel
    have hitems := readItems_itemsChars (x :: xs) h fuel (depth + 1) depth rest rfl (by
      simp only [List.length_append]
      omega)
    rw [Layout.chars, List.cons_append, readValue_array]
    · simp only [List.append_assoc, List.cons_append, List.nil_append] at hitems ⊢
      rw [hitems]
      rfl
    · -- the reader looks for a closing bracket first, and no item starts with one
      intro t
      simp only [List.append_assoc, Blank.skip_append (isBlank_newline layout _), hcons,
        List.cons_append, Blank.skip_cons hblank]
      intro heq
      exact hc (List.cons.inj heq).1
  | .object ((k, x) :: ms), .object h, fuel + 1, depth, rest, hfuel, _ => by
    simp only [Layout.chars, List.length_cons, List.length_append] at hfuel
    have hmembers := readMembers_membersChars ((k, x) :: ms) h fuel (depth + 1) depth rest rfl (by
      simp only [List.length_append]
      omega)
    rw [Layout.chars, List.cons_append, readValue_object]
    · simp only [List.append_assoc, List.cons_append, List.nil_append] at hmembers ⊢
      rw [hmembers]
      rfl
    · intro t
      simp only [List.append_assoc, Blank.skip_append (isBlank_newline layout _), quoted,
        List.cons_append, Blank.skip_cons (c := '"') rfl]
      intro heq
      cases (List.cons.inj heq).1

/-- The items of an array up to its bracket; the comma that stands in front of the first
item when others precede it is taken off. -/
theorem readItems_itemsChars : (xs : List Json) → (∀ x ∈ xs, x.IsFinite) →
    (fuel depth outer : Nat) → (rest : List Char) → {s : List Char} →
    layout.itemsChars depth xs = ',' :: s → s.length < fuel →
    readItems fuel (s ++ (layout.newline outer ++ ']' :: rest)) = some (ofItems xs, rest)
  | x :: xs, h, fuel + 1, depth, outer, rest, _, rfl, hfuel => by
    obtain ⟨hx, hxs⟩ := List.forall_mem_cons.1 h
    have hblank := isBlank_newline layout depth
    simp only [List.length_append] at hfuel
    have hvalue := readValue_chars x hx fuel depth _ (by omega)
      (endsNumber_itemsChars layout depth outer xs rest)
    rw [← readValue_blank_append hblank] at hvalue
    simp only [List.append_assoc]
    cases xs with
    | nil => exact readItems_last hvalue (isBlank_newline layout outer)
    | cons y ys =>
      simp only [itemsChars, List.length_cons, List.length_append] at hfuel
      have hrest := readItems_itemsChars (y :: ys) hxs fuel depth outer rest rfl (by
        simp only [List.length_append]
        omega)
      rw [itemsChars, List.cons_append] at hvalue ⊢
      rw [readItems_more hvalue, hrest]
      rfl

theorem readMembers_membersChars : (ms : List (String × Json)) → (∀ m ∈ ms, m.2.IsFinite) →
    (fuel depth outer : Nat) → (rest : List Char) → {s : List Char} →
    layout.membersChars depth ms = ',' :: s → s.length < fuel →
    readMembers fuel (s ++ (layout.newline outer ++ '}' :: rest)) = some (ofMembers ms, rest)
  | (k, x) :: ms, h, fuel + 1, depth, outer, rest, _, rfl, hfuel => by
    obtain ⟨hx, hms⟩ := List.forall_mem_cons.1 h
    have hblank := isBlank_newline layout depth
    obtain ⟨gap, hcolon, hgap⟩ := colon_eq_cons layout
    simp only [List.length_append] at hfuel
    have hvalue := readValue_chars x hx fuel depth _ (by omega)
      (endsNumber_membersChars layout depth outer ms rest)
    rw [← readValue_blank_append hgap] at hvalue
    have hkey : ∀ t,
        readKey (layout.newline depth ++ (quoted k ++ ':' :: t)) = some (some k, t) := by
      intro t
      rw [← readKey_skip, Blank.skip_append hblank, readKey_skip, readKey_quoted]
    simp only [List.append_assoc, hcolon, List.cons_append]
    cases ms with
    | nil => exact readMembers_last (hkey _) hvalue (isBlank_newline layout outer)
    | cons m ms =>
      simp only [membersChars, List.length_cons, List.length_append] at hfuel
      have hrest := readMembers_membersChars (m :: ms) hms fuel depth outer rest rfl (by
        simp only [List.length_append]
        omega)
      rw [membersChars, List.cons_append] at hvalue ⊢
      rw [readMembers_more (hkey _) hvalue, hrest]
      rfl

end

/-- A written value is read back as its tree. -/
theorem read_write {j : Json} (h : j.IsFinite) :
    read (j.write layout) = some (ofJson j) := by
  have hvalue :=
    readValue_chars layout j h (2 * (layout.chars 0 j).length + 2) 0 [] (by omega) nofun
  rw [List.append_nil] at hvalue
  rw [read, write, String.toList_ofList, readChars, hvalue]
  rfl

end Source

end Json

end PropertyGraph
