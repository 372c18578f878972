import PropertyGraph.Command.Literal
import PropertyGraph.Proofs.Command.Token
import PropertyGraph.Proofs.OrderedMap
import PropertyGraph.Proofs.Value.Json

/-! Values and property blocks in command texts. The rules of the grammar tell which lexemes
say a value or a block; what is read from their text settles to the value or the block
again. -/

namespace PropertyGraph

/-! ### Grammar -/

mutual

/-- The lexemes of a value; there are none for floats here. -/
inductive Value.Written : Value → List Lexeme → Prop where
  | text (s : String) : Written (.text s) [.text s]
  | integer (n : Int64) : Written (.integer n) [.integer n.toInt]
  | isTrue : Written (.boolean true) [.keyword "TRUE"]
  | isFalse : Written (.boolean false) [.keyword "FALSE"]
  | empty : Written (.array []) [.symbol "[", .symbol "]"]
  | array {items : List Value} {xs : List Lexeme} : ItemsWritten items xs →
    Written (.array items) (.symbol "[" :: xs)

/-- The lexemes of some items up to the closing bracket. -/
inductive Value.ItemsWritten : List Value → List Lexeme → Prop where
  | last {v : Value} {xs : List Lexeme} : Written v xs →
    ItemsWritten [v] (xs ++ [.symbol "]"])
  | more {v : Value} {rest : List Value} {xs ys : List Lexeme} : Written v xs →
    ItemsWritten rest ys → ItemsWritten (v :: rest) (xs ++ .symbol "," :: ys)

end

namespace Bag

inductive KeyWritten : String → Lexeme → Prop where
  | name (k : String) : KeyWritten k (.name k)
  | text (k : String) : KeyWritten k (.text k)

/-- The lexemes of some properties up to the closing brace. -/
inductive PropertiesWritten : List (String × Value) → List Lexeme → Prop where
  | last {k : String} {v : Value} {x : Lexeme} {ys : List Lexeme} : KeyWritten k x →
    v.Written ys → PropertiesWritten [(k, v)] (x :: .symbol ":" :: (ys ++ [.symbol "\x7d"]))
  | more {k : String} {v : Value} {rest : List (String × Value)} {x : Lexeme}
    {ys zs : List Lexeme} : KeyWritten k x → v.Written ys → PropertiesWritten rest zs →
    PropertiesWritten ((k, v) :: rest) (x :: .symbol ":" :: (ys ++ .symbol "," :: zs))

inductive BlockWritten : Bag → List Lexeme → Prop where
  | empty : BlockWritten ∅ [.symbol "\x7b", .symbol "\x7d"]
  | properties {b : Bag} {xs : List Lexeme} : PropertiesWritten b.entries xs →
    BlockWritten b (.symbol "\x7b" :: xs)

end Bag

/-! ### Numerals and booleans -/

namespace Draft

open Blank Token Digits

variable {gap s rest : List Char} {fuel : Nat}

theorem fraction?_stops (h : ∀ c ∈ s.head?, c ≠ '.') : fraction? s = none := by
  unfold fraction?
  split
  · exact absurd rfl (h _ rfl)
  · rfl

theorem exponent?_stops (h : Stops s) : exponent? s = none := by
  have hmark : afterExponentMark? s = none := by
    unfold afterExponentMark?
    split
    · exact absurd (h _ rfl).1 (by decide)
    · exact absurd (h _ rfl).1 (by decide)
    · rfl
  rw [exponent?, hmark]
  rfl

theorem unsigned?_integer (negative : Bool) {ds : List Char} (hds : IsNumeral ds)
    (hrest : Stops rest) : unsigned? negative (ds ++ rest) = some (.integer negative ds, rest) := by
  rw [unsigned?, split?_append hds hrest.not_isDigit]
  simp [fraction?_stops fun c hc => (hrest c hc).2, exponent?_stops hrest]

/-- A numeral with digits at its front is not negative. -/
theorem numeral?_digits {ds : List Char} (hds : IsNumeral ds) :
    numeral? (ds ++ rest) = unsigned? false (ds ++ rest) := by
  obtain ⟨d, ds, rfl⟩ := List.exists_cons_of_ne_nil hds.1
  rw [List.cons_append, numeral?]
  rintro u ⟨⟩
  exact absurd (hds.2 '-' List.mem_cons_self) (by decide)

theorem numeral?_integer {n : Int} (h : (Lexeme.integer n).Spells s) (hrest : Stops rest) :
    ∃ negative ds, numeral? (s ++ rest) = some (.integer negative ds, rest) ∧
      n = if negative then -(toNat ds : Int) else toNat ds := by
  cases h with
  | positive hds =>
    exact ⟨false, s, by rw [numeral?_digits hds, unsigned?_integer false hds hrest], rfl⟩
  | @negative ds hds => exact ⟨true, ds, unsigned?_integer true hds hrest, rfl⟩

theorem numeral?_letter {c : Char} (hc : c.isAlpha = true) : numeral? (c :: s) = none := by
  rw [numeral?, unsigned?]
  · simp [split?, split, not_isDigit_of_isAlpha hc]
  · rintro u ⟨⟩
    cases hc

def booleanWord (b : Bool) : String := if b then "TRUE" else "FALSE"

theorem boolean?_spells {b : Bool} (h : (Lexeme.keyword (booleanWord b)).Spells s)
    (hrest : Stops rest) : boolean? (s ++ rest) = some (b, rest) := by
  have hword := keyword?_spells h isSpacing_nil hrest
  rw [List.nil_append] at hword
  cases b with
  | true => rw [boolean?, show keyword? "TRUE" (s ++ rest) = some rest from hword]
  | false =>
    have hnot : keyword? "TRUE" (s ++ rest) = none :=
      keyword?_other_spells h isSpacing_nil rfl rfl (by decide)
    rw [boolean?, hnot, show keyword? "FALSE" (s ++ rest) = some rest from hword]
    rfl

/-! ### Reading values -/

theorem settleInteger_eq {n : Int64} {negative : Bool} {ds : List Char}
    (h : n.toInt = if negative then -(Digits.toNat ds : Int) else Digits.toNat ds) :
    settleInteger negative ds = .ok (.integer n) := by
  have hn := Value.int64?_toInt n
  cases negative with
  | true =>
    rw [h] at hn
    simp only [if_true] at hn
    simp [settleInteger, hn]
  | false =>
    rw [h] at hn
    simp only [Bool.false_eq_true, if_false] at hn
    simp [settleInteger, hn]

/-- What does not start with a bracket is a quoted text, a numeral or a boolean. -/
theorem literal?_cons {c : Char} (hgap : IsSpacing gap) (hc : isBlank c = false)
    (hne : c ≠ '[') : literal? (fuel + 1) (gap ++ c :: rest) = match quoted? (c :: rest) with
      | some (text, s) => some (.text text, s)
      | none =>
        match numeral? (c :: rest) with
        | some r => some r
        | none => (boolean? (c :: rest)).map fun r => (.boolean r.1, r.2) := by
  rw [literal?, hgap.skip_append, skip_cons hc]
  split
  · next heq =>
    cases heq
    exact absurd rfl hne
  · rfl

theorem literal?_text {t : String} (h : (Lexeme.text t).Spells s) (hgap : IsSpacing gap) :
    literal? (fuel + 1) (gap ++ (s ++ rest)) = some (.text t, rest) := by
  have hquoted : quoted? (s ++ rest) = some (t, rest) := quoted?_spells h isSpacing_nil
  obtain ⟨c, u, rfl, hc⟩ := h.eq_cons
  have hne : c ≠ '[' := by
    rintro rfl
    cases hc
  rw [List.cons_append] at hquoted ⊢
  rw [literal?_cons hgap h.isBlank_head hne, hquoted]

theorem literal?_numeral {l : Literal} {c : Char} (hgap : IsSpacing gap)
    (hc : c = '-' ∨ c.isDigit = true) (h : numeral? (c :: s) = some (l, rest)) :
    literal? (fuel + 1) (gap ++ c :: s) = some (l, rest) := by
  have hne : ∀ {d : Char}, d ≠ '-' → d.isDigit = false → c ≠ d := by
    rintro d hminus hdigit rfl
    rcases hc with hc | hc
    · exact hminus hc
    · rw [hc] at hdigit
      cases hdigit
  have hblank : isBlank c = false := by
    rw [← Bool.not_eq_true]
    intro hblank
    rcases isBlank_iff.1 hblank with hc | hc | hc | hc <;> exact hne (by decide) rfl hc
  rw [literal?_cons hgap hblank (hne (by decide) rfl),
    quoted?_cons_eq_none hblank (hne (by decide) rfl) (hne (by decide) rfl), h]

theorem literal?_integer {n : Int64} (h : (Lexeme.integer n.toInt).Spells s)
    (hgap : IsSpacing gap) (hrest : Stops rest) :
    ∃ l, literal? (fuel + 1) (gap ++ (s ++ rest)) = some (l, rest) ∧
      l.settle = .ok (.integer n) := by
  obtain ⟨negative, ds, hnumeral, hn⟩ := numeral?_integer h hrest
  obtain ⟨c, u, rfl, hc⟩ := h.eq_cons
  simp only [Lexeme.leads, Bool.or_eq_true, beq_iff_eq] at hc
  exact ⟨_, literal?_numeral hgap hc hnumeral, by rw [Literal.settle, settleInteger_eq hn]⟩

theorem literal?_boolean {b : Bool} (h : (Lexeme.keyword (booleanWord b)).Spells s)
    (hgap : IsSpacing gap) (hrest : Stops rest) :
    literal? (fuel + 1) (gap ++ (s ++ rest)) = some (.boolean b, rest) := by
  have hboolean := boolean?_spells h hrest
  obtain ⟨c, u, rfl, hc⟩ := h.eq_cons
  rw [List.cons_append] at hboolean ⊢
  have hne : ∀ {d : Char}, d.isAlpha = false → c ≠ d := by
    rintro d hd rfl
    rw [show c.isAlpha = true from hc] at hd
    cases hd
  rw [literal?_cons hgap h.isBlank_head (hne rfl),
    quoted?_cons_eq_none h.isBlank_head (hne rfl) (hne rfl), numeral?_letter hc, hboolean]
  rfl

variable {x : Lexeme} {xs more : List Lexeme}

/-- No value starts with a closing bracket. -/
theorem head_written {v : Value} (h : v.Written xs) :
    ∃ x ys, xs = x :: ys ∧ x.leads ']' = false := by
  cases h with
  | text s => exact ⟨_, _, rfl, rfl⟩
  | integer n => exact ⟨_, _, rfl, rfl⟩
  | isTrue => exact ⟨_, _, rfl, rfl⟩
  | isFalse => exact ⟨_, _, rfl, rfl⟩
  | empty => exact ⟨_, _, rfl, rfl⟩
  | array _ => exact ⟨_, _, rfl, rfl⟩

theorem head_itemsWritten {items : List Value} (h : Value.ItemsWritten items xs) :
    ∃ x ys, xs = x :: ys ∧ x.leads ']' = false := by
  cases h with
  | last hv =>
    obtain ⟨x, ys, rfl, hx⟩ := head_written hv
    exact ⟨x, _, rfl, hx⟩
  | more hv _ =>
    obtain ⟨x, ys, rfl, hx⟩ := head_written hv
    exact ⟨x, _, rfl, hx⟩

theorem skip_symbol {w : String} (h : Spelled (.symbol w :: more) s) :
    ∃ rest, Blank.skip s = w.toList ++ rest ∧ Spelled more rest := by
  obtain ⟨t, rest, hskip, hw, hmore⟩ := h.skip_eq
  cases hw with
  | symbol => exact ⟨rest, hskip, hmore⟩

-- The induction is on the rules that the value is written by. Every step of a reader takes a
-- lexeme off, so the number of lexemes bounds the fuel.
mutual

theorem literal?_written : {v : Value} → {xs : List Lexeme} → v.Written xs → (fuel : Nat) →
    {s : List Char} → {more : List Lexeme} → xs.length ≤ fuel → Spelled (xs ++ more) s →
    ∃ l rest, literal? fuel s = some (l, rest) ∧ l.settle = .ok v ∧ Spelled more rest
  | _, _, .text t, fuel + 1, s, more, _, h => by
    cases h with
    | cons hgap hs hmore => exact ⟨_, _, literal?_text hs hgap.2, rfl, hmore⟩
  | _, _, .integer n, fuel + 1, s, more, _, h => by
    cases h with
    | cons hgap hs hmore =>
      obtain ⟨l, hl, hsettle⟩ := literal?_integer hs hgap.2 hmore.stops
      exact ⟨l, _, hl, hsettle, hmore⟩
  | _, _, .isTrue, fuel + 1, s, more, _, h => by
    cases h with
    | cons hgap hs hmore =>
      exact ⟨_, _, @literal?_boolean _ _ _ _ true hs hgap.2 hmore.stops, rfl, hmore⟩
  | _, _, .isFalse, fuel + 1, s, more, _, h => by
    cases h with
    | cons hgap hs hmore =>
      exact ⟨_, _, @literal?_boolean _ _ _ _ false hs hgap.2 hmore.stops, rfl, hmore⟩
  | _, _, .empty, fuel + 1, s, more, _, h => by
    obtain ⟨t, hskip, ht⟩ := skip_symbol h
    obtain ⟨rest, hrest, hmore⟩ := Token.symbol?_self ht
    refine ⟨.array [], rest, ?_, rfl, hmore⟩
    rw [literal?, hskip]
    simp [hrest]
  | _, _, .array hitems, fuel + 1, s, more, hfuel, h => by
    obtain ⟨t, hskip, ht⟩ := skip_symbol h
    obtain ⟨x, ys, rfl, hx⟩ := head_itemsWritten hitems
    have hnone : Token.symbol? "]" t = none := Token.symbol?_other ht rfl hx
    obtain ⟨ls, rest, hls, hsettle, hmore⟩ :=
      items?_written hitems fuel (Nat.le_of_succ_le_succ hfuel) ht
    refine ⟨.array ls, rest, ?_, by rw [Literal.settle, hsettle]; rfl, hmore⟩
    rw [literal?, hskip]
    simp [hnone, hls]

theorem items?_written : {items : List Value} → {xs : List Lexeme} →
    Value.ItemsWritten items xs → (fuel : Nat) → {s : List Char} → {more : List Lexeme} →
    xs.length ≤ fuel → Spelled (xs ++ more) s →
    ∃ ls rest, items? fuel s = some (ls, rest) ∧ Literal.settleItems ls = .ok items ∧
      Spelled more rest
  | _, _, .last hv, fuel, s, more, hfuel, h => by
    rw [List.length_append] at hfuel
    rw [List.append_assoc] at h
    match fuel with
    | fuel + 1 =>
      obtain ⟨l, t, hl, hsettle, ht⟩ := literal?_written hv fuel (Nat.le_of_succ_le_succ hfuel) h
      obtain ⟨rest, hskip, hmore⟩ := skip_symbol ht
      refine ⟨[l], rest, ?_, by rw [Literal.settleItems, hsettle]; rfl, hmore⟩
      rw [items?, hl]
      simp [hskip]
  | _, _, @Value.ItemsWritten.more _ _ xs ys hv hitems, fuel, s, more, hfuel, h => by
    rw [List.length_append, List.length_cons] at hfuel
    rw [List.append_assoc, List.cons_append] at h
    match fuel with
    | fuel + 1 =>
      obtain ⟨l, t, hl, hsettle, ht⟩ := literal?_written hv fuel (by omega) h
      obtain ⟨u, hskip, hu⟩ := skip_symbol ht
      obtain ⟨ls, rest, hls, hsettles, hmore⟩ := items?_written hitems fuel (by omega) hu
      refine ⟨l :: ls, rest, ?_, ?_, hmore⟩
      · rw [items?, hl]
        simp [hskip, hls]
      · rw [Literal.settleItems, hsettle, hsettles]
        rfl

end

theorem value?_written {v : Value} (hv : v.Written xs) (h : Spelled (xs ++ more) s) :
    ∃ l rest, value? s = some (l, rest) ∧ l.settle = .ok v ∧ Spelled more rest := by
  have hlength := h.length_left_le
  exact literal?_written hv (fuelFor s) (by rw [fuelFor]; omega) h

/-! ### Reading blocks -/

theorem key?_written {k : String} (hx : Bag.KeyWritten k x) (h : Spelled (x :: more) s) :
    ∃ rest, key? s = some (k, rest) ∧ Spelled more rest := by
  cases hx with
  | name =>
    obtain ⟨rest, hrest, hmore⟩ := Token.word?_name h
    exact ⟨rest, by rw [key?, hrest]; rfl, hmore⟩
  | text =>
    have hnone : Token.word? s = none := by
      refine Token.word?_eq_none h fun c hc => ?_
      simp only [Lexeme.leads, Bool.or_eq_true, beq_iff_eq] at hc
      rcases hc with rfl | rfl <;> rfl
    obtain ⟨rest, hrest, hmore⟩ := Token.quoted?_text h
    exact ⟨rest, by rw [key?, hnone, hrest]; rfl, hmore⟩

/-- No key is a closing brace. -/
theorem head_propertiesWritten {es : List (String × Value)} (h : Bag.PropertiesWritten es xs) :
    ∃ x ys, xs = x :: ys ∧ x.leads '\x7d' = false := by
  have hkey : ∀ {k : String} {x : Lexeme}, Bag.KeyWritten k x → x.leads '\x7d' = false := by
    intro k x hx
    cases hx <;> rfl
  cases h with
  | last hx => exact ⟨_, _, rfl, hkey hx⟩
  | more hx => exact ⟨_, _, rfl, hkey hx⟩

theorem property?_written {k : String} {v : Value} (hx : Bag.KeyWritten k x) (hv : v.Written xs)
    (h : Spelled (x :: .symbol ":" :: (xs ++ more)) s) :
    ∃ l rest, property? s = some ((k, l), rest) ∧ l.settle = .ok v ∧ Spelled more rest := by
  obtain ⟨t, hkey, ht⟩ := key?_written hx h
  obtain ⟨u, hcolon, hu⟩ := Token.symbol?_self ht
  obtain ⟨l, rest, hl, hsettle, hmore⟩ := value?_written hv hu
  exact ⟨l, rest, by simp [property?, hkey, hcolon, hl], hsettle, hmore⟩

/-- The literals settle to the values that stand under the same keys. -/
def SettleTo : List (String × Literal) → List (String × Value) → Prop :=
  List.Forall₂ fun p e => p.1 = e.1 ∧ p.2.settle = .ok e.2

theorem properties?_written {es : List (String × Value)} (hes : Bag.PropertiesWritten es xs) :
    ∀ (fuel : Nat) {s : List Char} {more : List Lexeme}, xs.length ≤ fuel →
      Spelled (xs ++ more) s →
      ∃ ps rest, properties? fuel s = some (ps, rest) ∧ SettleTo ps es ∧ Spelled more rest := by
  induction hes with
  | @last k v x ys hx hv =>
    intro fuel s more hfuel h
    rw [List.cons_append, List.cons_append, List.append_assoc] at h
    match fuel with
    | fuel + 1 =>
      obtain ⟨l, t, hl, hsettle, ht⟩ := property?_written hx hv h
      obtain ⟨rest, hskip, hmore⟩ := skip_symbol ht
      refine ⟨[(k, l)], rest, ?_, .cons ⟨rfl, hsettle⟩ .nil, hmore⟩
      rw [properties?, hl]
      simp [hskip]
  | @more k v es x ys zs hx hv _ ih =>
    intro fuel s more hfuel h
    simp only [List.length_cons, List.length_append] at hfuel
    rw [List.cons_append, List.cons_append, List.append_assoc, List.cons_append] at h
    match fuel with
    | fuel + 1 =>
      obtain ⟨l, t, hl, hsettle, ht⟩ := property?_written hx hv h
      obtain ⟨u, hskip, hu⟩ := skip_symbol ht
      obtain ⟨ps, rest, hps, hsettles, hmore⟩ := ih fuel (by omega) hu
      refine ⟨(k, l) :: ps, rest, ?_, .cons ⟨rfl, hsettle⟩ hsettles, hmore⟩
      rw [properties?, hl]
      simp [hskip, hps]

/-- Properties with different keys settle to the bag with these in it. -/
theorem settleBag_eq {b : Bag} {ps : List (String × Literal)} {es : List (String × Value)}
    (h : SettleTo ps es) (hkeys : (b.keys ++ es.map Prod.fst).Nodup) :
    settleBag b ps = .ok (b.insertAll es) := by
  induction h generalizing b with
  | nil => rfl
  | @cons p e ps es hp _ ih =>
    obtain ⟨k, l⟩ := p
    obtain ⟨rfl, hsettle⟩ := hp
    have hnew : e.1 ∉ b.keys := fun hmem => (List.nodup_append.1 hkeys).2.2 _ hmem _ (by simp) rfl
    have hcontains : b.contains e.1 = false :=
      Bool.eq_false_iff.2 fun hc => hnew (OrderedMap.mem_keys_iff.2 hc)
    have hrest : ((b.insert e.1 e.2).keys ++ es.map Prod.fst).Nodup := by
      rw [OrderedMap.keys, OrderedMap.entries_insert_of_not_mem hnew, List.map_append]
      simpa [OrderedMap.keys] using hkeys
    rw [settleBag, hsettle, ok_bind, hcontains, if_neg Bool.false_ne_true, ih hrest]
    rfl

theorem block?_written {b : Bag} (hb : b.BlockWritten xs) (h : Spelled (xs ++ more) s) :
    ∃ ps rest, block? s = some (ps, rest) ∧ settleBag ∅ ps = .ok b ∧ Spelled more rest := by
  cases hb with
  | empty =>
    obtain ⟨t, ht, hopen⟩ := Token.symbol?_self h
    obtain ⟨rest, hrest, hmore⟩ := Token.symbol?_self hopen
    exact ⟨[], rest, by simp [block?, ht, hrest], rfl, hmore⟩
  | @properties _ xs hes =>
    rw [List.cons_append] at h
    obtain ⟨t, ht, hopen⟩ := Token.symbol?_self h
    obtain ⟨ps, rest, hps, hsettle, hmore⟩ :=
      properties?_written hes t.length hopen.length_left_le hopen
    obtain ⟨x, ys, rfl, hx⟩ := head_propertiesWritten hes
    have hnone : Token.symbol? "\x7d" t = none := Token.symbol?_other hopen rfl hx
    refine ⟨ps, rest, by simp [block?, ht, hnone, hps], ?_, hmore⟩
    have hbag := settleBag_eq (b := ∅) hsettle (by simpa [OrderedMap.keys] using b.nodup)
    rw [hbag]
    exact congrArg _ b.ofList_entries

/-- A block that is not empty has to be written. -/
theorem blockIfAny?_written {b : Bag} (hb : b.BlockWritten xs) (h : Spelled (xs ++ more) s) :
    ∃ ps rest, blockIfAny? s = some (ps, rest) ∧ settleBag ∅ ps = .ok b ∧ Spelled more rest := by
  obtain ⟨ps, rest, hps, hsettle, hmore⟩ := block?_written hb h
  refine ⟨ps, rest, ?_, hsettle, hmore⟩
  cases hopen : Token.symbol? "\x7b" s with
  | none =>
    rw [block?, hopen] at hps
    cases hps
  | some t => rw [blockIfAny?, hopen, hps]

end Draft

end PropertyGraph
