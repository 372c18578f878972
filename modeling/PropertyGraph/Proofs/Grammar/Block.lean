import PropertyGraph.Proofs.Grammar.Literal

/-! Property blocks. A key is bare or quoted, and what its text says counts: two keys of a block
may be spelled in different ways and be the same. The bag of a block is the bag that its draft
settles to; there is none if a value has a defect or a key is repeated. -/

namespace PropertyGraph.Grammar

open Blank Token Draft

variable {s rest : List Char} {ts us : List Tree} {p : String × Literal}
  {ps : List (String × Literal)}

/-! ### Properties -/

/-- The tree of a key. -/
def KeyTree (k : String) (ts : List Tree) : Prop := Named .key k ts ∨ Quoted k ts

structure IsProperty (p : String × Literal) (t : Tree) : Prop where
  rule : t.rule = .property
  key : keyOf? t = some p.1
  stands : Stands (keyAndValue t.inner) (p.2.settle >>= fun v => .ok (some p.1, some v)) [t]

def PropertyTree (p : String × Literal) (ts : List Tree) : Prop := ∃ t, ts = [t] ∧ IsProperty p t

theorem agrees_key (s : List Char) :
    Agrees (.choice (.rule .key) (.rule .string)) KeyTree never s (key? s) :=
  ((agrees_word rfl rfl s).mono (fun _ _ => .inl) fun _ => id).or fun _ =>
    (agrees_quoted s).mono (fun _ _ => .inr) fun _ => id

theorem PropertyTree.of_parts {k : String} {l : Literal} {text : List Char} (hk : KeyTree k ts)
    (hl : ValueTree l us) : PropertyTree (k, l) [⟨.property, text, ts ++ us⟩] := by
  obtain ⟨t, rfl, hrule, ht⟩ := hl
  have hvalue : ∀ found : Option String × Option Value,
      Stands ([t].foldlM addPart found >>= pure)
        (l.settle >>= fun v => .ok (found.1, some v)) [t] := by
    intro found
    exact .fold_map ht (by rw [addPart, hrule]) fun v => .fold_nil (.ok _ defective_nil)
  have hparts : Stands (keyAndValue (ts ++ [t])) (l.settle >>= fun v => .ok (some k, some v))
      (ts ++ [t]) := by
    rw [keyAndValue, ← bind_pure ((ts ++ [t]).foldlM addPart (none, none))]
    rcases hk with rfl | ⟨text, inner, rfl, hk, hdefect⟩
    · refine .fold_ok ?_ (not_hasDefect_leaf rfl) (hvalue (some k, none))
      rw [addPart, String.ofList_toList]
    · refine .fold_ok ?_ ?_ (hvalue (some k, none))
      · rw [addPart, hk]
        rfl
      · rwa [hasDefect_unchecked rfl]
  refine ⟨_, rfl, rfl, ?_, ?_⟩
  · rcases hk with rfl | ⟨text, inner, rfl, hk, -⟩
    · simp [keyOf?]
    · simp [keyOf?, hk, Except.toOption]
  · exact .tree rfl hparts

theorem agrees_property (s : List Char) :
    Agrees (.rule .property) PropertyTree never s (property? s) := by
  have hbody : Agrees (Rule.body .property)
      (fun p ts => ∃ us vs, ts = us ++ vs ∧ KeyTree p.1 us ∧ ValueTree p.2 vs) never s
      (property? s) := by
    refine (agrees_key s).bind fun k t us _ hk => ?_
    refine (passes_symbol ":" t).bind fun u ws _ hw => ?_
    cases hw
    refine (agrees_literal u).last fun l rest vs hl => ⟨_, rfl, us, vs, rfl, hk, hl⟩
  refine hbody.tree rfl ?_
  rintro p text _ ⟨us, vs, rfl, hk, hl⟩
  exact .of_parts hk hl

/-! ### Blocks -/

/-- The trees of some properties. -/
def PropertiesTrees (ps : List (String × Literal)) (ts : List Tree) : Prop :=
  List.Forall₂ IsProperty ps ts

theorem propertiesTrees_singleton (h : PropertyTree p ts) : PropertiesTrees [p] ts := by
  obtain ⟨t, rfl, ht⟩ := h
  exact .cons ht .nil

theorem propertiesTrees_cons (h : PropertyTree p ts) (hs : PropertiesTrees ps us) :
    PropertiesTrees (p :: ps) (ts ++ us) := by
  obtain ⟨t, rfl, ht⟩ := h
  exact .cons ht hs

theorem PropertiesTrees.filterMap_keyOf? (h : PropertiesTrees ps ts) :
    ts.filterMap keyOf? = ps.map Prod.fst := by
  induction h with
  | nil => rfl
  | cons hp _ ih => rw [List.filterMap_cons_some hp.key, List.map_cons, ih]

/-- A block settles to a bag unless a value has a defect or a key is there already. -/
theorem PropertiesTrees.foldlM_addProperty (h : PropertiesTrees ps ts) (b : Bag) :
    ts.foldlM addProperty b = (settleBag b ps).mapError .fault ∧
      ((∃ f, settleBag b ps = .error f) ↔
        Defective ts ∨ ¬ (b.keys ++ ps.map Prod.fst).Nodup) := by
  -- The bag has the keys of the properties in front, so they take part in the repetition.
  induction h generalizing b with
  | nil =>
    refine ⟨rfl, iff_of_false nofun ?_⟩
    rintro (h | h)
    · exact defective_nil h
    · exact h (by simpa [OrderedMap.keys] using b.nodup)
  | @cons p t ps ts hp _ ih =>
    obtain ⟨name, l⟩ := p
    obtain ⟨heq, hfails⟩ := hp.stands
    rw [List.foldlM_cons, addProperty, if_pos hp.rule, heq, settleBag]
    cases hsettle : l.settle with
    | error f =>
      refine ⟨rfl, iff_of_true ⟨f, rfl⟩ (.inl (defective_cons.2 (.inl ?_)))⟩
      rw [hsettle] at hfails
      simpa using hfails.1 ⟨f, rfl⟩
    | ok v =>
      have hsound : ¬ t.HasDefect := by
        rw [hsettle] at hfails
        intro hdefect
        obtain ⟨_, he⟩ := hfails.2 (defective_cons.2 (.inl hdefect))
        cases he
      have hiff : Defective (t :: ts) ↔ Defective ts := by simp [hsound]
      cases hcontains : b.contains name with
      | true =>
        have hmem : name ∈ b.keys := OrderedMap.mem_keys_iff.2 hcontains
        have hrepeated : ¬ (b.keys ++ ((name, l) :: ps).map Prod.fst).Nodup := fun hnodup =>
          (List.nodup_append.1 hnodup).2.2 name hmem name (by simp) rfl
        simp only [ok_bind, required, hcontains, if_true, Except.mapError]
        exact ⟨rfl, iff_of_true ⟨_, rfl⟩ (.inr hrepeated)⟩
      | false =>
        have hnew : name ∉ b.keys := fun hmem => by
          rw [OrderedMap.mem_keys_iff.1 hmem] at hcontains
          cases hcontains
        obtain ⟨hfold, hiff'⟩ := ih (b.insert name v)
        have hkeys : (b.insert name v).keys = b.keys ++ [name] := by
          rw [OrderedMap.keys, OrderedMap.entries_insert_of_not_mem hnew, List.map_append]
          rfl
        rw [hkeys, List.append_assoc] at hiff'
        simp only [ok_bind, required, hcontains, Bool.false_eq_true, if_false, Except.mapError]
        refine ⟨hfold, hiff'.trans ?_⟩
        rw [hiff]
        rfl

theorem Block.run_property_close (t : List Char) :
    Run .spaced (.rule .property) ('\x7d' :: t) none := by
  have hread : property? ('\x7d' :: t) = none := rfl
  have h := agrees_property ('\x7d' :: t)
  rw [hread] at h
  exact h.run_none

/-- The fuel of the reader lasts for so many characters. -/
theorem listed_properties (fuel : Nat) (s : List Char) (hfuel : (skip s).length ≤ fuel) :
    Listed (.rule .property) '\x7d' PropertiesTrees s (properties? fuel s) := by
  induction fuel generalizing s with
  | zero =>
    have hnil : skip s = [] := List.eq_nil_of_length_eq_zero (Nat.le_zero.1 hfuel)
    have h := (agrees_property []).run_none
    refine .missed ?_
    rw [hnil]
    exact h
  | succ fuel ih =>
    have hone := agrees_property s
    rw [properties?]
    refine Listed.cons (g := properties? fuel) (by decide) hone
      (fun p rest t hread hrest => ⟨?_, ih t ?_⟩) (fun p rest t hrest => ?_)
      (fun p rest hcomma hclose => ?_) (fun _ _ => propertiesTrees_singleton)
      fun _ _ _ _ => propertiesTrees_cons
    · simp only [hrest]
    · rw [hread] at hone
      have hle := hone.length_le
      have hskip := length_skip_le t
      rw [hrest, List.length_cons] at hle
      omega
    · simp only [hrest]
    · dsimp only
      split
      · next t h => exact absurd h (hcomma t)
      · next t h => exact absurd h (hclose t)
      · rfl

theorem agrees_block (s : List Char) :
    Agrees (.rule .properties) (Settled .properties bag (settleBag ∅)) never s (block? s) := by
  have hbody : Agrees (Rule.body .properties) PropertiesTrees never s (block? s) := by
    refine (passes_symbol "\x7b" s).bind fun t ts _ hts => ?_
    cases hts
    exact Listed.enclosed rfl Block.run_property_close .nil fun _ =>
      listed_properties t.length t (length_skip_le t)
  refine hbody.tree rfl fun ps text inner h => ?_
  obtain ⟨heq, hfails⟩ := h.foldlM_addProperty ∅
  refine ⟨_, rfl, rfl, heq, hfails.trans ?_⟩
  rw [defective_singleton, hasDefect_properties, h.filterMap_keyOf?, or_comm]
  rfl

/-- Nothing that ends a command stands here. -/
def Blocked (t : List Char) : Prop := ∃ c u, t = c :: u ∧ c ≠ ';'

/-- A block, or no tree at all where there is none. -/
def BlockIfAny (ps : List (String × Literal)) (ts : List Tree) : Prop :=
  ps = [] ∧ ts = [] ∨ Settled .properties bag (settleBag ∅) ps ts

theorem agrees_blockIfAny (s : List Char) :
    Agrees (.optional (.rule .properties)) BlockIfAny Blocked s (blockIfAny? s) := by
  have hblock := agrees_block s
  rw [blockIfAny?]
  cases hopen : symbol? "\x7b" s with
  | none =>
    rw [block?, hopen] at hblock
    exact .optional_none hblock.run_none (.inl ⟨rfl, rfl⟩)
  | some t =>
    have hgiven : Agrees (.rule .properties) BlockIfAny never s (block? s) :=
      hblock.mono (fun _ _ => .inr) fun _ => id
    have hhere : Blocked (skip s) := ⟨'\x7b', t, symbol?_eq hopen, by decide⟩
    exact hgiven.optional hhere fun _ => False.elim

end PropertyGraph.Grammar
