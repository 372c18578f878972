import PropertyGraph.Command.Statement
import PropertyGraph.Proofs.Grammar.Clause

/-! The parts of statements: nodes with their ids, the ends of relationships, and the filters of
neighbours. Only ids can be out of range here. A filter has to go on behind its first keyword for
the reader, where the grammar stops in front of the keyword. -/

namespace PropertyGraph.Grammar

open Blank Token Draft

variable {α : Type} {t : List Char} {ts front back : List Tree}

/-! ### Nodes -/

/-- The trees of a label and an id that stand side by side. -/
def PlainRefTrees (ref : Ref) (ts : List Tree) : Prop :=
  ts = [⟨.label, ref.label.toList, []⟩, ⟨.nodeId, ref.digits, []⟩] ∧ Digits.IsNumeral ref.digits

theorem agrees_plainRef (s : List Char) :
    Agrees (.all [.rule .label, .rule .nodeId]) PlainRefTrees never s (plainRef? s) := by
  refine (agrees_word rfl rfl s).bind fun l t us _ hl => ?_
  refine (agrees_digits rfl rfl t).last fun digits rest vs hdigits => ⟨_, rfl, ?_⟩
  obtain ⟨rfl, hdigits⟩ := hdigits
  cases hl
  exact ⟨rfl, hdigits⟩

theorem addKeyPart_other {found : Option String × Option Nat} {t : Tree} (hlabel : t.rule ≠ .label)
    (hid : t.rule ≠ .nodeId) : addKeyPart found t = .ok found := by
  unfold addKeyPart
  split
  · exact absurd ‹_› hlabel
  · exact absurd ‹_› hid
  · rfl

/-- The key is found among other trees. -/
theorem stands_nodeKey {ref : Ref} (hfront : ∀ t ∈ front, t.rule ≠ .label ∧ t.rule ≠ .nodeId)
    (hback : ∀ t ∈ back, t.rule ≠ .label ∧ t.rule ≠ .nodeId) (h : PlainRefTrees ref ts) :
    Stands (nodeKey (front ++ (ts ++ back))) ref.settle ts := by
  obtain ⟨hts, hdigits⟩ := h
  have hpass : ∀ {us : List Tree} (found : Option String × Option Nat),
      (∀ t ∈ us, t.rule ≠ .label ∧ t.rule ≠ .nodeId) → us.foldlM addKeyPart found = .ok found :=
    fun found hus => foldlM_pass fun t ht => addKeyPart_other (hus t ht).1 (hus t ht).2
  have hfold : (front ++ (ts ++ back)).foldlM addKeyPart (none, none) =
      (readId ref.digits).map fun n => (some ref.label, some n) := by
    rw [List.foldlM_append, hpass _ hfront, ok_bind, List.foldlM_append, hts]
    simp only [List.foldlM_cons, List.foldlM_nil, addKeyPart, ok_bind, String.ofList_toList]
    cases readId ref.digits with
    | error f => rfl
    | ok n => exact hpass _ hback
  have hkey : nodeKey (front ++ (ts ++ back)) = (readId ref.digits).map (NodeKey.mk ref.label) := by
    rw [nodeKey, hfold]
    cases readId ref.digits <;> rfl
  have hid := (stands_id (.inl rfl) hdigits).map (NodeKey.mk ref.label)
  rw [hkey, hts]
  exact hid.cons (not_hasDefect_leaf rfl)

/-- The tree of a node with its id in parentheses. -/
abbrev RefTree : Ref → List Tree → Prop := Settled .nodeRef nodeKey Ref.settle

theorem agrees_ref (s : List Char) : Agrees (.rule .nodeRef) RefTree never s (ref? s) := by
  have hbody : Agrees (Rule.body .nodeRef) PlainRefTrees never s (ref? s) := by
    refine (agrees_word rfl rfl s).bind fun l t us _ hl => ?_
    refine (passes_symbol "(" t).bind fun t vs _ hvs => ?_
    refine (passes_folded "id" t).bind fun t ws _ hws => ?_
    refine (passes_symbol "=" t).bind fun t xs _ hxs => ?_
    refine (agrees_digits rfl rfl t).bind fun digits t ys _ hdigits => ?_
    refine (passes_symbol ")" t).last fun zs hzs => ?_
    obtain ⟨rfl, hdigits⟩ := hdigits
    cases hl
    cases hvs
    cases hws
    cases hxs
    cases hzs
    exact ⟨rfl, hdigits⟩
  refine hbody.tree rfl fun ref text inner h => ?_
  have hkey := stands_nodeKey (List.forall_mem_nil _) (List.forall_mem_nil _) h
  rw [List.nil_append, List.append_nil] at hkey
  exact ⟨_, rfl, rfl, .tree rfl hkey⟩

/-- The trees of the ends of a relationship. -/
def EndsTrees (ends : Ref × Ref) (ts : List Tree) : Prop :=
  ∃ us vs ws xs, ts = us ++ (vs ++ (ws ++ xs)) ∧ Mark (.keyword "FROM") us ∧ RefTree ends.1 vs ∧
    Mark (.keyword "TO") ws ∧ RefTree ends.2 xs

theorem agrees_ends (s : List Char) :
    Agrees (.all [.keyword "FROM", .rule .nodeRef, .keyword "TO", .rule .nodeRef]) EndsTrees never
      s (ends? s) := by
  refine (passes_keyword (by decide) s).bind fun t us _ hus => ?_
  refine (agrees_ref t).bind fun source t vs _ hvs => ?_
  refine (passes_keyword (by decide) t).bind fun t ws _ hws => ?_
  exact (agrees_ref t).last fun target rest xs hxs =>
    ⟨_, rfl, us, vs, ws, xs, rfl, hus, hvs, hws, hxs⟩

/-! ### Filters of neighbours -/

/-- The trees of a filter by kind, or no tree. -/
def KindIfAny (k : Option String) (ts : List Tree) : Prop :=
  k = none ∧ ts = [] ∨ ∃ name us vs ws, k = some name ∧ ts = us ++ (vs ++ ws) ∧
    Mark (.keyword "WITH") us ∧ Mark (.keyword "RELATIONSHIP") vs ∧ Named .kind name ws

/-- The filter by kind has to stand here. -/
def AtWith (t : List Char) : Prop := ∃ rest, keyword? "WITH" t = some rest

theorem agrees_kindFilter (s : List Char) :
    Agrees (.optional (.rule .kindFilter)) KindIfAny AtWith s (kindFilter? s) := by
  have hfilter : Agrees (.rule .kindFilter) KindIfAny never s
      (keyword? "WITH" s >>= fun t => keyword? "RELATIONSHIP" t >>= fun t =>
        word? t >>= fun k => some (some k.1, k.2)) := by
    refine .silent rfl ((passes_keyword (by decide) s).bind fun t us _ hus => ?_)
    refine (passes_keyword (by decide) t).bind fun t vs _ hvs => ?_
    exact (agrees_word (r := .kind) rfl rfl t).last fun k rest ws hk =>
      ⟨_, rfl, .inr ⟨k, us, vs, ws, rfl, rfl, hus, hvs, hk⟩⟩
  rw [kindFilter?]
  cases hword : keyword? "WITH" s with
  | none => exact .optional_none (run_keyword_none rfl rfl rfl hword) (.inl ⟨rfl, rfl⟩)
  | some t =>
    rw [hword] at hfilter
    exact hfilter.optional ⟨t, (keyword?_skip _ s).trans hword⟩ fun _ => False.elim

def directionWords : List (String × Direction) :=
  [Direction.outgoing, .incoming, .both].map fun d => (d.name, d)

def DirectionTree (d : Direction) (ts : List Tree) : Prop :=
  ∃ text, ts = [⟨.direction, text, []⟩] ∧ directionOf text = .ok d

theorem agrees_direction (s : List Char) :
    Agrees (.rule .direction) DirectionTree never s (direction? s) := by
  have hwords : Distinct directionWords := by
    refine ⟨?_, ?_⟩ <;> decide
  have hread : direction? s = directionWords.findSome? fun x =>
      (keyword? (String.ofList (folds x.1)) s).map (x.2, ·) := by
    have hfolds : ∀ d : Direction, String.ofList (folds d.name) = d.name := by
      intro d
      cases d <;> decide
    rw [directionWords, List.findSome?_map, direction?]
    simp only [Function.comp_def, hfolds]
  rw [hread]
  refine (agrees_words rfl rfl hwords s).mono (fun d ts h => ?_) fun _ => id
  obtain ⟨w, text, hmem, hfold, rfl⟩ := h
  refine ⟨text, rfl, ?_⟩
  rw [directionOf, hfold]
  obtain ⟨d', -, hpair⟩ := List.mem_map.1 hmem
  cases hpair
  cases d <;> rfl

/-- The trees of a direction, or no tree. -/
def DirectionIfAny (d : Direction) (ts : List Tree) : Prop :=
  d = .outgoing ∧ ts = [] ∨ ∃ us vs, ts = us ++ vs ∧ Mark (.keyword "DIRECTION") us ∧
    DirectionTree d vs

theorem agrees_directionClause (s : List Char) :
    Agrees (.optional (.rule .directionClause)) DirectionIfAny Blocked s (directionClause? s) := by
  have hclause : Agrees (.rule .directionClause) DirectionIfAny never s
      (keyword? "DIRECTION" s >>= direction?) := by
    refine .silent rfl ((passes_keyword (by decide) s).bind fun t us _ hus => ?_)
    exact (agrees_direction t).mono (fun d vs hd => .inr ⟨us, vs, rfl, hus, hd⟩) fun _ => id
  rw [directionClause?]
  cases hword : keyword? "DIRECTION" s with
  | none => exact .optional_none (run_keyword_none rfl rfl rfl hword) (.inl ⟨rfl, rfl⟩)
  | some t =>
    rw [hword] at hclause
    exact hclause.optional (keyword?_atLetter rfl hword).1.blocked fun _ => False.elim

/-- Where a filter by kind is broken off, no direction follows. -/
theorem agrees_directionClause_stuck {q : α → List Tree → Prop} (h : AtWith (skip t)) :
    Agrees (.optional (.rule .directionClause)) q Blocked t none := by
  obtain ⟨rest, h⟩ := h
  rw [keyword?_skip] at h
  have hnone : keyword? "DIRECTION" t = none := keyword?_none rfl rfl (by decide) h
  have hblocked : Blocked (skip (skip t)) := by
    rw [skip_skip]
    exact (keyword?_atLetter rfl h).1.blocked
  exact .stuck (.optional (run_keyword_none rfl rfl rfl hnone)) hblocked

end PropertyGraph.Grammar
