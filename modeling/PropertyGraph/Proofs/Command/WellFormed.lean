import PropertyGraph.Proofs.Command.Statement

/-! Well-formed commands. The grammar has lexemes for each of them, and every one of these has
a spelling. -/

namespace PropertyGraph

open Token

/-! ### Lexemes that have a spelling -/

namespace Lexeme

def isSpellable : Lexeme → Bool
  | .keyword w => isKeyword w
  | .name w => isName w
  | .property x p => isName x && isName p
  | .natural _ | .integer _ | .text _ => true
  | .symbol w => symbols.contains w

theorem inside_escape (cs : List Char) : Inside '"' cs (cs.flatMap escape) := by
  induction cs with
  | nil => exact .nil
  | cons c cs ih =>
    rw [List.flatMap_cons, escape]
    split
    · next hc =>
      rcases hc with rfl | rfl
      · exact .quote ih
      · exact .backslash ih
    · next hc =>
      rw [not_or] at hc
      exact .plain hc.1 hc.2 ih

theorem map_toUpper_of_isKeyword {w : String} (hw : isKeyword w = true) :
    w.toList.map Char.toUpper = w.toList := by
  have hself : ∀ c ∈ w.toList, c.toUpper = c := fun c hc =>
    toUpper_of_not_isLower (not_isLower_of_isUpper (isUpper_of_isKeyword hw c hc))
  rw [List.map_congr_left hself, List.map_id']

theorem exists_spells {x : Lexeme} (h : x.isSpellable = true) : ∃ s, x.Spells s := by
  cases x with
  | keyword w => exact ⟨_, .keyword h (map_toUpper_of_isKeyword h)⟩
  | name w => exact ⟨_, .name h⟩
  | property x p =>
    rw [isSpellable, Bool.and_eq_true] at h
    exact ⟨_, .property h.1 h.2⟩
  | natural n =>
    have hn := Spells.natural (Digits.isNumeral_ofNat n)
    rw [Digits.toNat_ofNat] at hn
    exact ⟨_, hn⟩
  | integer n =>
    rcases Int.eq_nat_or_neg n with ⟨m, rfl | rfl⟩
    · have hn := Spells.positive (Digits.isNumeral_ofNat m)
      rw [Digits.toNat_ofNat] at hn
      exact ⟨_, hn⟩
    · have hn := Spells.negative (Digits.isNumeral_ofNat m)
      rw [Digits.toNat_ofNat] at hn
      exact ⟨_, hn⟩
  | text s => exact ⟨_, .text (.inl rfl) (inside_escape s.toList)⟩
  | symbol w => exact ⟨_, .symbol (List.contains_iff_mem.1 h)⟩

end Lexeme

theorem exists_spelled {xs : List Lexeme} (h : ∀ x ∈ xs, x.isSpellable = true) :
    ∃ s, Spelled xs s := by
  induction xs with
  | nil => exact ⟨_, .nil⟩
  | cons x xs ih =>
    obtain ⟨hx, hxs⟩ := List.forall_mem_cons.1 h
    obtain ⟨s, hs⟩ := Lexeme.exists_spells hx
    obtain ⟨rest, hrest⟩ := ih hxs
    have hgap : Blank.IsGap [' '] := Blank.isGap_singleton rfl
    exact ⟨_, .cons hgap hs hrest⟩

/-- Some of the lexemes that a rule has can be spelled. -/
def Expressible (p : List Lexeme → Prop) : Prop :=
  ∃ xs, p xs ∧ ∀ x ∈ xs, x.isSpellable = true

/-! ### Parts that have a spelling -/

mutual

theorem Value.expressible : (v : Value) → v.IsFloatFree → Expressible v.Written
  | .text s, _ => ⟨_, .text s, List.forall_mem_singleton.2 rfl⟩
  | .integer n, _ => ⟨_, .integer n, List.forall_mem_singleton.2 rfl⟩
  | .float x, h => absurd (.self (.float x)) (h x)
  | .boolean true, _ => ⟨_, .isTrue, List.forall_mem_singleton.2 rfl⟩
  | .boolean false, _ => ⟨_, .isFalse, List.forall_mem_singleton.2 rfl⟩
  | .array [], _ => ⟨_, .empty, by decide⟩
  | .array (v :: rest), h => by
    obtain ⟨xs, hxs, hspell⟩ := Value.expressible_items (v :: rest) (List.cons_ne_nil v rest)
      (isFloatFree_array_iff.1 h)
    exact ⟨_, .array hxs, List.forall_mem_cons.2 ⟨rfl, hspell⟩⟩

theorem Value.expressible_items : (items : List Value) → items ≠ [] →
    (∀ v ∈ items, v.IsFloatFree) → Expressible (Value.ItemsWritten items)
  | [v], _, h => by
    obtain ⟨xs, hxs, hspell⟩ := Value.expressible v (h v List.mem_cons_self)
    exact ⟨_, .last hxs, List.forall_mem_append.2 ⟨hspell, List.forall_mem_singleton.2 rfl⟩⟩
  | v :: w :: rest, _, h => by
    obtain ⟨hv, hrest⟩ := List.forall_mem_cons.1 h
    obtain ⟨xs, hxs, hspell⟩ := Value.expressible v hv
    obtain ⟨ys, hys, hspells⟩ :=
      Value.expressible_items (w :: rest) (List.cons_ne_nil w rest) hrest
    exact ⟨_, .more hxs hys,
      List.forall_mem_append.2 ⟨hspell, List.forall_mem_cons.2 ⟨rfl, hspells⟩⟩⟩

end

namespace Bag

/-- Every key can be quoted. -/
theorem expressible_properties {es : List (String × Value)} (hne : es ≠ [])
    (h : ∀ v ∈ es.map Prod.snd, v.IsFloatFree) : Expressible (PropertiesWritten es) := by
  induction es with
  | nil => exact absurd rfl hne
  | cons e rest ih =>
    obtain ⟨k, v⟩ := e
    obtain ⟨hv, hrest⟩ := List.forall_mem_cons.1 h
    obtain ⟨ys, hys, hspell⟩ := v.expressible hv
    cases rest with
    | nil =>
      refine ⟨_, .last (.text k) hys, ?_⟩
      simp only [List.forall_mem_cons, List.forall_mem_append]
      exact ⟨rfl, rfl, hspell, rfl, List.forall_mem_nil _⟩
    | cons e rest =>
      obtain ⟨zs, hzs, hspells⟩ := ih (List.cons_ne_nil e rest) hrest
      refine ⟨_, .more (.text k) hys hzs, ?_⟩
      simp only [List.forall_mem_cons, List.forall_mem_append]
      exact ⟨rfl, rfl, hspell, rfl, hspells⟩

theorem expressible_block {b : Bag} (h : ∀ v ∈ b.entries.map Prod.snd, v.IsFloatFree) :
    Expressible b.BlockWritten := by
  by_cases hne : b.entries = []
  · have hb : b = ∅ := OrderedMap.ext hne
    rw [hb]
    exact ⟨_, .empty, by decide⟩
  · obtain ⟨xs, hxs, hspell⟩ := expressible_properties hne h
    exact ⟨_, .properties hxs, List.forall_mem_cons.2 ⟨rfl, hspell⟩⟩

end Bag

namespace Condition

/-- Nothing in the condition always holds. -/
def isProper : Condition → Bool
  | .always => false
  | .comparison .. => true
  | .and a b | .or a b => a.isProper && b.isProper

/-- The variables and the properties in a condition. -/
def names : Condition → List String
  | .always => []
  | .comparison x p _ _ => [x, p]
  | .and a b | .or a b => a.names ++ b.names

/-- The values that a condition compares with. -/
def values : Condition → List Value
  | .always => []
  | .comparison _ _ _ v => [v]
  | .and a b | .or a b => a.values ++ b.values

theorem isSpellable_symbol (op : Operator) : (Lexeme.symbol op.symbol).isSpellable = true := by
  cases op <;> decide

variable {c : Condition}

theorem expressible_group (h : Expressible (Written .disjunction c)) :
    Expressible (Written .term c) := by
  obtain ⟨xs, hxs, hspell⟩ := h
  refine ⟨_, .group hxs, ?_⟩
  simp only [List.forall_mem_cons, List.forall_mem_append]
  exact ⟨rfl, hspell, rfl, List.forall_mem_nil _⟩

/-- With parentheses around every part there is no order to keep. -/
theorem expressible (hc : c.isProper = true) (hnames : ∀ w ∈ c.names, isName w = true)
    (hvalues : ∀ v ∈ c.values, v.IsFloatFree) : Expressible (Written .disjunction c) := by
  induction c with
  | always => cases hc
  | comparison x p op v =>
    obtain ⟨ys, hys, hspell⟩ := v.expressible (hvalues v List.mem_cons_self)
    have hx : isName x = true := hnames x (.head _)
    have hp : isName p = true := hnames p (.tail _ (.head _))
    refine ⟨_, .conjunction (.term (.comparison op.symbol_mem_spellings hys)), ?_⟩
    simp only [List.forall_mem_cons]
    exact ⟨by rw [Lexeme.isSpellable, hx, hp]; rfl, isSpellable_symbol op, hspell⟩
  | and a b iha ihb =>
    rw [isProper, Bool.and_eq_true] at hc
    rw [names, List.forall_mem_append] at hnames
    rw [values, List.forall_mem_append] at hvalues
    obtain ⟨xs, hxs, hspell⟩ := expressible_group (iha hc.1 hnames.1 hvalues.1)
    obtain ⟨ys, hys, hspells⟩ := expressible_group (ihb hc.2 hnames.2 hvalues.2)
    refine ⟨_, .conjunction (.and (.term hxs) hys), ?_⟩
    simp only [List.forall_mem_cons, List.forall_mem_append]
    exact ⟨hspell, rfl, hspells⟩
  | or a b iha ihb =>
    rw [isProper, Bool.and_eq_true] at hc
    rw [names, List.forall_mem_append] at hnames
    rw [values, List.forall_mem_append] at hvalues
    obtain ⟨xs, hxs, hspell⟩ := expressible_group (iha hc.1 hnames.1 hvalues.1)
    obtain ⟨ys, hys, hspells⟩ := expressible_group (ihb hc.2 hnames.2 hvalues.2)
    refine ⟨_, .or (.conjunction (.term hxs)) (.term hys), ?_⟩
    simp only [List.forall_mem_cons, List.forall_mem_append]
    exact ⟨hspell, rfl, hspells⟩

theorem expressible_clause (hc : c = .always ∨ c.isProper = true)
    (hnames : ∀ w ∈ c.names, isName w = true) (hvalues : ∀ v ∈ c.values, v.IsFloatFree) :
    Expressible c.ClauseWritten := by
  rcases hc with rfl | hc
  · exact ⟨_, .absent, List.forall_mem_nil _⟩
  · obtain ⟨xs, hxs, hspell⟩ := expressible hc hnames hvalues
    exact ⟨_, .given hxs, List.forall_mem_cons.2 ⟨rfl, hspell⟩⟩

end Condition

theorem expressible_arrow {d : Direction} {xs : List Lexeme} (hd : d ≠ .both)
    (hxs : ∀ x ∈ xs, x.isSpellable = true) : Expressible (ArrowWritten d xs) := by
  cases d with
  | outgoing =>
    refine ⟨_, .outgoing xs, ?_⟩
    simp only [List.forall_mem_cons, List.forall_mem_append]
    exact ⟨rfl, hxs, rfl, List.forall_mem_nil _⟩
  | incoming =>
    refine ⟨_, .incoming xs, ?_⟩
    simp only [List.forall_mem_cons, List.forall_mem_append]
    exact ⟨rfl, hxs, rfl, List.forall_mem_nil _⟩
  | both => exact absurd rfl hd

theorem expressible_list {α : Type} {p : α → List Lexeme → Prop} {as : List α}
    (h : ∀ a ∈ as, Expressible (p a)) : Expressible (ListWritten p as) := by
  induction as with
  | nil => exact ⟨_, .nil, List.forall_mem_nil _⟩
  | cons a as ih =>
    obtain ⟨ha, has⟩ := List.forall_mem_cons.1 h
    obtain ⟨xs, hxs, hspell⟩ := ha
    obtain ⟨ys, hys, hspells⟩ := ih has
    exact ⟨_, .cons hxs hys, List.forall_mem_append.2 ⟨hspell, hspells⟩⟩

/-! ### Names -/

namespace NodeKey

variable {k : NodeKey}

theorem isSpellable_plainLexemes (h : isName k.label = true) :
    ∀ x ∈ k.plainLexemes, x.isSpellable = true := by
  simp only [plainLexemes, List.forall_mem_cons]
  exact ⟨h, rfl, List.forall_mem_nil _⟩

theorem isSpellable_lexemes (h : isName k.label = true) :
    ∀ x ∈ k.lexemes, x.isSpellable = true := by
  simp only [lexemes, List.forall_mem_cons]
  exact ⟨h, rfl, rfl, rfl, rfl, rfl, List.forall_mem_nil _⟩

end NodeKey

theorem isSpellable_endsLexemes {source target : NodeKey} (hsource : isName source.label = true)
    (htarget : isName target.label = true) :
    ∀ x ∈ Command.endsLexemes source target, x.isSpellable = true := by
  simp only [Command.endsLexemes, List.forall_mem_cons, List.forall_mem_append]
  exact ⟨rfl, NodeKey.isSpellable_lexemes hsource, rfl, NodeKey.isSpellable_lexemes htarget⟩

theorem isSpellable_taggedLexemes {name : Option String} {tag : String}
    (h : ∀ w ∈ tag :: name.toList, isName w = true) :
    ∀ x ∈ taggedLexemes name tag, x.isSpellable = true := by
  obtain ⟨htag, hname⟩ := List.forall_mem_cons.1 h
  simp only [taggedLexemes, List.forall_mem_append, List.forall_mem_cons]
  refine ⟨?_, rfl, htag, List.forall_mem_nil _⟩
  cases name with
  | none => exact List.forall_mem_nil _
  | some x => exact List.forall_mem_singleton.2 (hname x (.head _))

def Step.names (x : Step) : List String := x.kind :: x.label.toList

theorem Step.expressible {x : Step} (hd : x.direction ≠ .both) (hlabel : x.label.isSome = true)
    (hnames : ∀ w ∈ x.names, isName w = true) : Expressible x.Written := by
  obtain ⟨kind, d, label⟩ := x
  obtain ⟨label, rfl⟩ := Option.isSome_iff_exists.1 hlabel
  have hkind : ∀ x ∈ [Lexeme.name kind], x.isSpellable = true :=
    List.forall_mem_singleton.2 (hnames kind (.head _))
  have hname : isName label = true := hnames label (.tail _ (.head _))
  obtain ⟨xs, hxs, hspell⟩ := expressible_arrow (d := d) hd hkind
  exact ⟨_, .intro hxs, List.forall_mem_append.2 ⟨hspell, List.forall_mem_singleton.2 hname⟩⟩

def NodeSlot.names (n : NodeSlot) : List String := n.label :: n.name.toList

theorem NodeSlot.isSpellable_lexemes {n : NodeSlot} (h : ∀ w ∈ n.names, isName w = true) :
    ∀ x ∈ n.lexemes, x.isSpellable = true := by
  simp only [lexemes, List.forall_mem_cons, List.forall_mem_append]
  exact ⟨rfl, isSpellable_taggedLexemes h, rfl, List.forall_mem_nil _⟩

def RelationshipSlot.names (r : RelationshipSlot) : List String := r.kind :: r.name.toList

theorem expressible_segment {r : RelationshipSlot} {n : NodeSlot} (hd : r.direction ≠ .both)
    (hr : ∀ w ∈ r.names, isName w = true) (hn : ∀ w ∈ n.names, isName w = true) :
    Expressible (SegmentWritten (r, n)) := by
  obtain ⟨name, kind, d⟩ := r
  obtain ⟨xs, hxs, hspell⟩ := expressible_arrow (d := d) hd (isSpellable_taggedLexemes hr)
  exact ⟨_, .intro hxs, List.forall_mem_append.2 ⟨hspell, n.isSpellable_lexemes hn⟩⟩

def Template.names (t : Template) : List String :=
  t.start.names ++ t.segments.flatMap fun (r, n) => r.names ++ n.names

/-! ### Well-formed commands -/

namespace Command

/-- The labels, kinds, variables and properties that a command names. -/
def names : Command → List String
  | .createNode label _ => [label]
  | .createRelationship kind source target _ | .updateRelationship kind source target _ =>
    [kind, source.label, target.label]
  | .getNode key | .updateNode key _ | .deleteNode key => [key.label]
  | .getNeighbors key kind _ => key.label :: kind.toList
  | .traverse start steps c => start.label :: (steps.flatMap Step.names ++ c.names)
  | .findMatches t c => t.names ++ c.names
  | .deleteRelationship _ | .exportTo _ | .importFrom _ => []

def values : Command → List Value
  | .createNode _ b | .createRelationship _ _ _ b | .updateNode _ b
  | .updateRelationship _ _ _ b => b.entries.map Prod.snd
  | .traverse _ _ c | .findMatches _ c => c.values
  | .getNode _ | .getNeighbors .. | .deleteNode _ | .deleteRelationship _ | .exportTo _
  | .importFrom _ => []

def condition : Command → Condition
  | .traverse _ _ c | .findMatches _ c => c
  | _ => .always

/-- The directions of the steps and of the relationship slots. -/
def arrows : Command → List Direction
  | .traverse _ steps _ => steps.map Step.direction
  | .findMatches t _ => t.relationshipSlots.map RelationshipSlot.direction
  | _ => []

/-- A traversal takes a step, and every step asks for a label. -/
def hasLabelledSteps : Command → Bool
  | .traverse _ steps _ => !steps.isEmpty && steps.all (·.label.isSome)
  | _ => true

/-- What the grammar can say. Names are words, keywords among them; texts and the keys of
properties are arbitrary. -/
structure WellFormed (c : Command) : Prop where
  names : ∀ w ∈ c.names, isName w = true
  ids : ∀ n ∈ c.ids, n < 2 ^ 64
  values : ∀ v ∈ c.values, v.IsFloatFree
  condition : c.condition = .always ∨ c.condition.isProper = true
  arrows : ∀ d ∈ c.arrows, d ≠ .both
  steps : c.hasLabelledSteps = true

instance : DecidablePred WellFormed := fun c =>
  decidable_of_iff ((∀ w ∈ c.names, isName w = true) ∧ (∀ n ∈ c.ids, n < 2 ^ 64) ∧
    (∀ v ∈ c.values, v.IsFloatFree) ∧ (c.condition = .always ∨ c.condition.isProper = true) ∧
    (∀ d ∈ c.arrows, d ≠ .both) ∧ c.hasLabelledSteps = true)
    ⟨fun ⟨names, ids, values, condition, arrows, steps⟩ =>
      ⟨names, ids, values, condition, arrows, steps⟩, fun h =>
      ⟨h.names, h.ids, h.values, h.condition, h.arrows, h.steps⟩⟩

theorem isSpellable_relationship {w kind : String} {source target : NodeKey} {xs : List Lexeme}
    (hw : isKeyword w = true)
    (hnames : ∀ w ∈ [kind, source.label, target.label], isName w = true)
    (hxs : ∀ x ∈ xs, x.isSpellable = true) :
    ∀ x ∈ (Lexeme.keyword w :: .keyword "RELATIONSHIP" :: .name kind ::
      (endsLexemes source target ++ xs)), x.isSpellable = true := by
  simp only [List.forall_mem_cons] at hnames
  obtain ⟨hkind, hsource, htarget, -⟩ := hnames
  simp only [List.forall_mem_cons, List.forall_mem_append]
  exact ⟨hw, rfl, hkind, isSpellable_endsLexemes hsource htarget, hxs⟩

theorem expressible_getNeighbors {key : NodeKey} {kind : Option String} {d : Direction}
    (hnames : ∀ w ∈ key.label :: kind.toList, isName w = true) :
    Expressible (getNeighbors key kind d).Written := by
  obtain ⟨hkey, hkind⟩ := List.forall_mem_cons.1 hnames
  refine ⟨_, .getNeighbors (.given d), ?_⟩
  simp only [List.forall_mem_cons, List.forall_mem_append]
  refine ⟨rfl, rfl, NodeKey.isSpellable_plainLexemes hkey, ?_, rfl, by cases d <;> rfl,
    List.forall_mem_nil _⟩
  cases kind with
  | none => exact List.forall_mem_nil _
  | some x =>
    simp only [kindLexemes, List.forall_mem_cons]
    exact ⟨rfl, rfl, hkind x (.head _), List.forall_mem_nil _⟩

theorem expressible_traverse {start : NodeKey} {steps : List Step} {c : Condition}
    (h : (traverse start steps c).WellFormed) : Expressible (traverse start steps c).Written := by
  obtain ⟨hstart, hnames⟩ := List.forall_mem_cons.1 h.names
  obtain ⟨hnames, hcondition⟩ := List.forall_mem_append.1 hnames
  obtain ⟨hne, hlabels⟩ := Bool.and_eq_true_iff.1 h.steps
  have hsteps : ∀ x ∈ steps, Expressible x.Written := fun x hx =>
    Step.expressible (h.arrows _ (List.mem_map_of_mem hx)) (List.all_eq_true.1 hlabels x hx)
      fun w hw => hnames w (List.mem_flatMap_of_mem hx hw)
  cases steps with
  | nil => cases hne
  | cons first rest =>
    obtain ⟨⟨xs, hxs, hspell⟩, hrest⟩ := List.forall_mem_cons.1 hsteps
    obtain ⟨ys, hys, hspells⟩ := expressible_list hrest
    obtain ⟨zs, hzs, hclause⟩ := Condition.expressible_clause h.condition hcondition h.values
    refine ⟨_, .traverse hxs hys hzs, ?_⟩
    simp only [List.forall_mem_cons, List.forall_mem_append]
    exact ⟨rfl, NodeKey.isSpellable_lexemes hstart, hspell, hspells, hclause⟩

theorem expressible_findMatches {t : Template} {c : Condition}
    (h : (findMatches t c).WellFormed) : Expressible (findMatches t c).Written := by
  obtain ⟨hnames, hcondition⟩ := List.forall_mem_append.1 h.names
  obtain ⟨hstart, hnames⟩ := List.forall_mem_append.1 hnames
  have hsegments : ∀ e ∈ t.segments, Expressible (SegmentWritten e) := by
    rintro ⟨r, n⟩ he
    have hslots : ∀ w ∈ r.names ++ n.names, isName w = true := fun w hw =>
      hnames w (List.mem_flatMap.2 ⟨_, he, hw⟩)
    obtain ⟨hr, hn⟩ := List.forall_mem_append.1 hslots
    exact expressible_segment
      (h.arrows _ (List.mem_map_of_mem (List.mem_map.2 ⟨_, he, rfl⟩))) hr hn
  obtain ⟨xs, hxs, hspell⟩ := expressible_list hsegments
  obtain ⟨ys, hys, hclause⟩ := Condition.expressible_clause h.condition hcondition h.values
  refine ⟨_, .findMatches hxs hys, ?_⟩
  simp only [List.forall_mem_cons, List.forall_mem_append]
  exact ⟨rfl, NodeSlot.isSpellable_lexemes hstart, hspell, hclause⟩

theorem WellFormed.expressible {c : Command} (h : c.WellFormed) : Expressible c.Written := by
  cases c with
  | createNode label b =>
    obtain ⟨xs, hxs, hspell⟩ := Bag.expressible_block h.values
    refine ⟨_, .createNode (.given hxs), ?_⟩
    simp only [List.forall_mem_cons]
    exact ⟨rfl, rfl, h.names _ (.head _), hspell⟩
  | createRelationship kind source target b =>
    obtain ⟨xs, hxs, hspell⟩ := Bag.expressible_block h.values
    exact ⟨_, .createRelationship (.given hxs), isSpellable_relationship rfl h.names hspell⟩
  | getNode key =>
    refine ⟨_, .getNode, ?_⟩
    simp only [List.forall_mem_cons]
    exact ⟨rfl, rfl, NodeKey.isSpellable_plainLexemes (h.names _ (.head _))⟩
  | getNeighbors key kind d => exact expressible_getNeighbors h.names
  | updateNode key b =>
    obtain ⟨xs, hxs, hspell⟩ := Bag.expressible_block h.values
    refine ⟨_, .updateNode hxs, ?_⟩
    simp only [List.forall_mem_cons, List.forall_mem_append]
    exact ⟨rfl, rfl, NodeKey.isSpellable_plainLexemes (h.names _ (.head _)), hspell⟩
  | deleteNode key =>
    refine ⟨_, .deleteNode, ?_⟩
    simp only [List.forall_mem_cons]
    exact ⟨rfl, rfl, NodeKey.isSpellable_plainLexemes (h.names _ (.head _))⟩
  | updateRelationship kind source target b =>
    obtain ⟨xs, hxs, hspell⟩ := Bag.expressible_block h.values
    exact ⟨_, .updateRelationship hxs, isSpellable_relationship rfl h.names hspell⟩
  | deleteRelationship id =>
    refine ⟨_, .deleteRelationship, ?_⟩
    simp only [List.forall_mem_cons]
    exact ⟨rfl, rfl, rfl, List.forall_mem_nil _⟩
  | traverse start steps c => exact expressible_traverse h
  | findMatches t c => exact expressible_findMatches h
  | exportTo path =>
    refine ⟨_, .exportTo, ?_⟩
    simp only [List.forall_mem_cons]
    exact ⟨rfl, rfl, rfl, rfl, List.forall_mem_nil _⟩
  | importFrom path =>
    refine ⟨_, .importFrom, ?_⟩
    simp only [List.forall_mem_cons]
    exact ⟨rfl, rfl, rfl, rfl, List.forall_mem_nil _⟩

end Command

end PropertyGraph
