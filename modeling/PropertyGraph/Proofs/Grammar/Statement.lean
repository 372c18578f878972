import PropertyGraph.Proofs.Grammar.Arrow
import PropertyGraph.Proofs.Grammar.Part

/-! Statements. A statement is told by its keywords, and where they do not stand no rule for it
matches. What a statement's tree stands for is made of what its parts settle to, in the order in
which they are written. -/

namespace PropertyGraph.Grammar

open Blank Token Draft

variable {α β σ : Type} {r : Rule} {s t : List Char} {ts us vs marks : List Tree}
  {words : List String} {w : String}

/-! ### Keywords in front -/

/-- What follows some keywords. -/
def keywords? (words : List String) (s : List Char) : Option (List Char) :=
  words.foldlM (fun s w => keyword? w s) s

/-- The trees of some keywords. -/
def Marks (words : List String) (ts : List Tree) : Prop :=
  List.Forall₂ (fun w t => Mark (.keyword w) [t]) words ts

theorem Marks.rule (h : Marks words marks) : ∀ t ∈ marks, ∃ w, t.rule = .keyword w := by
  induction h with
  | nil => exact List.forall_mem_nil _
  | cons hmark _ ih =>
    obtain ⟨text, ht⟩ := hmark
    cases ht
    exact List.forall_mem_cons.2 ⟨⟨_, rfl⟩, ih⟩

theorem Marks.sound (h : Marks words marks) : ¬ Defective marks := by
  induction h with
  | nil => exact defective_nil
  | cons hmark _ ih =>
    obtain ⟨text, ht⟩ := hmark
    cases ht
    rw [defective_cons]
    exact not_or.2 ⟨not_hasDefect_leaf rfl, ih⟩

theorem passes_keywords (hkey : ∀ w ∈ words, isKeyword w = true) (hwords : words ≠ [])
    (s : List Char) : Passes (.all (words.map .keyword)) (Marks words) s (keywords? words s) := by
  induction words generalizing s with
  | nil => exact absurd rfl hwords
  | cons w words ih =>
    obtain ⟨hw, hkey⟩ := List.forall_mem_cons.1 hkey
    have hpass := passes_keyword hw s
    rw [keywords?, List.foldlM_cons]
    cases words with
    | nil =>
      generalize keyword? w s = x at hpass ⊢
      cases hpass with
      | missed hrun => exact .missed hrun
      | found hrun hrest hmark =>
        obtain ⟨text, rfl⟩ := hmark
        exact .found hrun hrest (.cons ⟨text, rfl⟩ .nil)
    | cons v words =>
      generalize keyword? w s = x at hpass ⊢
      cases hpass with
      | missed hrun => exact .missed (.seq_none hrun)
      | @found _ _ t hrun hrest hmark =>
        obtain ⟨text, rfl⟩ := hmark
        have hmore := ih hkey (List.cons_ne_nil _ _) t
        rw [keywords?] at hmore
        rw [Option.bind_eq_bind, Option.bind_some]
        generalize List.foldlM (fun s w => keyword? w s) t (v :: words) = y at hmore ⊢
        cases hmore with
        | missed hrun' => exact .missed (hrun.seq_skip hrest hrun')
        | found hrun' hrest' hmarks =>
          exact .found (hrun.seq_skip hrest hrun') hrest' (.cons ⟨text, rfl⟩ hmarks)

/-- The tree of a statement stands for what the draft settles to. -/
def StatementTree (d : Draft) (ts : List Tree) : Prop :=
  ∃ t, ts = [t] ∧ Stands (statement t) d.settle [t]

/-- The rule starts with some keywords, and the reader goes on behind them. -/
structure Begins (r : Rule) (words : List String) (read : List Char → Option (Draft × List Char)) :
    Prop where
  missing : ∀ s, keywords? words s = none → Run .spaced (.rule r) (skip s) none
  agrees : ∀ s t, keywords? words s = some t → Agrees (.rule r) StatementTree Blocked s (read t)

theorem Begins.of_parts {read : List Char → Option (Draft × List Char)} {es : List Expr}
    {p : Draft → List Tree → Prop} (hparts : ∀ t, Agrees (.all es) p Blocked t (read t))
    (hkey : ∀ w ∈ words, isKeyword w = true) (hwords : words ≠ []) (hes : es ≠ [])
    (hr : r.style = .plain) (hchecked : r.isChecked = false)
    (hbody : r.body = .all (words.map .keyword ++ es))
    (hstands : ∀ d us marks text, Marks words marks → p d us →
      Stands (statement ⟨r, text, marks ++ us⟩) d.settle us) : Begins r words read := by
  have hmap : words.map Expr.keyword ≠ [] := fun h => hwords (List.map_eq_nil_iff.1 h)
  constructor
  · intro s hnone
    have hpass := passes_keywords hkey hwords s
    rw [hnone] at hpass
    cases hpass with
    | missed hrun =>
      refine .fails ?_
      rw [hr, hbody]
      exact .all_append hmap hes (.seq_none hrun)
  · intro s t hread
    have hpass := passes_keywords hkey hwords s
    rw [hread] at hpass
    cases hpass with
    | @found marks _ _ hrun hrest hmarks =>
      have hall : Agrees r.body (fun d us => ∃ vs, us = marks ++ vs ∧ p d vs) Blocked s
          (read t) := by
        rw [hbody]
        refine .grouped _ _ hmap hes (.after hrun hrest ?_)
        exact (hparts t).mono (fun d us h => ⟨us, rfl, h⟩) fun _ => id
      refine hall.tree hr ?_
      rintro d text _ ⟨vs, rfl, h⟩
      refine ⟨_, rfl, .tree hchecked ?_⟩
      refine (hstands d vs marks text hmarks h).congr ?_
      rw [defective_append, or_iff_right hmarks.sound]

/-! ### What is made of the parts -/

section

variable {f : σ → Tree → Except TreeFault σ} {k : σ → Except TreeFault β}
  {z : Except CommandFault β} {a : σ}

/-- The keywords in front say nothing more. -/
theorem Stands.fold_marks (hmarks : Marks words marks)
    (hf : ∀ t w, t.rule = .keyword w → f a t = .ok a) (h : Stands (ts.foldlM f a >>= k) z us) :
    Stands ((marks ++ ts).foldlM f a >>= k) z us := by
  have hpass : marks.foldlM f a = .ok a := foldlM_pass fun t ht => by
    obtain ⟨w, hw⟩ := hmarks.rule t ht
    exact hf t w hw
  rw [List.foldlM_append, hpass]
  exact h

/-- Where no block stands there are no properties. -/
theorem Stands.fold_block {F : Bag → σ} {g : Bag → Except CommandFault β}
    {ps : List (String × Literal)} (h : BlockIfAny ps ts)
    (hf : ∀ t, t.rule = .properties → f a t = (bag t.inner).map F) (ha : a = F ∅)
    (hk : ∀ b, Stands (k (F b)) (g b) []) :
    Stands (ts.foldlM f a >>= k) (settleBag ∅ ps >>= g) ts := by
  rcases h with ⟨rfl, rfl⟩ | ⟨t, rfl, hrule, ht⟩
  · rw [ha]
    exact hk ∅
  · exact .fold_map ht (hf t hrule) fun b => .fold_nil (hk b)

/-- A condition that is left out always holds. -/
theorem Stands.fold_clause {F : Condition → σ} {g : Condition → Except CommandFault β}
    {c : Option Chain} (h : ClauseIfAny c ts)
    (hf : ∀ t, t.rule = .whereClause → f a t = (conditionIn t.inner "WHERE clause").map F)
    (ha : a = F .always) (hk : ∀ b, Stands (k (F b)) (g b) []) :
    Stands (ts.foldlM f a >>= k) (settleCondition c >>= g) ts := by
  rcases h with ⟨rfl, rfl⟩ | ⟨chain, rfl, t, rfl, hrule, ht⟩
  · rw [ha]
    exact hk .always
  · exact .fold_map ht (hf t hrule) fun b => .fold_nil (hk b)

end

theorem Marks.find?_append {p : Tree → Bool} (hmarks : Marks words marks)
    (hp : ∀ t w, t.rule = .keyword w → p t = false) : (marks ++ ts).find? p = ts.find? p := by
  have hnone : marks.find? p = none := List.find?_eq_none.2 fun t ht => by
    obtain ⟨w, hw⟩ := hmarks.rule t ht
    rw [hp t w hw]
    decide
  rw [List.find?_append, hnone, Option.none_or]

/-! ### Nodes -/

/-- The node to create, behind the keywords. -/
def createNode? (s : List Char) : Option (Draft × List Char) :=
  word? s >>= fun l => blockIfAny? l.2 >>= fun b => some (Draft.createNode l.1 b.1, b.2)

theorem begins_createNode : Begins .createNode ["CREATE", "NODE"] createNode? := by
  have hparts : ∀ s, Agrees (.all [.rule .label, .optional (.rule .properties)])
      (fun d us => ∃ l ps vs ws, d = .createNode l ps ∧ us = vs ++ ws ∧ Named .label l vs ∧
        BlockIfAny ps ws) Blocked s (createNode? s) := by
    intro s
    refine (agrees_word rfl rfl s).bind fun l t vs _ hl => ?_
    exact (agrees_blockIfAny t).last fun ps rest ws hps =>
      ⟨_, rfl, l, ps, vs, ws, rfl, rfl, hl, hps⟩
  refine .of_parts hparts (by decide) (List.cons_ne_nil _ _) (List.cons_ne_nil _ _) rfl rfl rfl ?_
  rintro d us marks text hmarks ⟨l, ps, vs, ws, rfl, rfl, rfl, hps⟩
  rw [statement, createNode, Draft.settle]
  refine .fold_marks hmarks (fun t w hw => by rw [addNodePart, hw]) ?_
  refine .fold_ok rfl (not_hasDefect_leaf rfl) ?_
  refine .fold_block hps (fun t ht => by rw [addNodePart, ht]) rfl fun b => ?_
  rw [String.ofList_toList]
  exact .ok _ defective_nil

theorem Marks.not_key (hmarks : Marks words marks) :
    ∀ t ∈ marks, t.rule ≠ .label ∧ t.rule ≠ .nodeId := fun t ht => by
  obtain ⟨w, hw⟩ := hmarks.rule t ht
  rw [hw]
  exact ⟨nofun, nofun⟩

/-- The key of the node that a statement is about. -/
theorem stands_keyOf {ref : Ref} (hmarks : Marks words marks) (h : PlainRefTrees ref ts) :
    Stands (nodeKey (marks ++ ts)) ref.settle ts := by
  have hkey := stands_nodeKey hmarks.not_key (List.forall_mem_nil _) h
  rwa [List.append_nil] at hkey

/-- The statements that only name a node. -/
theorem begins_named (make : Ref → Draft) (make' : NodeKey → Command)
    (hkey : ∀ w ∈ words, isKeyword w = true) (hwords : words ≠ []) (hr : r.style = .plain)
    (hchecked : r.isChecked = false)
    (hbody : r.body = .all (words.map .keyword ++ [.rule .label, .rule .nodeId]))
    (hsettle : ∀ ref, (make ref).settle = ref.settle.map make')
    (hstatement : ∀ text ts, statement ⟨r, text, ts⟩ = (nodeKey ts).map make') :
    Begins r words fun s => plainRef? s >>= fun ref => some (make ref.1, ref.2) := by
  have hparts : ∀ s, Agrees (.all [.rule .label, .rule .nodeId])
      (fun d us => ∃ ref, d = make ref ∧ PlainRefTrees ref us) Blocked s
      (plainRef? s >>= fun ref => some (make ref.1, ref.2)) := fun s =>
    (agrees_plainRef s).relax.last fun ref rest us h => ⟨_, rfl, ref, rfl, h⟩
  refine .of_parts hparts hkey hwords (List.cons_ne_nil _ _) hr hchecked hbody ?_
  rintro d us marks text hmarks ⟨ref, rfl, h⟩
  rw [hstatement, hsettle]
  exact (stands_keyOf hmarks h).map make'

theorem begins_getNode : Begins .getNode ["GET", "NODE"] fun s =>
    plainRef? s >>= fun ref => some (.getNode ref.1, ref.2) :=
  begins_named .getNode .getNode (by decide) (List.cons_ne_nil _ _) rfl rfl rfl (fun _ => rfl)
    fun _ _ => rfl

theorem begins_deleteNode : Begins .deleteNode ["DELETE", "NODE"] fun s =>
    plainRef? s >>= fun ref => some (.deleteNode ref.1, ref.2) :=
  begins_named .deleteNode .deleteNode (by decide) (List.cons_ne_nil _ _) rfl rfl rfl (fun _ => rfl)
    fun _ _ => rfl

def updateNode? (s : List Char) : Option (Draft × List Char) :=
  plainRef? s >>= fun ref => block? ref.2 >>= fun b => some (Draft.updateNode ref.1 b.1, b.2)

theorem begins_updateNode : Begins .updateNode ["UPDATE", "NODE"] updateNode? := by
  have hparts : ∀ s, Agrees (.all ([.rule .label, .rule .nodeId] ++ [.rule .properties]))
      (fun d us => ∃ ref ps vs ws, d = .updateNode ref ps ∧ us = vs ++ ws ∧ PlainRefTrees ref vs ∧
        Settled .properties bag (settleBag ∅) ps ws) Blocked s (updateNode? s) := by
    intro s
    refine .grouped _ _ (List.cons_ne_nil _ _) (List.cons_ne_nil _ _) ?_
    refine (agrees_plainRef s).bind fun ref t vs _ href => ?_
    exact (agrees_block t).relax.last fun ps rest ws hps =>
      ⟨_, rfl, ref, ps, vs, ws, rfl, rfl, href, hps⟩
  refine .of_parts hparts (by decide) (List.cons_ne_nil _ _) (List.cons_ne_nil _ _) rfl rfl rfl ?_
  rintro d us marks text hmarks ⟨ref, ps, vs, ws, rfl, rfl, href, t, rfl, hrule, ht⟩
  have hkey : Stands (nodeKey (marks ++ (vs ++ [t]))) ref.settle vs :=
    stands_nodeKey hmarks.not_key (by simp [hrule]) href
  have hfind : (marks ++ (vs ++ [t])).find? (·.rule = .properties) = some t := by
    rw [hmarks.find?_append fun t w hw => by simp [hw], href.1]
    simp [hrule]
  rw [statement, updateNode, hfind, Draft.settle]
  exact hkey.bind fun key => ht.map (Command.updateNode key)

/-! ### Relationships -/

theorem stands_relationship (make : String → NodeKey → NodeKey → Bag → Command) {k : String}
    {ends : Ref × Ref} {ps : List (String × Literal)} (hmarks : Marks words marks)
    (hk : Named .kind k ts) (hends : EndsTrees ends us) (hps : BlockIfAny ps vs) :
    Stands (relationship make (marks ++ (ts ++ (us ++ vs))))
      (ends.1.settle >>= fun source => ends.2.settle >>= fun target =>
        settleBag ∅ ps >>= fun b => .ok (make k source target b)) (ts ++ (us ++ vs)) := by
  cases hk
  obtain ⟨_, _, _, _, rfl, ⟨w, rfl⟩, ⟨t, rfl, hrule, ht⟩, ⟨w', rfl⟩, u, rfl, hrule', hu⟩ := hends
  have hnode : ∀ (found : RelationshipParts) {t : Tree}, t.rule = .nodeRef → found.add t =
      (nodeKey t.inner).map fun k => { found with ends := found.ends ++ [k] } := by
    intro found t ht
    rw [RelationshipParts.add, ht]
  rw [relationship]
  refine .fold_marks hmarks (fun t w hw => by rw [RelationshipParts.add, hw]) ?_
  refine .fold_ok rfl (not_hasDefect_leaf rfl) (.fold_ok rfl (not_hasDefect_leaf rfl) ?_)
  refine .fold_map ht (hnode _ hrule) fun source => .fold_ok rfl (not_hasDefect_leaf rfl) ?_
  refine .fold_map hu (hnode _ hrule') fun target => ?_
  refine .fold_block hps (fun t ht => by rw [RelationshipParts.add, ht]) rfl fun b => ?_
  rw [String.ofList_toList]
  exact .ok _ defective_nil

/-- The statements that name a relationship by its ends. A block has to follow or may follow. -/
theorem begins_relationship {e : Expr}
    {block : List Char → Option (List (String × Literal) × List Char)}
    (make : String → Ref → Ref → List (String × Literal) → Draft)
    (make' : String → NodeKey → NodeKey → Bag → Command)
    (hblock : ∀ s, Agrees e BlockIfAny Blocked s (block s))
    (hkey : ∀ w ∈ words, isKeyword w = true) (hwords : words ≠ []) (hr : r.style = .plain)
    (hchecked : r.isChecked = false)
    (hbody : r.body = .all (words.map .keyword ++ .rule .kind ::
      ([.keyword "FROM", .rule .nodeRef, .keyword "TO", .rule .nodeRef] ++ [e])))
    (hsettle : ∀ k source target ps, (make k source target ps).settle =
      source.settle >>= fun source => target.settle >>= fun target =>
        settleBag ∅ ps >>= fun b => .ok (make' k source target b))
    (hstatement : ∀ text ts, statement ⟨r, text, ts⟩ = relationship make' ts) :
    Begins r words fun s => word? s >>= fun k => ends? k.2 >>= fun ends =>
      block ends.2 >>= fun b => some (make k.1 ends.1.1 ends.1.2 b.1, b.2) := by
  have hparts : ∀ s, Agrees (.all (.rule .kind ::
      ([.keyword "FROM", .rule .nodeRef, .keyword "TO", .rule .nodeRef] ++ [e])))
      (fun d us => ∃ k ends ps vs ws xs, d = make k ends.1 ends.2 ps ∧ us = vs ++ (ws ++ xs) ∧
        Named .kind k vs ∧ EndsTrees ends ws ∧ BlockIfAny ps xs) Blocked s
      (word? s >>= fun k => ends? k.2 >>= fun ends =>
        block ends.2 >>= fun b => some (make k.1 ends.1.1 ends.1.2 b.1, b.2)) := by
    intro s
    refine (agrees_word rfl rfl s).bind fun k t vs _ hk => ?_
    refine .grouped _ _ (List.cons_ne_nil _ _) (List.cons_ne_nil _ _) ?_
    refine (agrees_ends t).bind fun ends t ws _ hends => ?_
    exact (hblock t).last fun ps rest xs hps =>
      ⟨_, rfl, k, ends, ps, vs, ws, xs, rfl, rfl, hk, hends, hps⟩
  refine .of_parts hparts hkey hwords (List.cons_ne_nil _ _) hr hchecked hbody ?_
  rintro d us marks text hmarks ⟨k, ends, ps, vs, ws, xs, rfl, rfl, hk, hends, hps⟩
  rw [hstatement, hsettle]
  exact stands_relationship make' hmarks hk hends hps

theorem begins_createRelationship : Begins .createRelationship ["CREATE", "RELATIONSHIP"] fun s =>
    word? s >>= fun k => ends? k.2 >>= fun ends => blockIfAny? ends.2 >>= fun b =>
      some (.createRelationship k.1 ends.1.1 ends.1.2 b.1, b.2) :=
  begins_relationship .createRelationship .createRelationship agrees_blockIfAny (by decide)
    (List.cons_ne_nil _ _) rfl rfl rfl (fun _ _ _ _ => rfl) fun _ _ => rfl

theorem begins_updateRelationship : Begins .updateRelationship ["UPDATE", "RELATIONSHIP"] fun s =>
    word? s >>= fun k => ends? k.2 >>= fun ends => block? ends.2 >>= fun b =>
      some (.updateRelationship k.1 ends.1.1 ends.1.2 b.1, b.2) :=
  begins_relationship .updateRelationship .updateRelationship
    (fun s => (agrees_block s).mono (fun _ _ => .inr) fun _ => False.elim) (by decide)
    (List.cons_ne_nil _ _) rfl rfl rfl (fun _ _ _ _ => rfl) fun _ _ => rfl

theorem begins_deleteRelationship : Begins .deleteRelationship ["DELETE", "RELATIONSHIP"] fun s =>
    digits? s >>= fun digits => some (Draft.deleteRelationship digits.1, digits.2) := by
  have hparts : ∀ s, Agrees (.all [.rule .relationshipId])
      (fun d us => ∃ digits, d = Draft.deleteRelationship digits ∧
        Numbered .relationshipId digits us) Blocked s
      (digits? s >>= fun digits => some (Draft.deleteRelationship digits.1, digits.2)) := fun s =>
    (agrees_digits rfl rfl s).last fun digits rest us h => ⟨_, rfl, digits, rfl, h⟩
  refine .of_parts hparts (by decide) (List.cons_ne_nil _ _) (List.cons_ne_nil _ _) rfl rfl rfl ?_
  rintro d us marks text hmarks ⟨digits, rfl, rfl, hdigits⟩
  have hfind : (marks ++ [(⟨.relationshipId, digits, []⟩ : Tree)]).find?
      (·.rule = .relationshipId) = some ⟨.relationshipId, digits, []⟩ := by
    rw [hmarks.find?_append fun t w hw => by simp [hw]]
    rfl
  rw [statement, deleteRelationship, hfind, Draft.settle]
  exact (stands_id (.inr rfl) hdigits).map Command.deleteRelationship

/-! ### Traversals and patterns -/

/-- Where a step or a segment is broken off, no clause follows. -/
theorem agrees_clause_stuck {q : α → List Tree → Prop} (h : AtArrow (skip t)) :
    Agrees (.optional (.rule .whereClause)) q Blocked t none := by
  have hblocked : Blocked (skip (skip t)) := by
    rw [skip_skip]
    exact h.blocked
  obtain ⟨c, u, hc, harrow⟩ := h
  have hnone : keyword? "WHERE" t = none := by
    cases hread : keyword? "WHERE" t with
    | none => rfl
    | some rest =>
      obtain ⟨⟨c', v, hc', halpha⟩, -⟩ := keyword?_atLetter rfl hread
      rw [hc] at hc'
      cases hc'
      rcases harrow with rfl | rfl <;> cases halpha
  exact .stuck (.optional (run_keyword_none rfl rfl rfl hnone)) hblocked

/-- One step at least. -/
def walk? (s : List Char) : Option (List Step × List Char) :=
  step? s >>= fun x => steps? (x.2.length + 1) x.2 >>= fun xs => some (x.1 :: xs.1, xs.2)

theorem agrees_walk (s : List Char) :
    Agrees (.plus (.rule .step)) (List.Forall₂ (IsMade .step Grammar.step)) AtArrow s
      (walk? s) := by
  refine (agrees_step s).bind fun x t us _ hx => ?_
  obtain ⟨u, rfl, hx⟩ := hx
  exact (agrees_steps _ t (Nat.lt_succ_of_le (length_skip_le t))).last fun xs rest vs hxs =>
    ⟨_, rfl, .cons hx hxs⟩

theorem begins_traverse : Begins .traverse ["TRAVERSE"] traverse? := by
  have hparts : ∀ s, Agrees
      (.all [.rule .nodeRef, .plus (.rule .step), .optional (.rule .whereClause)])
      (fun d us => ∃ start xs c vs ws ys, d = .traverse start xs c ∧ us = vs ++ (ws ++ ys) ∧
        RefTree start vs ∧ List.Forall₂ (IsMade .step Grammar.step) xs ws ∧ ClauseIfAny c ys)
      Blocked s (traverse? s) := by
    intro s
    have hread : traverse? s = ref? s >>= fun start => walk? start.2 >>= fun xs =>
        clause? xs.2 >>= fun c => some (.traverse start.1 xs.1 c.1, c.2) := by
      simp [traverse?, walk?, Option.bind_assoc]
    rw [hread]
    refine (agrees_ref s).bind fun start t vs _ hstart => ?_
    refine (agrees_walk t).bind_stuck (fun xs t ws _ hxs => ?_) fun t => agrees_clause_stuck
    exact (agrees_clause t).last fun c rest ys hc =>
      ⟨_, rfl, start, xs, c, vs, ws, ys, rfl, rfl, hstart, hxs, hc⟩
  refine .of_parts hparts (by decide) (List.cons_ne_nil _ _) (List.cons_ne_nil _ _) rfl rfl rfl ?_
  rintro d us marks text hmarks ⟨start, xs, c, vs, ws, ys, rfl, rfl, hstart, hxs, hc⟩
  obtain ⟨t, rfl, hrule, ht⟩ := hstart
  rw [statement, traverse, Draft.settle, List.singleton_append]
  refine .fold_marks hmarks (fun t w hw => by rw [TraversalParts.add, hw]) ?_
  refine .fold_map ht (by rw [TraversalParts.add, hrule]) fun start => ?_
  refine .fold_made (TraversalParts.mk (some start) · .always) [] hxs (fun xs x t hx => ?_) ?_
  · rw [TraversalParts.add, hx.rule, hx.eq]
    rfl
  · exact .fold_clause hc (fun t ht => by rw [TraversalParts.add, ht]) rfl fun c =>
      .ok _ defective_nil

theorem begins_findMatches : Begins .findMatches ["MATCH"] match? := by
  have hparts : ∀ s, Agrees
      (.all [.rule .nodeSlot, .star (.rule .segment), .optional (.rule .whereClause)])
      (fun d us => ∃ start xs c vs ws ys, d = .findMatches ⟨start, xs⟩ c ∧ us = vs ++ (ws ++ ys) ∧
        Made .nodeSlot Grammar.nodeSlot start vs ∧
          List.Forall₂ (IsMade .segment Grammar.segment) xs ws ∧ ClauseIfAny c ys)
      Blocked s (match? s) := by
    intro s
    refine (agrees_nodeSlot s).bind fun start t vs _ hstart => ?_
    have hsegments := agrees_segments _ t (Nat.lt_succ_of_le (length_skip_le t))
    refine hsegments.bind_stuck (fun xs t ws _ hxs => ?_) fun t => agrees_clause_stuck
    exact (agrees_clause t).last fun c rest ys hc =>
      ⟨_, rfl, start, xs, c, vs, ws, ys, rfl, rfl, hstart, hxs, hc⟩
  refine .of_parts hparts (by decide) (List.cons_ne_nil _ _) (List.cons_ne_nil _ _) rfl rfl rfl ?_
  rintro d us marks text hmarks ⟨start, xs, c, vs, ws, ys, rfl, rfl, hstart, hxs, hc⟩
  obtain ⟨t, rfl, ht⟩ := hstart
  rw [statement, findMatches, Draft.settle, List.singleton_append]
  refine .fold_marks hmarks (fun t w hw => by rw [PatternParts.add, hw]) ?_
  refine .fold_ok (b := { start := some start }) ?_ ht.sound ?_
  · rw [PatternParts.add, ht.rule, ht.eq]
    rfl
  refine .fold_made (PatternParts.mk (some start) · .always) [] hxs (fun xs x t hx => ?_) ?_
  · rw [PatternParts.add, hx.rule, hx.eq]
    rfl
  · exact .fold_clause hc (fun t ht => by rw [PatternParts.add, ht]) rfl fun c =>
      .ok _ defective_nil

/-! ### Neighbours -/

theorem addFilter_kindIfAny {k : Option String} (h : KindIfAny k ts) :
    ts.foldlM addFilter (none, .outgoing) = .ok (k, .outgoing) := by
  rcases h with ⟨rfl, rfl⟩ | ⟨name, _, _, _, rfl, rfl, ⟨w, rfl⟩, ⟨w', rfl⟩, rfl⟩
  · rfl
  · exact congrArg (fun n => Except.ok (some n, Direction.outgoing)) String.ofList_toList

theorem addFilter_directionIfAny {d : Direction} (k : Option String) (h : DirectionIfAny d ts) :
    ts.foldlM addFilter (k, .outgoing) = .ok (k, d) := by
  rcases h with ⟨rfl, rfl⟩ | ⟨_, _, rfl, ⟨w, rfl⟩, text, rfl, hd⟩
  · rfl
  · simp only [List.singleton_append, List.foldlM_cons, addFilter, hd]
    rfl

/-- The filters of neighbours do not name a node, and are sound. -/
theorem KindIfAny.other {k : Option String} (h : KindIfAny k ts) :
    (∀ t ∈ ts, t.rule ≠ .label ∧ t.rule ≠ .nodeId) ∧ ¬ Defective ts := by
  rcases h with ⟨rfl, rfl⟩ | ⟨name, _, _, _, rfl, rfl, ⟨w, rfl⟩, ⟨w', rfl⟩, rfl⟩
  · exact ⟨List.forall_mem_nil _, defective_nil⟩
  · exact ⟨by simp, not_defective_leaves (by simp [Rule.isChecked])⟩

theorem DirectionIfAny.other {d : Direction} (h : DirectionIfAny d ts) :
    (∀ t ∈ ts, t.rule ≠ .label ∧ t.rule ≠ .nodeId) ∧ ¬ Defective ts := by
  rcases h with ⟨rfl, rfl⟩ | ⟨_, _, rfl, ⟨w, rfl⟩, text, rfl, hd⟩
  · exact ⟨List.forall_mem_nil _, defective_nil⟩
  · exact ⟨by simp, not_defective_leaves (by simp [Rule.isChecked])⟩

theorem begins_getNeighbors : Begins .getNeighbors ["GET", "NEIGHBORS"] fun s =>
    plainRef? s >>= fun ref => kindFilter? ref.2 >>= fun k => directionClause? k.2 >>= fun d =>
      some (Draft.getNeighbors ref.1 k.1 d.1, d.2) := by
  have hparts : ∀ s, Agrees (.all ([.rule .label, .rule .nodeId] ++
      [.optional (.rule .kindFilter), .optional (.rule .directionClause)]))
      (fun d us => ∃ ref k dir vs ws xs, d = Draft.getNeighbors ref k dir ∧ us = vs ++ (ws ++ xs) ∧
        PlainRefTrees ref vs ∧ KindIfAny k ws ∧ DirectionIfAny dir xs) Blocked s
      (plainRef? s >>= fun ref => kindFilter? ref.2 >>= fun k => directionClause? k.2 >>= fun d =>
        some (Draft.getNeighbors ref.1 k.1 d.1, d.2)) := by
    intro s
    refine .grouped _ _ (List.cons_ne_nil _ _) (List.cons_ne_nil _ _) ?_
    refine (agrees_plainRef s).bind fun ref t vs _ href => ?_
    refine (agrees_kindFilter t).bind_stuck (fun k t ws _ hk => ?_)
      fun t => agrees_directionClause_stuck
    exact (agrees_directionClause t).last fun dir rest xs hd =>
      ⟨_, rfl, ref, k, dir, vs, ws, xs, rfl, rfl, href, hk, hd⟩
  refine .of_parts hparts (by decide) (List.cons_ne_nil _ _) (List.cons_ne_nil _ _) rfl rfl rfl ?_
  rintro d us marks text hmarks ⟨ref, k, dir, vs, ws, xs, rfl, rfl, href, hk, hd⟩
  have hkey : Stands (nodeKey (marks ++ (vs ++ (ws ++ xs)))) ref.settle vs :=
    stands_nodeKey hmarks.not_key
      (List.forall_mem_append.2 ⟨hk.other.1, hd.other.1⟩) href
  have hfilters : (marks ++ (vs ++ (ws ++ xs))).foldlM addFilter (none, .outgoing) =
      .ok (k, dir) := by
    have hpass : marks.foldlM addFilter (none, .outgoing) = .ok (none, .outgoing) :=
      foldlM_pass fun t ht => by
        obtain ⟨w, hw⟩ := hmarks.rule t ht
        rw [addFilter, hw]
    have hnode : vs.foldlM addFilter (none, .outgoing) = .ok (none, .outgoing) := by
      rw [href.1]
      rfl
    rw [List.foldlM_append, hpass, ok_bind, List.foldlM_append, hnode, ok_bind, List.foldlM_append,
      addFilter_kindIfAny hk, ok_bind, addFilter_directionIfAny k hd]
  rw [statement, getNeighbors, hfilters, Draft.settle]
  refine (hkey.map fun key => Command.getNeighbors key k dir).append ?_
  rw [defective_append]
  exact not_or.2 ⟨hk.other.2, hd.other.2⟩

/-! ### Files -/

/-- The path that a statement names. -/
theorem path_eq {p : String} (hmarks : Marks words marks) (h : Shown .filePath PathTree p ts) :
    path (marks ++ ts) = .ok p ∧ ¬ Defective ts := by
  obtain ⟨text, inner, rfl, h⟩ := h
  have hfind : (marks ++ [(⟨.filePath, text, inner⟩ : Tree)]).find? (·.rule = .filePath) =
      some ⟨.filePath, text, inner⟩ := by
    rw [hmarks.find?_append fun t w hw => by simp [hw]]
    rfl
  rw [path, hfind, defective_singleton, hasDefect_unchecked rfl]
  rcases h with ⟨text, inner, rfl, hp, hsound⟩ | ⟨text, rfl, rfl⟩
  · refine ⟨hp, ?_⟩
    rwa [defective_singleton, hasDefect_unchecked rfl]
  · exact ⟨rfl, not_defective_leaves (by simp [Rule.isChecked])⟩

/-- The statements that name a file. -/
theorem begins_file (make : String → Draft) (make' : String → Command)
    (hkey : ∀ w ∈ words, isKeyword w = true) (hwords : words ≠ []) (hr : r.style = .plain)
    (hchecked : r.isChecked = false)
    (hbody : r.body = .all (words.map .keyword ++ [.rule .filePath]))
    (hsettle : ∀ p, (make p).settle = .ok (make' p))
    (hstatement : ∀ text ts, statement ⟨r, text, ts⟩ = (path ts).map make') :
    Begins r words fun s => path? s >>= fun p => some (make p.1, p.2) := by
  have hparts : ∀ s, Agrees (.all [.rule .filePath])
      (fun d us => ∃ p, d = make p ∧ Shown .filePath PathTree p us) Blocked s
      (path? s >>= fun p => some (make p.1, p.2)) := fun s =>
    (agrees_path s).relax.last fun p rest us h => ⟨_, rfl, p, rfl, h⟩
  refine .of_parts hparts hkey hwords (List.cons_ne_nil _ _) hr hchecked hbody ?_
  rintro d us marks text hmarks ⟨p, rfl, h⟩
  obtain ⟨hpath, hsound⟩ := path_eq hmarks h
  rw [hstatement, hpath, hsettle]
  exact .ok _ hsound

theorem begins_exportTo : Begins .exportTo ["EXPORT", "TO", "JSON"] fun s =>
    path? s >>= fun p => some (.exportTo p.1, p.2) :=
  begins_file .exportTo .exportTo (by decide) (List.cons_ne_nil _ _) rfl rfl rfl (fun _ => rfl)
    fun _ _ => rfl

theorem begins_importFrom : Begins .importFrom ["IMPORT", "FROM", "JSON"] fun s =>
    path? s >>= fun p => some (.importFrom p.1, p.2) :=
  begins_file .importFrom .importFrom (by decide) (List.cons_ne_nil _ _) rfl rfl rfl (fun _ => rfl)
    fun _ _ => rfl

end PropertyGraph.Grammar
