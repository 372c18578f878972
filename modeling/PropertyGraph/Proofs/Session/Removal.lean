import PropertyGraph.Proofs.Store.Remainder
import PropertyGraph.Session

/-! Deleting a node, as a session reports it. The node goes and with it the relationships
that start or end at it, a loop like any other; the report counts them by comparing the
sizes of the store before and afterwards. -/

namespace PropertyGraph

namespace Store

variable {s t : Store} {n : Node}

/-- The number of relationships that start or end at a node. -/
def degree (s : Store) (key : NodeKey) : Nat :=
  s.relationshipList.countP fun r => decide (r.Touches .both key)

/-- The store `t` is `s` without the node and the relationships at it, to every read. -/
structure Without (s : Store) (n : Node) (t : Store) : Prop extends
    s.Leaves t (fun m => decide (m.key ≠ n.key)) (fun r => decide (¬ r.Touches .both n.key)) where
  hasNode : t.hasNode n.key = false
  getNode : ∀ key, key ≠ n.key → t.getNode key = s.getNode key
  getRelationship : ∀ r ∈ s.relationshipList, ¬ r.Touches .both n.key →
    t.getRelationship r.id = s.getRelationship r.id
  neighbors : ∀ m ∈ s.nodeList, m.key ≠ n.key → ∀ kind d, ∃ found,
    s.neighbors m.key kind d = .ok found ∧
      t.neighbors m.key kind d = .ok (found.filter fun x => decide (¬ x.2.Touches .both n.key))

theorem Leaves.without (hs : s.Invariant) (h : s.Leaves t (fun m => decide (m.key ≠ n.key))
    fun r => decide (¬ r.Touches .both n.key)) : s.Without n t where
  toLeaves := h
  hasNode := by
    rw [← Bool.not_eq_true, h.invariant.hasNode_iff]
    rintro ⟨m, hm, hk⟩
    exact of_decide_eq_true (h.mem_nodeList_iff.1 hm).2 hk
  getNode key hkey := by
    have hnode : t.node? key = s.node? key := by
      ext m
      rw [h.node?_eq hs, Option.filter_eq_some_iff, decide_eq_true_iff, and_iff_left_iff_imp]
      intro hm
      rwa [(hs.node?_eq_some_iff.1 hm).2]
    rw [Store.getNode, Store.getNode, hnode]
  getRelationship r hr htouches := by
    have hbefore : s.relationship? r.id = some r := hs.relationship?_eq_some_iff.2 ⟨hr, rfl⟩
    rw [Store.getRelationship, Store.getRelationship, h.relationship?_eq hs, hbefore,
      Option.filter_some, if_pos (decide_eq_true htouches)]
  neighbors m hm hkey kind d :=
    h.neighbors_eq hs (h.mem_nodeList_iff.2 ⟨hm, decide_eq_true hkey⟩) kind d

/-- The relationships that are left and those that were at the node are all there were. -/
theorem Without.relationshipCount_add (h : s.Without n t) (hs : s.Invariant) :
    t.relationshipCount + s.degree n.key = s.relationshipCount := by
  have hscan : s.relationshipCount = s.relationshipList.length :=
    hs.relationships.indexed.size_eq
  rw [h.relationshipCount_eq, degree, hscan, Nat.add_comm,
    List.length_eq_countP_add_countP fun r => decide (r.Touches .both n.key)]
  simp only [decide_eq_true_iff]

end Store

/-! ### The report -/

theorem Change.run_answerDeleteNode {s t : Store} {key : NodeKey} {n : Node}
    (h : s.deleteNode key = .ok (n, t)) : (answerDeleteNode key).run s =
      .ok (.nodeDeleted key (s.relationshipCount - t.relationshipCount)) t := by
  rw [answerDeleteNode, run_get_bind]
  exact run_bind_eq_ok_iff.2 ⟨n, t, apply_eq_ok_iff.1 h, rfl⟩

namespace Store

/-- Deleting a node that is there goes through and answers with the node. Afterwards all is
as before without the node and the relationships at it, and a session reports how many
these were: what it takes off is never more than there is. -/
theorem deleteNode_spec {s : Store} (h : s.Reachable) {n : Node} (hn : n ∈ s.nodeList) :
    ∃ t, s.deleteNode n.key = .ok (n, t) ∧ s.Without n t ∧
      t.relationshipCount + s.degree n.key = s.relationshipCount ∧
      ∀ settings, (Session.mk settings s).run (.deleteNode n.key) =
        .done ⟨.ok (.nodeDeleted n.key (s.degree n.key)), ⟨settings, t⟩⟩ := by
  have hs := h.invariant
  obtain ⟨t, ht, hleaves⟩ := hs.deleteNode_leaves hn
  have hwithout := hleaves.without hs
  have hcount := hwithout.relationshipCount_add hs
  refine ⟨t, ht, hwithout, hcount, fun settings => ?_⟩
  have hremoved : s.relationshipCount - t.relationshipCount = s.degree n.key := by omega
  have hrun := Change.run_answerDeleteNode ht
  rw [hremoved] at hrun
  rw [Session.run, Session.changing, hrun]
  rfl

/-- The first person knows itself and the second one; both relationships go with it. -/
theorem deleteNode_acquaintances : acquaintances.degree ⟨"Person", 1⟩ = 2 ∧
    ∃ t, acquaintances.deleteNode ⟨"Person", 1⟩ = .ok (⟨⟨"Person", 1⟩, ∅⟩, t) ∧
      acquaintances.Without ⟨⟨"Person", 1⟩, ∅⟩ t ∧
      t.relationshipCount + acquaintances.degree ⟨"Person", 1⟩ = acquaintances.relationshipCount ∧
      ∀ settings, (Session.mk settings acquaintances).run (.deleteNode ⟨"Person", 1⟩) =
        .done ⟨.ok (.nodeDeleted ⟨"Person", 1⟩ (acquaintances.degree ⟨"Person", 1⟩)),
          ⟨settings, t⟩⟩ :=
  ⟨by decide, deleteNode_spec (n := ⟨⟨"Person", 1⟩, ∅⟩) reachable_acquaintances (by decide)⟩

end Store

end PropertyGraph
