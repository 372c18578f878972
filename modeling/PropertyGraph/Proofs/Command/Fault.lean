import PropertyGraph.Proofs.Grammar.Whole

/-! Faults of commands and conditions. Their texts are held against the grammar. Of the things that
may go wrong when a command is made of its tree only three can happen: an id is too large, an
integer is out of range, or a block repeats a key; and each of them is caught at any depth. -/

namespace PropertyGraph

open Blank Draft Grammar

namespace Command

theorem read_eq_verdict (text : String) :
    Command.read text = verdict ((readChars (trimChars text.toList)).map Draft.settle) := by
  rw [Command.read]
  cases readChars (trimChars text.toList) <;> rfl

/-- A text that matches the grammar is refused exactly if there is a defect in its tree, and
otherwise is the command of the tree. What the tree stands for fails with no other faults. -/
theorem read_judged (text : String) :
    ((∃ f, Command.read text = .error (.fault f)) ↔
      ∃ t, Parses .command (trimChars text.toList) t ∧ t.HasDefect) ∧
    ((∃ c, Command.read text = .ok c) ↔
      ∃ t, Parses .command (trimChars text.toList) t ∧ ¬ t.HasDefect) ∧
    (∀ c, Command.read text = .ok c ↔
      ∃ t, Parses .command (trimChars text.toList) t ∧ Grammar.command t = .ok c) ∧
    (∀ e, (∃ t, Parses .command (trimChars text.toList) t ∧ Grammar.command t = .error e) ↔
      ∃ f, e = .fault f ∧ Command.read text = .error (.fault f)) ∧
    (Command.read text = .error .unreadable ↔
      ¬ ∃ t, Parses .command (trimChars text.toList) t) := by
  have h := reads_command (trimChars text.toList)
  rw [read_eq_verdict]
  exact ⟨h.fault_iff, h.sound_iff, h.ok_iff, h.error_iff, h.unreadable_iff⟩

/-- The largest id is read. A key that is written with an escape is the same key. -/
theorem read_judged_samples :
    Command.read "GET NODE P 18446744073709551615" = .ok (.getNode ⟨"P", 18446744073709551615⟩) ∧
    Command.read "GET NODE P 18446744073709551616" =
      .error (.fault (.idTooLarge "18446744073709551616")) ∧
    Command.read "CREATE NODE P \x7bab: 1, \"a\\b\": 2\x7d" = .error (.fault (.repeatedKey "ab")) ∧
    (∃ t, Parses .command (trimChars "CREATE NODE P \x7bab: 1, \"a\\b\": 2\x7d".toList) t ∧
      t.HasDefect) ∧
    Command.read "MATCH (a:P) WHERE a.x = [1, 9223372036854775808]" =
      .error (.fault (.integerTooLarge "9223372036854775808")) := by
  have hkey : Command.read "CREATE NODE P \x7bab: 1, \"a\\b\": 2\x7d" =
    .error (.fault (.repeatedKey "ab")) := by decide +kernel
  exact ⟨by decide +kernel, by decide +kernel, hkey, (read_judged _).1.1 ⟨_, hkey⟩,
    by decide +kernel⟩

end Command

namespace Condition

theorem read_eq_verdict (text : String) :
    Condition.read text = verdict ((readChain (trimChars text.toList)).map Chain.settle) := by
  rw [Condition.read]
  cases readChain (trimChars text.toList) <;> rfl

/-- A condition on its own is what its tree stands for. -/
theorem read_ok_iff (text : String) (c : Condition) :
    Condition.read text = .ok c ↔
      ∃ t, Parses .soleCondition (trimChars text.toList) t ∧ soleCondition t = .ok c := by
  rw [read_eq_verdict]
  exact (reads_condition _).ok_iff c

theorem read_fault_iff (text : String) :
    (∃ f, Condition.read text = .error (.fault f)) ↔
      ∃ t, Parses .soleCondition (trimChars text.toList) t ∧ t.HasDefect := by
  rw [read_eq_verdict]
  exact (reads_condition _).fault_iff

end Condition

end PropertyGraph
