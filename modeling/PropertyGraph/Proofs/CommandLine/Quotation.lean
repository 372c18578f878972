import PropertyGraph.CommandLine
import PropertyGraph.Proofs.Command.Rendering

/-! Quoted paths. The command that loads a graph names the file between double quotes. The
backslashes of the path are escaped and then its quotes; the other way round the backslashes
that escape the quotes would be escaped too. Whatever characters the path has, the text spells
the command, so it is read as the command and the file that is opened is the one given. -/

namespace PropertyGraph

namespace Token

/-- Puts a backslash in front of a character wherever it stands. -/
def escapeAll (c : Char) (s : List Char) : List Char :=
  s.flatMap fun d => if d = c then ['\\', d] else [d]

/-- Escaping character by character does what two passes over the text do. -/
theorem flatMap_escape (s : List Char) :
    s.flatMap escape = escapeAll '"' (escapeAll '\\' s) := by
  have hescape : ∀ c, escape c = escapeAll '"' (if c = '\\' then ['\\', c] else [c]) := by
    intro c
    by_cases hslash : c = '\\'
    · subst hslash
      rfl
    · by_cases hquote : c = '"'
      · subst hquote
        rfl
      · simp [escape, escapeAll, hslash, hquote]
  calc s.flatMap escape
      = s.flatMap fun c => escapeAll '"' (if c = '\\' then ['\\', c] else [c]) := by
        rw [funext hescape]
    _ = escapeAll '"' (escapeAll '\\' s) := List.flatMap_assoc.symm

/-- A quoted text spells the text. -/
theorem spells_quote (s : String) : (Lexeme.text s).Spells (quote s.toList) :=
  .text (.inl rfl) (Lexeme.inside_escape s.toList)

end Token

namespace CommandLine

open Token

theorem toList_importText (path : String) : (importText path).toList = "IMPORT".toList ++
    ([' '] ++ ("FROM".toList ++ ([' '] ++ ("JSON".toList ++
      ([' '] ++ (quote path.toList ++ [])))))) := by
  have htext : importText path = "IMPORT FROM JSON " ++ String.ofList (quote path.toList) := rfl
  have hquote : (String.ofList (quote path.toList)).toList = quote path.toList :=
    String.toList_ofList
  rw [htext, String.toList_append, hquote, List.append_nil]
  rfl

/-- The text that loads a file is a rendering of the import of that file. -/
theorem renders_importText (path : String) :
    (Command.importFrom path).Renders (importText path) := by
  have hgap : Blank.IsGap [' '] := Blank.isGap_singleton rfl
  have hphrase : Phrase ([.keyword "IMPORT", .keyword "FROM", .keyword "JSON", .text path] ++ [])
      (importText path).toList := by
    rw [toList_importText]
    exact .intro (.keyword rfl rfl) (.cons hgap (.keyword rfl rfl) (.cons hgap (.keyword rfl rfl)
      (.cons hgap (spells_quote path) .nil)))
  have hrenders := Command.Renders.intro [] _ [] .importFrom (.inl rfl) hphrase
    (List.forall_mem_nil _) (List.forall_mem_nil _)
  rwa [List.nil_append, List.append_nil, String.ofList_toList] at hrenders

/-- The text that loads a file escapes the backslashes of its path and then the quotes, and
is read as the import of exactly this path; loading reads the file there and nothing else,
and goes on with the store of its document. -/
theorem load_opens (path : String) :
    importText path = "IMPORT FROM JSON \"" ++
      String.ofList (escapeAll '"' (escapeAll '\\' path.toList)) ++ "\"" ∧
    Command.read (importText path) = .ok (.importFrom path) ∧
    ∀ s : Session, load s (some path) = .readFile path fun content =>
      .done (match Session.storeOf content with
        | .ok store => .ok { s with store }
        | .error e => .error (("loading graph " ++ path) :: (QueryError.document e).chain)) := by
  have hread : Command.read (importText path) = .ok (.importFrom path) :=
    Command.read_of_renders (List.forall_mem_nil _) (renders_importText path)
  refine ⟨?_, hread, fun s => ?_⟩
  · apply String.toList_injective
    rw [← flatMap_escape, toList_importText]
    simp only [String.toList_append, String.toList_ofList, quote, List.append_assoc,
      List.append_nil]
    rfl
  · have hexecute : s.execute (importText path) = s.importFrom path := by
      rw [Session.execute, hread]
      rfl
    rw [load, hexecute]
    refine congrArg (Job.readFile path) (funext fun content => ?_)
    simp only [Job.done_bind]
    cases Session.storeOf content <;> rfl

end CommandLine

end PropertyGraph
