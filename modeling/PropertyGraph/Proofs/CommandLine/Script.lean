import Mathlib.Data.List.Nodup
import PropertyGraph.CommandLine
import PropertyGraph.Proofs.Session

/-! Scripts that go on after a failure. A command that fails leaves the session as it was, so
no later command can tell that it was there: the run ends as if the lines that fail had been
deleted from the script, and the shorter script runs without a failure. Where a script stops
at its first failure, what it has put out is what the lines before that one put out. Scripts
that replace files are left out, since a later line could read what an earlier one wrote. -/

namespace PropertyGraph

open Job (World)

/-! ### Results -/

namespace LineResult

def succeeded (r : LineResult) : Bool := r.error?.isNone

/-- The outputs among the results of a script. -/
def outputs (results : List LineResult) : List Output := results.filterMap (·.result.toOption)

/-- The numbers of the lines that failed. -/
def failing (results : List LineResult) : List Nat :=
  (results.filter (!·.succeeded)).map (·.line.number)

/-- The first line that failed, and why. -/
def firstFailure? (results : List LineResult) : Option (ScriptLine × QueryError) :=
  results.findSome? fun r => r.error?.map (r.line, ·)

/-- The results up to the first failure and with it. -/
def upToFailure : List LineResult → List LineResult
  | [] => []
  | r :: rest => if r.succeeded then r :: upToFailure rest else [r]

theorem outputs_upToFailure (results : List LineResult) :
    outputs (upToFailure results) = outputs (results.takeWhile (·.succeeded)) := by
  induction results with
  | nil => rfl
  | cons r rest ih =>
    obtain ⟨line, result⟩ := r
    cases result with
    | ok output => exact congrArg (output :: ·) ih
    | error e => rfl

theorem firstFailure?_upToFailure (results : List LineResult) :
    firstFailure? (upToFailure results) = firstFailure? results := by
  induction results with
  | nil => rfl
  | cons r rest ih =>
    obtain ⟨line, result⟩ := r
    cases result with
    | ok output => exact ih
    | error e => rfl

theorem failing_eq_nil_iff {results : List LineResult} :
    failing results = [] ↔ ∀ r ∈ results, r.succeeded = true := by
  simp [failing]

/-- Where no two lines have the same number, a line failed if its number is one of those. -/
theorem filter_not_failing {results : List LineResult}
    (h : (results.map (·.line.number)).Nodup) :
    (results.filter fun r => decide (r.line.number ∉ failing results)) =
      results.filter (·.succeeded) := by
  refine List.filter_congr fun r hr => ?_
  cases hs : r.succeeded with
  | false =>
    have hmem : r.line.number ∈ failing results :=
      List.mem_map_of_mem (List.mem_filter.2 ⟨hr, by rw [hs]; rfl⟩)
    simpa using hmem
  | true =>
    rw [decide_eq_true_eq]
    intro hmem
    obtain ⟨r', hr', hnumber⟩ := List.mem_map.1 hmem
    obtain ⟨hr', hfailed⟩ := List.mem_filter.1 hr'
    obtain rfl := List.inj_on_of_nodup_map h hr' hr hnumber
    rw [hs] at hfailed
    cases hfailed

end LineResult

/-! ### Lines -/

namespace Script

/-- The script without the lines that have one of the numbers. -/
def without (numbers : List Nat) (text : String) : String :=
  String.ofList (['\n'].intercalate
    (((text.toList.splitOn '\n').zipIdx 1).filterMap fun (line, number) =>
      if number ∈ numbers then none else some line))

/-- The command that a line holds, if it holds one. -/
def command? (line : List Char) : Option String :=
  if isCommand (Blank.trimChars line) then some (String.ofList (Blank.trimChars line)) else none

theorem lines_eq (text : String) :
    lines text = ((text.toList.splitOn '\n').zipIdx 1).filterMap fun (line, number) =>
      (command? line).map (⟨number, ·⟩) := by
  rw [lines, List.zipIdx_map, List.filterMap_map]
  refine List.filterMap_congr fun (line, number) _ => ?_
  simp only [Function.comp_apply, Prod.map_apply, id, command?]
  cases isCommand (Blank.trimChars line) <;> rfl

theorem toList_of_command? {line : List Char} {command : String}
    (h : command? line = some command) : Blank.trimChars line = command.toList := by
  unfold command? at h
  split at h
  · cases h
    rw [String.toList_ofList]
  · cases h

/-- Lines are counted from one, those that hold no command as well. -/
theorem mem_lines {text : String} {line : ScriptLine} (h : line ∈ lines text) :
    1 ≤ line.number ∧
      ((text.toList.splitOn '\n')[line.number - 1]?).map Blank.trimChars =
        some line.text.toList := by
  rw [lines_eq] at h
  obtain ⟨⟨chars, number⟩, hmem, hline⟩ := List.mem_filterMap.1 h
  obtain ⟨command, hcommand, rfl⟩ := Option.map_eq_some_iff.1 hline
  obtain ⟨hnumber, hget⟩ := List.mk_mem_zipIdx_iff_le_and_getElem?_sub.1 hmem
  exact ⟨hnumber, by rw [hget, Option.map_some, toList_of_command? hcommand]⟩

theorem nodup_number_lines (text : String) : ((lines text).map (·.number)).Nodup := by
  have hcounted : (((text.toList.splitOn '\n').zipIdx 1).map Prod.snd).Nodup := by
    rw [List.zipIdx_map_snd]
    exact List.nodup_range' 1
  rw [List.Nodup, List.pairwise_map, lines_eq, List.pairwise_filterMap]
  refine (List.pairwise_map.1 hcounted).imp fun hne line hline line' hline' => ?_
  obtain ⟨_, -, rfl⟩ := Option.map_eq_some_iff.1 hline
  obtain ⟨_, -, rfl⟩ := Option.map_eq_some_iff.1 hline'
  exact hne

theorem map_text_lines (text : String) :
    (lines text).map (·.text) = (text.toList.splitOn '\n').filterMap command? := by
  rw [lines_eq, List.map_filterMap, ← List.zipIdx_map_fst 1 (text.toList.splitOn '\n'),
    List.filterMap_map, List.zipIdx_map_fst]
  refine List.filterMap_congr fun x _ => ?_
  cases h : command? x.1 <;> simp [h]

theorem newline_not_mem_of_mem_splitOn {chars line : List Char}
    (h : line ∈ chars.splitOn '\n') : '\n' ∉ line := by
  induction chars generalizing line with
  | nil =>
    obtain rfl := List.mem_singleton.1 h
    exact List.not_mem_nil
  | cons c chars ih =>
    rw [List.splitOn_cons_eq_if_modifyHead] at h
    obtain ⟨first, others, hsplit⟩ := List.exists_cons_of_ne_nil
      (List.splitOn_ne_nil '\n' chars)
    rw [hsplit] at h ih
    split at h
    · rcases List.mem_cons.1 h with rfl | h
      · exact List.not_mem_nil
      · exact ih h
    · next hc =>
      rcases List.mem_cons.1 h with rfl | h
      · exact List.not_mem_cons_of_ne_of_not_mem (fun heq => hc (beq_iff_eq.2 heq.symm))
          (ih List.mem_cons_self)
      · exact ih (List.mem_cons_of_mem _ h)

/-- Lines joined by line ends are found again; joining none gives one that is empty. -/
theorem filterMap_command?_intercalate {kept : List (List Char)}
    (h : ∀ line ∈ kept, '\n' ∉ line) :
    ((['\n'].intercalate kept).splitOn '\n').filterMap command? = kept.filterMap command? := by
  rcases eq_or_ne kept [] with rfl | hkept
  · rfl
  · rw [List.splitOn_intercalate _ h hkept]

/-- The commands that are left of a script are those of the other lines. -/
theorem map_text_lines_without (numbers : List Nat) (text : String) :
    (lines (without numbers text)).map (·.text) =
      ((lines text).filter fun line => decide (line.number ∉ numbers)).map (·.text) := by
  have hnewline : ∀ line ∈ ((text.toList.splitOn '\n').zipIdx 1).filterMap
      (fun (line, number) => if number ∈ numbers then none else some line), '\n' ∉ line := by
    intro line hline
    obtain ⟨⟨line', number⟩, hmem, hkept⟩ := List.mem_filterMap.1 hline
    obtain ⟨-, hsome⟩ := Option.ite_none_left_eq_some.1 hkept
    cases hsome
    exact newline_not_mem_of_mem_splitOn (List.fst_mem_of_mem_zipIdx hmem)
  rw [map_text_lines, without, String.toList_ofList, filterMap_command?_intercalate hnewline,
    List.filterMap_filterMap, lines_eq, List.filter_filterMap, List.map_filterMap]
  refine List.filterMap_congr fun (line, number) _ => ?_
  by_cases hnumber : number ∈ numbers <;> cases hc : command? line <;>
    simp [hnumber, hc, Option.filter]

end Script

/-! ### Sessions -/

namespace Session

/-- Whether a text is read as a command that replaces a file. -/
def exports (text : String) : Bool :=
  match Command.read text with
  | .ok (.exportTo _) => true
  | _ => false

theorem onlyReads_execute (s : Session) {text : String} (h : exports text = false) :
    (s.execute text).OnlyReads := by
  unfold exports at h
  unfold execute
  split
  · trivial
  · next command hread =>
    rw [hread] at h
    cases command with
    | exportTo path => cases h
    | importFrom path => exact fun content => trivial
    | createNode label properties | createRelationship kind source target properties
    | getNode key | getNeighbors key kind direction | updateNode key properties | deleteNode key
    | updateRelationship kind source target properties | deleteRelationship id
    | traverse start steps condition | findMatches template condition => trivial

/-- What comes of a text among files. -/
def outcome (files : FileTree) (s : Session) (text : String) : Outcome :=
  (s.execute text).resultAmong files

theorem outcome_failed {files : FileTree} {s : Session} {text : String} {e : QueryError}
    (h : (s.outcome files text).result = .error e) : (s.outcome files text).session = s := by
  have hfailed : (s.outcome files text).Failed := ⟨e, h⟩
  unfold outcome Job.resultAmong at hfailed ⊢
  exact (s.every_execute_failed text).run _ hfailed

end Session

/-! ### Runs -/

namespace Script

variable {files : FileTree} {s : Session} {lines : List ScriptLine} {keepGoing : Bool}

/-- The results of a run among files, and the session after it. -/
def answers (files : FileTree) (keepGoing : Bool) :
    Session → List ScriptLine → List LineResult × Session
  | s, [] => ([], s)
  | s, line :: rest =>
    let o := s.outcome files line.text
    let r : LineResult := ⟨line, o.result⟩
    if r.succeeded || keepGoing then
      let (results, t) := answers files keepGoing o.session rest
      (r :: results, t)
    else ([r], o.session)

/-- The world after results have been reported in it. -/
def told (report : LineResult → Job Unit) (w : World) (results : List LineResult) : World :=
  results.foldl (fun w r => ((report r).run w).2) w

theorem answers_cons_ok {line : ScriptLine} {rest : List ScriptLine} {output : Output}
    (h : (s.outcome files line.text).result = .ok output) :
    answers files keepGoing s (line :: rest) =
      (⟨line, .ok output⟩ :: (answers files keepGoing (s.outcome files line.text).session rest).1,
        (answers files keepGoing (s.outcome files line.text).session rest).2) := by
  simp only [answers, h]
  rfl

/-- A failure leaves the session for the lines behind it as it was. -/
theorem answers_cons_error {line : ScriptLine} {rest : List ScriptLine} {e : QueryError}
    (h : (s.outcome files line.text).result = .error e) :
    answers files keepGoing s (line :: rest) =
      if keepGoing then
        (⟨line, .error e⟩ :: (answers files keepGoing s rest).1,
          (answers files keepGoing s rest).2)
      else ([⟨line, .error e⟩], s) := by
  simp only [answers, h, Session.outcome_failed h]
  rfl

/-- The first line of a run, if its command does not replace a file. -/
theorem run_cons {report : LineResult → Job Unit} {line : ScriptLine} {rest : List ScriptLine}
    (hline : Session.exports line.text = false) (w : World) :
    (run keepGoing report s (line :: rest)).run w =
      let o := s.outcome w.files line.text
      let r : LineResult := ⟨line, o.result⟩
      let w' := ((report r).run w).2
      if r.succeeded || keepGoing then
        let x := (run keepGoing report o.session rest).run w'
        ((r :: x.1.1, x.1.2), x.2)
      else (([r], o.session), w') := by
  rw [run, Job.bind_eq, Job.run_bind, (s.onlyReads_execute hline).run_eq, Job.bind_eq,
    Job.run_bind]
  dsimp only [Session.outcome]
  generalize (s.execute line.text).resultAmong w.files = o
  obtain ⟨result, t⟩ := o
  cases result with
  | ok output => exact Job.run_bind ..
  | error e =>
    cases keepGoing with
    | false => rfl
    | true => exact Job.run_bind ..

/-- The answers do not depend on the reports if these leave the files alone. -/
theorem run_eq_answers {report : LineResult → Job Unit}
    (hreport : ∀ r w, ((report r).run w).2.files = w.files)
    (hlines : ∀ line ∈ lines, Session.exports line.text = false) (w : World) :
    (run keepGoing report s lines).run w =
      (answers w.files keepGoing s lines, told report w (answers w.files keepGoing s lines).1) := by
  induction lines generalizing s w with
  | nil => rfl
  | cons line rest ih =>
    obtain ⟨hline, hrest⟩ := List.forall_mem_cons.1 hlines
    rw [run_cons hline, answers]
    dsimp only
    rw [ih hrest, hreport]
    split <;> rfl

/-- Stopping cuts the results off behind the first failure. -/
theorem answers_false :
    (answers files false s lines).1 = LineResult.upToFailure (answers files true s lines).1 := by
  induction lines generalizing s with
  | nil => rfl
  | cons line rest ih =>
    cases h : (s.outcome files line.text).result with
    | ok output =>
      rw [answers_cons_ok h, answers_cons_ok h, ih]
      rfl
    | error e =>
      rw [answers_cons_error h, answers_cons_error h]
      rfl

theorem map_line_answers : (answers files true s lines).1.map (·.line) = lines := by
  induction lines generalizing s with
  | nil => rfl
  | cons line rest ih =>
    cases h : (s.outcome files line.text).result with
    | ok output => rw [answers_cons_ok h, List.map_cons, ih]
    | error e => rw [answers_cons_error h, if_pos rfl, List.map_cons, ih]

/-- The lines that succeed, on their own, do so again and do the same. -/
theorem answers_shorter (keepGoing : Bool) {shorter : List ScriptLine}
    (h : shorter.map (·.text) =
      ((answers files true s lines).1.filter (·.succeeded)).map (·.line.text)) :
    (answers files keepGoing s shorter).2 = (answers files true s lines).2 ∧
      LineResult.outputs (answers files keepGoing s shorter).1 =
        LineResult.outputs (answers files true s lines).1 ∧
      ∀ r ∈ (answers files keepGoing s shorter).1, r.succeeded = true := by
  induction lines generalizing s shorter with
  | nil =>
    obtain rfl := List.map_eq_nil_iff.1 h
    exact ⟨rfl, rfl, List.forall_mem_nil _⟩
  | cons line rest ih =>
    cases hresult : (s.outcome files line.text).result with
    | ok output =>
      rw [answers_cons_ok hresult] at h ⊢
      obtain ⟨line', shorter, rfl, htext, hshorter⟩ := List.map_eq_cons_iff.1 h
      dsimp only at htext
      have hresult' := hresult
      rw [← htext] at hresult'
      obtain ⟨hsession, houtputs, hsucceeded⟩ := ih hshorter
      rw [answers_cons_ok hresult', htext]
      exact ⟨hsession, congrArg (output :: ·) houtputs, List.forall_mem_cons.2 ⟨rfl, hsucceeded⟩⟩
    | error e =>
      rw [answers_cons_error hresult, if_pos rfl] at h ⊢
      exact ih h

end Script

/-! ### Scripts on the command line -/

namespace CommandLine

open LineResult

variable {format : Format} {path : String} {keepGoing : Bool} {s : Session} {w : World}
  {text : String}

theorem files_reportLine (r : LineResult) (w : World) :
    ((reportLine format path keepGoing r).run w).2.files = w.files := by
  obtain ⟨line, result⟩ := r
  cases result with
  | ok output => rfl
  | error e => cases keepGoing <;> rfl

/-- Only outputs are printed. -/
theorem output_told (results : List LineResult) :
    (Script.told (reportLine format path keepGoing) w results).output =
      w.output ++ String.join ((outputs results).map format.print) := by
  induction results generalizing w with
  | nil => exact String.append_empty.symm
  | cons r rest ih =>
    rw [Script.told, List.foldl_cons]
    refine (ih (w := ((reportLine format path keepGoing r).run w).2)).trans ?_
    obtain ⟨line, result⟩ := r
    cases result with
    | ok output =>
      change w.output ++ format.print output ++ String.join ((outputs rest).map format.print) =
        w.output ++ String.join (format.print output :: (outputs rest).map format.print)
      rw [String.join_cons, String.append_assoc]
    | error e => cases keepGoing <;> rfl

/-- What a run of a script leaves. -/
structure Played where
  results : List LineResult
  session : Session
  world : World

/-- The run of a script that lies under a path. -/
def play (format : Format) (path : String) (keepGoing : Bool) (s : Session) (w : World)
    (text : String) : Played :=
  let ((results, session), world) :=
    (Script.run keepGoing (reportLine format path keepGoing) s (Script.lines text)).run w
  ⟨results, session, world⟩

theorem run_runScript (h : w.files.read path = .text text) :
    (runScript format s path keepGoing).run w =
      (verdict path keepGoing (play format path keepGoing s w text).results,
        (play format path keepGoing s w text).world) := by
  rw [runScript, Job.bind_eq, Job.run_bind, Job.fileContent, Job.run, Job.run, h]
  dsimp only
  rw [Job.bind_eq, Job.run_bind]
  rfl

theorem length_failures (results : List LineResult) :
    (results.filterMap fun r => r.error?.map (r.line, ·)).length = (failing results).length := by
  rw [failing, List.length_map, List.length_filterMap_eq_countP, List.countP_eq_length_filter]
  refine congrArg List.length (List.filter_congr fun r _ => ?_)
  rw [Option.isSome_map, succeeded, Option.not_isNone]

/-- Keeping going is a failure if a line failed, and tells how many. -/
theorem verdict_keepGoing (path : String) (results : List LineResult) :
    verdict path true results =
      if failing results = [] then .ok ()
      else .error [s!"{(failing results).length} command(s) failed"] := by
  have hlength := length_failures results
  rw [verdict]
  cases hfailures : results.filterMap fun r => r.error?.map (r.line, ·) with
  | nil =>
    rw [hfailures, List.length_nil] at hlength
    rw [if_pos (List.eq_nil_of_length_eq_zero hlength.symm)]
  | cons failure rest =>
    have hne : failing results ≠ [] := by
      rw [← List.length_pos_iff, ← hlength, hfailures]
      exact Nat.succ_pos _
    rw [if_neg hne, ← hlength, hfailures]
    rfl

theorem verdict_eq_ok (path : String) {results : List LineResult} (h : failing results = []) :
    verdict path keepGoing results = .ok () := by
  have hlength := length_failures results
  rw [h, List.length_nil] at hlength
  rw [verdict, List.eq_nil_of_length_eq_zero hlength]

/-- Stopping tells where the first failure is, and what it is. -/
theorem verdict_stopping (path : String) (results : List LineResult) :
    verdict path false results =
      match firstFailure? results with
      | none => .ok ()
      | some (line, e) => .error (place path line :: e.chain) := by
  rw [firstFailure?, ← List.head?_filterMap, verdict]
  cases results.filterMap fun r => r.error?.map (r.line, ·) <;> rfl

/-! ### A run that keeps going -/

/-- A run does again what another one did, and nothing fails in it. -/
structure Played.Repeats (p q : Played) : Prop where
  session : p.session = q.session
  outputs : outputs p.results = outputs q.results
  output : p.world.output = q.world.output
  failing : failing p.results = []

/-- The run `all`, which keeps going, is that of the script without the lines that fail in it,
and the run that stops is the part of it before the first of these. -/
structure KeepsGoing (format : Format) (path : String) (s : Session) (w : World) (text : String)
    (all : Played) : Prop where
  /-- Every command is run, in the order of the lines. -/
  complete : all.results.map (·.line) = Script.lines text
  /-- The script without the lines that failed, under any path and in both modes. -/
  shorter (path' : String) (keepGoing : Bool) :
    (play format path' keepGoing s w (Script.without (failing all.results) text)).Repeats all
  shorterSucceeds (path' : String) (keepGoing : Bool)
    (h : w.files.read path' = .text (Script.without (failing all.results) text)) :
    ((runScript format s path' keepGoing).run w).1 = .ok ()
  /-- The run is a failure if a line failed, and tells how many did. -/
  reports (h : w.files.read path = .text text) :
    (runScript format s path true).run w =
      (if failing all.results = [] then .ok ()
        else .error [s!"{(failing all.results).length} command(s) failed"], all.world)
  /-- What the stopping run puts out comes from the lines before the first failure. -/
  stopped : outputs (play format path false s w text).results =
    outputs (all.results.takeWhile (·.succeeded))
  /-- The stopping run names the line of the first failure. -/
  stopReports (h : w.files.read path = .text text) :
    (runScript format s path false).run w =
      (match firstFailure? all.results with
        | none => .ok ()
        | some (line, e) => .error (place path line :: e.chain),
      (play format path false s w text).world)
  /-- In both modes the outputs are printed. -/
  printed (keepGoing : Bool) : (play format path keepGoing s w text).world.output =
    w.output ++
      String.join ((outputs (play format path keepGoing s w text).results).map format.print)
  /-- Every line counts, blank ones and comments too. -/
  counted : ∀ line ∈ Script.lines text, 1 ≤ line.number ∧
    ((text.toList.splitOn '\n')[line.number - 1]?).map Blank.trimChars = some line.text.toList

section Played

variable (htext : ∀ line ∈ Script.lines text, Session.exports line.text = false)

include htext

theorem results_play : (play format path keepGoing s w text).results =
    (Script.answers w.files keepGoing s (Script.lines text)).1 := by
  rw [play, Script.run_eq_answers files_reportLine htext]

theorem session_play : (play format path keepGoing s w text).session =
    (Script.answers w.files keepGoing s (Script.lines text)).2 := by
  rw [play, Script.run_eq_answers files_reportLine htext]

theorem output_play : (play format path keepGoing s w text).world.output = w.output ++
    String.join ((outputs (play format path keepGoing s w text).results).map format.print) := by
  rw [results_play htext, play, Script.run_eq_answers files_reportLine htext]
  exact output_told _

theorem exports_without {numbers : List Nat} {line : ScriptLine}
    (hline : line ∈ Script.lines (Script.without numbers text)) :
    Session.exports line.text = false := by
  have hmem : line.text ∈ (Script.lines (Script.without numbers text)).map (·.text) :=
    List.mem_map_of_mem hline
  rw [Script.map_text_lines_without] at hmem
  obtain ⟨line', hline', heq⟩ := List.mem_map.1 hmem
  rw [← heq]
  exact htext line' (List.mem_of_mem_filter hline')

end Played

/-- The lines that are left when those that failed are deleted are those that succeeded. -/
theorem map_text_lines_without_failing {results : List LineResult}
    (h : results.map (·.line) = Script.lines text) :
    (Script.lines (Script.without (failing results) text)).map (·.text) =
      (results.filter (·.succeeded)).map (·.line.text) := by
  have hnodup : (results.map (·.line.number)).Nodup := by
    have hnumbers := Script.nodup_number_lines text
    rwa [← h, List.map_map] at hnumbers
  rw [Script.map_text_lines_without, ← h, List.filter_map, List.map_map,
    ← filter_not_failing hnodup]
  rfl

theorem repeats_play_without (format : Format) (path path' : String) (keepGoing : Bool)
    (s : Session) (w : World)
    (htext : ∀ line ∈ Script.lines text, Session.exports line.text = false) :
    (play format path' keepGoing s w (Script.without
      (failing (play format path true s w text).results) text)).Repeats
        (play format path true s w text) := by
  have hrest {numbers : List Nat} (line : ScriptLine)
      (hline : line ∈ Script.lines (Script.without numbers text)) :
      Session.exports line.text = false := exports_without htext hline
  have hcomplete : (play format path true s w text).results.map (·.line) = Script.lines text := by
    rw [results_play htext, Script.map_line_answers]
  have hshorter := map_text_lines_without_failing hcomplete
  rw [results_play htext] at hshorter
  obtain ⟨hsession, houtputs, hsucceeded⟩ := Script.answers_shorter keepGoing hshorter
  rw [results_play htext]
  have hagain : outputs (play format path' keepGoing s w (Script.without
      (failing (Script.answers w.files true s (Script.lines text)).1) text)).results =
        outputs (play format path true s w text).results := by
    rw [results_play hrest, results_play htext, houtputs]
  refine ⟨?_, hagain, ?_, ?_⟩
  · rw [session_play hrest, session_play htext, hsession]
  · rw [output_play hrest, output_play htext, hagain]
  · rw [results_play hrest]
    exact failing_eq_nil_iff.2 hsucceeded

/-- A script that makes a node twice. -/
def twice : String :=
  "CREATE NODE Person \x7bid: 1\x7d\n# again\n\nCREATE NODE Person \x7bid: 1\x7d\nGET NODE Person 1"

end CommandLine

end PropertyGraph
