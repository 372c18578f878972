import PropertyGraph.CommandLine

/-! The program. Jobs are performed on the file system and the standard streams. -/

namespace PropertyGraph

def readContent (path : String) : IO FileContent := do
  try
    let bytes ← IO.FS.readBinFile path
    return (String.fromUTF8? bytes).elim .unreadable .text
  catch
    | .inappropriateType .. => return .unreadable
    | _ => return .absent

/-- Writes beside the file and then moves what was written into its place. -/
def replaceContent (path content : String) : IO Bool := do
  let beside := FilePath.temporary path
  try
    IO.FS.writeFile beside content
    IO.FS.rename beside path
    return true
  catch _ =>
    try IO.FS.removeFile beside catch _ => pure ()
    return false

def Job.perform {α : Type} : Job α → IO α
  | .done a => return a
  | .readFile path next => do (next (← readContent path)).perform
  | .replaceFile path content next => do (next (← replaceContent path content)).perform
  | .print text next => do
    let out ← IO.getStdout
    out.putStr text
    out.flush
    next.perform
  | .warn text next => do
    let err ← IO.getStderr
    err.putStr text
    err.flush
    next.perform

/-- Answers one line of standard input after the other, until one of them quits. -/
partial def interact (format : Format) (s : Session) : IO Unit := do
  (Job.complain Shell.prompt).perform
  let line ← (← IO.getStdin).getLine
  if line.isEmpty then return
  match ← (Shell.answer format s line).perform with
  | some s => interact format s
  | none => return

/-- The shell, which answers every line as it comes. -/
def interactWith (o : Options) : IO Nat := do
  match ← (CommandLine.prepare o).perform with
  | .error f => (CommandLine.conclude (.error f)).perform
  | .ok s => do
    (Job.say Shell.banner).perform
    interact o.format s
    (Job.say Shell.farewell).perform
    return CommandLine.success

def program (args : List String) : IO Nat := do
  let environment ← IO.getEnv "PATHGRAPH_CONFIG"
  match Invocation.read? environment args with
  | some (.start o) =>
    if o.action = .shell then interactWith o else (CommandLine.start o "").perform
  | _ => (CommandLine.run environment args "").perform

end PropertyGraph

def main (args : List String) : IO UInt32 := do
  return (← PropertyGraph.program args).toUInt32
