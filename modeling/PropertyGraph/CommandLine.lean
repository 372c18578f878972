import PropertyGraph.CommandLine.Options
import PropertyGraph.CommandLine.Shell

/-! The command line: settings are read, a graph is loaded if one is named, and then a
script, a single command or the shell runs. A failure that ends the program is told
with everything behind it. -/

namespace PropertyGraph.CommandLine

def version : String := "0.1.0"

/-- The exit codes of success, of a failure and of arguments that are not understood. -/
def success : Nat := 0

def failure : Nat := 1

def misuse : Nat := 2

/-- Why the program ends early: what it was doing, and the causes, from outside in. -/
abbrev Fault := List String

def Fault.text (f : Fault) : String := "Error: " ++ ": ".intercalate f ++ "\n"

/-! ### Preparation -/

/-- The settings in a file. -/
def settingsOf : FileContent → Except SettingsError Settings
  | .text content => Settings.read content
  | _ => .error .unavailable

/-- The settings of a file that is named, or else the defaults. -/
def readSettings : Option String → Job (Except Fault Settings)
  | none => return .ok {}
  | some path => do
    let content ← Job.fileContent path
    return (settingsOf content).mapError fun e => ["loading config " ++ path, e.message]

/-- The settings under a hop limit of the command line. -/
def limited (s : Settings) (maxHops : Option Nat) : Except Fault Settings :=
  let s := { s with maxHops := maxHops.getD s.maxHops }
  match s.check with
  | .ok () => .ok s
  | .error e => .error [e.message]

/-- The command that imports from a path. -/
def importText (path : String) : String :=
  "IMPORT FROM JSON " ++ String.ofList (Token.quote path.toList)

/-- The session with the graph of a file that is named. -/
def load (s : Session) : Option String → Job (Except Fault Session)
  | none => return .ok s
  | some path => do
    let o ← s.execute (importText path)
    match o.result with
    | .ok _ => return .ok o.session
    | .error e => return .error (("loading graph " ++ path) :: e.chain)

/-- The session that an action starts in. -/
def prepare (o : Options) : Job (Except Fault Session) := do
  match ← readSettings o.config with
  | .error f => return .error f
  | .ok settings =>
    match limited settings o.maxHops with
    | .error f => return .error f
    | .ok settings => load ⟨settings, .empty⟩ o.load

/-! ### Actions -/

def place (path : String) (line : ScriptLine) : String := s!"{path}:{line.number}"

/-- Prints an output at once; a failure is told here only if it does not end the script. -/
def reportLine (format : Format) (path : String) (keepGoing : Bool) (r : LineResult) : Job Unit :=
  match r.result with
  | .ok output => Job.say (format.print output)
  | .error e =>
    if keepGoing then Job.complain s!"{place path r.line}: {e.message}\n" else return

/-- What the results of a script come to. -/
def verdict (path : String) (keepGoing : Bool) (results : List LineResult) : Except Fault Unit :=
  let failures := results.filterMap fun r => r.error?.map (r.line, ·)
  match failures with
  | [] => .ok ()
  | (line, e) :: _ =>
    if keepGoing then .error [s!"{failures.length} command(s) failed"]
    else .error (place path line :: e.chain)

def runScript (format : Format) (s : Session) (path : String) (keepGoing : Bool) :
    Job (Except Fault Unit) := do
  match ← Job.fileContent path with
  | .text content =>
    let (results, _) ←
      Script.run keepGoing (reportLine format path keepGoing) s (Script.lines content)
    return verdict path keepGoing results
  | _ => return .error ["reading script " ++ path ++ ":"]

def runCommand (format : Format) (s : Session) (text : String) : Job (Except Fault Unit) := do
  let o ← s.execute text
  match o.result with
  | .ok output =>
    Job.say (format.print output)
    return .ok ()
  | .error e => return .error e.chain

/-- Runs an action in a session; only the shell reads the input. -/
def perform (format : Format) (s : Session) (input : String) : Action → Job (Except Fault Unit)
  | .script path keepGoing => runScript format s path keepGoing
  | .execute text => runCommand format s text
  | .shell => do
    Shell.run format s input
    return .ok ()

/-- Tells a fault, if there is one, and gives the exit code. -/
def conclude : Except Fault Unit → Job Nat
  | .ok () => return success
  | .error f => do
    Job.complain f.text
    return failure

/-- Does what the options say and gives the exit code. -/
def start (o : Options) (input : String) : Job Nat := do
  match ← prepare o with
  | .error f => conclude (.error f)
  | .ok s => do
    let result ← perform o.format s input o.action
    conclude result

def run (environment : Option String) (args : List String) (input : String) : Job Nat :=
  match Invocation.read? environment args with
  | none => return misuse
  | some .version => do
    Job.say s!"pathgraph {version}\n"
    return success
  | some (.start o) => start o input

end PropertyGraph.CommandLine
