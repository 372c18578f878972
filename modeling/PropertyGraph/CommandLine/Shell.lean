import PropertyGraph.CommandLine.Report
import PropertyGraph.CommandLine.Script

/-! The interactive shell: a prompt before every line, commands and a few requests that
start with a colon. -/

namespace PropertyGraph.Shell

def banner : String :=
  "Pathgraph Interactive Shell\nType commands, or :help for help. :quit to exit.\n\n"

def prompt : String := "pathgraph> "

def farewell : String := "Bye!\n"

def help : String :=
  "\n".intercalate
    ["Commands:",
      "  CREATE NODE <Type> \x7bk: v, ...\x7d",
      "  CREATE RELATIONSHIP <Rel> FROM <Type>(id=<n>) TO <Type>(id=<n>) \x7bk: v\x7d",
      "  GET NODE <Type> <id>",
      "  GET NEIGHBORS <Type> <id> [WITH RELATIONSHIP <Rel>] " ++
        "[DIRECTION OUTGOING|INCOMING|BOTH]",
      "  UPDATE NODE <Type> <id> \x7bk: v\x7d   DELETE NODE <Type> <id>",
      "  UPDATE RELATIONSHIP <Rel> FROM ... TO ... \x7bk: v\x7d   DELETE RELATIONSHIP <id>",
      "  TRAVERSE <Type>(id=<n>) -[<Rel>]-> <Type> [<-[<Rel>]- <Type> ...] [WHERE ...]",
      "  MATCH (a:<Type>)-[r:<Rel>]->(b:<Type>) [WHERE ...]",
      "  EXPORT TO JSON <path>   IMPORT FROM JSON <path>",
      "  :stats    Show store counts",
      "  :quit     Exit shell",
      ""]

def stats (s : Session) : String :=
  s!"Nodes:         {s.store.nodeCount}\n" ++
    s!"Relationships: {s.store.relationshipCount}\n" ++
    s!"Hop limit:     {s.settings.maxHops}\n"

/-- What a line asks for. -/
inductive Request where
  | nothing
  | quit
  | help
  | stats
  | command (text : String)
deriving DecidableEq

def Request.read (line : String) : Request :=
  let text := Blank.trimChars line.toList
  if !Script.isCommand text then .nothing
  else
    let text := String.ofList text
    if [":quit", ":exit", ":q"].contains text then .quit
    else if [":help", ":h"].contains text then .help
    else if text == ":stats" then .stats
    else .command text

/-- Answers a line; no session is left after the last one. -/
def answer (format : Format) (s : Session) (line : String) : Job (Option Session) := do
  match Request.read line with
  | .nothing => return some s
  | .quit => return none
  | .help =>
    Job.say help
    return some s
  | .stats =>
    Job.say (stats s)
    return some s
  | .command text =>
    let o ← s.execute text
    match o.result with
    | .ok output => Job.say (format.print output)
    | .error e => Job.complain s!"Error: {e.message}\n"
    return some o.session

/-- Answers lines until one of them quits or none is left. -/
def answerAll (format : Format) : Session → List String → Job Unit
  | _, [] => Job.complain prompt
  | s, line :: rest => do
    Job.complain prompt
    match ← answer format s line with
    | none => return
    | some s => answerAll format s rest

/-- The lines of a text; the last one need not be ended. -/
def linesOf (input : String) : List String :=
  match (input.toList.splitOn '\n').reverse with
  | [] :: rest => rest.reverse.map String.ofList
  | all => all.reverse.map String.ofList

def run (format : Format) (s : Session) (input : String) : Job Unit := do
  Job.say banner
  answerAll format s (linesOf input)
  Job.say farewell

end PropertyGraph.Shell
