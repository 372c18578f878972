import PropertyGraph.Session

/-! Scripts: one command a line. Blank lines and lines that start with `#` hold none. -/

namespace PropertyGraph

/-- A command with the number of its line, counted from one. -/
structure ScriptLine where
  number : Nat
  text : String
deriving DecidableEq

/-- What came of the command of a line. -/
structure LineResult where
  line : ScriptLine
  result : Except QueryError Output

namespace LineResult

def error? (r : LineResult) : Option QueryError :=
  match r.result with
  | .ok _ => none
  | .error e => some e

end LineResult

namespace Script

/-- Whether a trimmed line holds a command. -/
def isCommand (line : List Char) : Bool := !line.isEmpty && line.head? != some '#'

/-- The commands of a script, without the white space around them. -/
def lines (text : String) : List ScriptLine :=
  (((text.toList.splitOn '\n').map Blank.trimChars).zipIdx 1).filterMap fun (line, number) =>
    if isCommand line then some ⟨number, String.ofList line⟩ else none

/-- Runs commands in their order and hands the result of each to `report`. The first
failure is the last result unless it is to keep going. -/
def run (keepGoing : Bool) (report : LineResult → Job Unit) :
    Session → List ScriptLine → Job (List LineResult × Session)
  | s, [] => return ([], s)
  | s, line :: rest => do
    let o ← s.execute line.text
    let result : LineResult := ⟨line, o.result⟩
    report result
    if result.error?.isSome && !keepGoing then return ([result], o.session)
    else do
      let (results, s) ← run keepGoing report o.session rest
      return (result :: results, s)

end Script

end PropertyGraph
