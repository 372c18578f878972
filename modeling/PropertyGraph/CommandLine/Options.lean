import PropertyGraph.CommandLine.Report

/-! Options of the command line. The four general options may stand before the name of
what is to be done and after it; the later place wins, and at each place an option is
given once at most. -/

namespace PropertyGraph

/-- What is to be done. -/
inductive Action where
  | script (path : String) (keepGoing : Bool)
  | execute (text : String)
  | shell
deriving DecidableEq

structure Options where
  format : Format
  load : Option String
  config : Option String
  maxHops : Option Nat
  action : Action
deriving DecidableEq

inductive Invocation where
  | version
  | start (options : Options)
deriving DecidableEq

namespace Options

/-- The general options that are given in one place. -/
structure General where
  format : Option Format := none
  load : Option String := none
  config : Option String := none
  maxHops : Option Nat := none

def pathOf? (value : String) : Option String := if value == "" then none else some value

/-- A natural that fits 64 bits; a plus sign may come first. -/
def countOf? (value : String) : Option Nat := do
  let digits := match value.toList with
    | '+' :: s => s
    | s => s
  if digits.isEmpty || !digits.all Char.isDigit then none
  else
    let n := Digits.toNat digits
    if n < UInt64.size then some n else none

namespace General

def names : List String := ["--format", "--load", "--config", "--max-hops"]

/-- Sets an option that is not set yet. -/
def set? (g : General) (name value : String) : Option General :=
  match name with
  | "--format" =>
    if g.format.isSome then none
    else (Format.ofName? value).map fun x => { g with format := some x }
  | "--load" =>
    if g.load.isSome then none else (pathOf? value).map fun x => { g with load := some x }
  | "--config" =>
    if g.config.isSome then none else (pathOf? value).map fun x => { g with config := some x }
  | "--max-hops" =>
    if g.maxHops.isSome then none else (countOf? value).map fun x => { g with maxHops := some x }
  | _ => none

/-- An option that is not given here may come from the environment. -/
def withEnvironment? (g : General) : Option String → Option General
  | none => some g
  | some value => if g.config.isSome then some g else (pathOf? value).map fun _ => g

end General

/-! ### Arguments -/

/-- A general option, with its value if that is written after an equals sign. -/
def general? (argument : String) : Option (String × Option String) :=
  General.names.findSome? fun name =>
    match name.toList.isPrefixOf? argument.toList with
    | some [] => some (name, none)
    | some ('=' :: value) => some (name, some (String.ofList value))
    | _ => none

/-- Whether an argument starts like an option. -/
def isDashed (argument : String) : Bool := argument.startsWith "-" && argument != "-"

/-- What follows the name of an action. -/
structure Rest where
  general : General := {}
  keepGoing : Bool := false
  operands : List String := []

/-- Reads the arguments after the name of an action. After two dashes every argument is
an operand. -/
def rest? : (operandsOnly : Bool) → Rest → List String → Option Rest
  | _, r, [] => some r
  | true, r, a :: args => rest? true { r with operands := r.operands ++ [a] } args
  | false, r, a :: args =>
    match general? a with
    | some (name, some value) => do
      let general ← r.general.set? name value
      rest? false { r with general } args
    | some (name, none) =>
      match args with
      | [] => none
      | value :: args =>
        if isDashed value then none
        else do
          let general ← r.general.set? name value
          rest? false { r with general } args
    | none =>
      if a == "--" then rest? true r args
      else if a == "--keep-going" then
        if r.keepGoing then none else rest? false { r with keepGoing := true } args
      else if isDashed a then none
      else rest? false { r with operands := r.operands ++ [a] } args

/-- The action of a name with what follows it. Only scripts can keep going. -/
def action? (name : String) (r : Rest) : Option Action :=
  match name, r.operands with
  | "run", [path] => (pathOf? path).map (.script · r.keepGoing)
  | "exec", [text] => if r.keepGoing then none else some (.execute text)
  | "shell", [] => if r.keepGoing then none else some .shell
  | _, _ => none

/-- The options of general options before and after the action. -/
def make (first second : General) (environment : Option String) (action : Action) : Options where
  format := (second.format.or first.format).getD .table
  load := second.load.or first.load
  config := (second.config.or first.config).or environment
  maxHops := second.maxHops.or first.maxHops
  action := action

def finish? (environment : Option String) (g : General) (name : String) (args : List String) :
    Option Invocation := do
  let r ← rest? false {} args
  let action ← action? name r
  let g ← g.withEnvironment? environment
  let second ← r.general.withEnvironment? environment
  some (.start (make g second environment action))

/-- Whether the version is asked for. -/
def asksVersion (argument : String) : Bool :=
  argument == "--version" || argument.startsWith "-V"

/-- Reads arguments up to the name of the action. -/
def read? (environment : Option String) : General → List String → Option Invocation
  | _, [] => none
  | g, a :: args =>
    match general? a with
    | some (name, some value) => do
      let g ← g.set? name value
      read? environment g args
    | some (name, none) =>
      match args with
      | [] => none
      | value :: args =>
        if isDashed value then none
        else do
          let g ← g.set? name value
          read? environment g args
    | none =>
      if asksVersion a then some .version else finish? environment g a args

end Options

/-- What arguments ask for; none if they are not understood. The environment may name
the settings file. -/
def Invocation.read? (environment : Option String) (args : List String) : Option Invocation :=
  Options.read? environment {} args

end PropertyGraph
