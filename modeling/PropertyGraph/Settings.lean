import PropertyGraph.Text.Blank
import PropertyGraph.Text.Digits
import PropertyGraph.Yaml.Reading

/-! Settings. A YAML mapping may give any of them; what it does not give keeps its
default, and entries that are no settings are passed over. -/

namespace PropertyGraph

structure Settings where
  /-- The most steps that a traversal may have. -/
  maxHops : Nat := 8
  /-- Whether exported documents are laid out for reading. -/
  prettyJson : Bool := true
  logLevel : String := "warn"
deriving DecidableEq

inductive SettingsError where
  | unavailable
  | malformed
  | noHops
  | noLogLevel
deriving DecidableEq

/-- The file system's and the text's own faults are not told any further. -/
def SettingsError.message : SettingsError → String
  | .unavailable => "Failed to read config file:"
  | .malformed => "Failed to parse YAML config:"
  | .noHops => "Invalid value for 'max_hops': must be at least 1"
  | .noLogLevel => "Invalid value for 'log_level': cannot be empty"

namespace Settings

/-! ### Scalars -/

def withoutPlus : List Char → List Char
  | '+' :: s => s
  | s => s

/-- A natural in base ten without leading zeros, or behind `0x`, `0o` or `0b` one in
base sixteen, eight or two; a plus sign may come first. -/
def natural? (s : List Char) : Option Nat :=
  match withoutPlus s with
  | [] => none
  | '0' :: 'x' :: d :: ds => Digits.ofBase? 16 (d :: ds)
  | '0' :: 'o' :: d :: ds => Digits.ofBase? 8 (d :: ds)
  | '0' :: 'b' :: d :: ds => Digits.ofBase? 2 (d :: ds)
  | '0' :: _ :: _ => none
  | digits => Digits.ofBase? 10 digits

/-- The text of a scalar that can be more than a text: a plain one, or a literal one whose
tag says what it is. -/
def typed? (tag : String) : Yaml → Option String
  | .scalar text .plain _ => some text
  | .scalar text .literal t => if t == some tag then some text else none
  | _ => none

/-- A number of hops fits 64 bits. -/
def hops? (x : Yaml) : Option Nat := do
  let n ← natural? (← typed? "tag:yaml.org,2002:int" x).toList
  if n < UInt64.size then some n else none

def flag? (x : Yaml) : Option Bool := do
  let text ← typed? "tag:yaml.org,2002:bool" x
  if ["true", "True", "TRUE"].contains text then some true
  else if ["false", "False", "FALSE"].contains text then some false
  else none

/-- Any scalar is a text, as it is written. -/
def text? : Yaml → Option String
  | .scalar text .. => some text
  | _ => none

/-! ### Mappings -/

/-- A setting that may be given once at most. -/
def field? {α : Type} (entries : List (String × Yaml)) (name : String)
    (read? : Yaml → Option α) (default : α) : Option α :=
  match entries.filter (·.1 == name) with
  | [] => some default
  | [(_, x)] => read? x
  | _ => none

/-- The settings among the entries of a document. -/
def ofEntries? (document : Yaml) (entries : List (String × Yaml)) : Option Settings := do
  let defaults : Settings := {}
  let maxHops ← field? entries "max_hops" (document.resolve? · >>= hops?) defaults.maxHops
  let prettyJson ← field? entries "pretty_json" (document.resolve? · >>= flag?) defaults.prettyJson
  let logLevel ← field? entries "log_level" (document.resolve? · >>= text?) defaults.logLevel
  some ⟨maxHops, prettyJson, logLevel⟩

/-- The settings of a document. One without content leaves all defaults. -/
def ofYaml? (document : Yaml) : Option Settings :=
  match document.content with
  | .mapping entries => do
    let named ← entries.mapM fun (key, x) => do some (← text? (← document.resolve? key), x)
    ofEntries? document named
  | .scalar "" .plain _ => some {}
  | _ => none

/-! ### Texts -/

/-- Settings that commands can run under. -/
def check (s : Settings) : Except SettingsError Unit :=
  if s.maxHops = 0 then .error .noHops
  else if Blank.trim s.logLevel = "" then .error .noLogLevel
  else .ok ()

/-- The settings that a YAML text gives. -/
def read (text : String) : Except SettingsError Settings :=
  match (Yaml.read text).bind ofYaml? with
  | none => .error .malformed
  | some s => do
    s.check
    .ok s

end Settings

end PropertyGraph
