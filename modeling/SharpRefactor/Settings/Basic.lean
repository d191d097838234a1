import SharpRefactor.Settings.Titles
import SharpRefactor.Toml.Document

/-!
The settings of a host: how much is logged, which rules are off, and what the others are called.
They are read from a text in which everything may be left out. What is wrong is reported for the
first entry, in the order of the text, that cannot be understood.
-/

namespace SharpRefactor

structure LogSettings where
  /-- A level, or directives for parts of the program. -/
  level : String
  /-- Whether log lines are records for machines. -/
  json : Bool
  deriving DecidableEq, Repr

def LogSettings.default : LogSettings := ⟨"info", false⟩

structure RuleSettings where
  /-- The names of the rules that are off, in order and each of them once. -/
  disabled : List String
  titles : Titles
  deriving DecidableEq, Repr

namespace RuleSettings

def default : RuleSettings := ⟨[], .empty⟩

def isEnabled (s : RuleSettings) (id : String) : Bool := !s.disabled.contains id

def titleFor? (s : RuleSettings) (id : String) : Option String := s.titles.get? id

end RuleSettings

structure Settings where
  logging : LogSettings
  refactor : RuleSettings
  deriving DecidableEq, Repr

def Settings.default : Settings := ⟨.default, .default⟩

/-- Why settings cannot be read. -/
inductive SettingsError where
  /-- The text does not have the form of a settings file. -/
  | malformed
  | unknownField (name : String) (expected : List String)
  | mismatch (found : Toml.Value) (wanted : String)
  /-- The file is no text. -/
  | notText
  | missingFile (path : String)

namespace SettingsError

/-- The part of a message that names the cause. -/
def cause : SettingsError → String
  | malformed => "malformed"
  | unknownField name expected =>
    let fields := String.intercalate " or " (expected.map fun field => s!"`{field}`")
    s!"unknown field `{name}`, expected {fields}"
  | mismatch found wanted => s!"invalid type: {found.describe}, expected {wanted}"
  | notText => "stream did not contain valid UTF-8"
  | missingFile _ => "No such file or directory (os error 2)"

/-- The whole message. A file that is no text is reported by its cause alone. -/
def message : SettingsError → String
  | notText => cause notText
  | missingFile path => s!"failed to read config file {path}: {cause (missingFile path)}"
  | e => s!"failed to parse toml config: {e.cause}"

end SettingsError

namespace Settings

open Toml (Value)

/-- Reads a value as one kind of thing. -/
abbrev Decoder (α : Type) := Value → Except SettingsError α

def text : Decoder String
  | .text s => .ok s
  | v => .error (.mismatch v "a string")

def flag : Decoder Bool
  | .bool b => .ok b
  | v => .error (.mismatch v "a boolean")

/-- Names in order, each of them once. -/
def distinct (names : List String) : List String :=
  (names.mergeSort fun a b => decide (a ≤ b)).eraseDups

def names : Decoder (List String)
  | .list items => do return distinct (← items.mapM text)
  | v => .error (.mismatch v "a sequence")

def titles : Decoder Titles
  | .table entries => do
    return Titles.ofList (← entries.mapM fun (id, v) => do return (id, ← text v))
  | v => .error (.mismatch v "a map")

/-- A field of a record: its name, and how its value changes the record. -/
structure Field (α : Type) where
  name : String
  assign : α → Decoder α

/-- A record from a table, or from the list of its fields' values in order. What is left out has its
default. -/
def record {α : Type} (kind : String) (initial : α) (fields : List (Field α)) : Decoder α
  | .table entries =>
    entries.foldlM (fun a (key, v) =>
      match fields.find? (·.name == key) with
      | some field => field.assign a v
      | none => .error (.unknownField key (fields.map Field.name))) initial
  | .list items =>
    (fields.zip items).foldlM (fun a (field, v) => field.assign a v) initial
  | v => .error (.mismatch v kind)

def logSettings : Decoder LogSettings :=
  record "struct LoggingConfig" .default
    [⟨"level", fun s v => return { s with level := ← text v }⟩,
     ⟨"json", fun s v => return { s with json := ← flag v }⟩]

def ruleSettings : Decoder RuleSettings :=
  record "struct RefactorConfig" .default
    [⟨"disabled_rules", fun s v => return { s with disabled := ← names v }⟩,
     ⟨"titles", fun s v => return { s with titles := ← titles v }⟩]

def decode : Decoder Settings :=
  record "struct Settings" .default
    [⟨"logging", fun s v => return { s with logging := ← logSettings v }⟩,
     ⟨"refactor", fun s v => return { s with refactor := ← ruleSettings v }⟩]

/-- The settings in a text. -/
def ofText (s : String) : Except SettingsError Settings :=
  match Toml.read? s with
  | none => .error .malformed
  | some entries => decode (.table entries)

/-- The settings in the bytes of a file. -/
def ofBytes (bytes : ByteArray) : Except SettingsError Settings :=
  match String.fromUTF8? bytes with
  | some s => ofText s
  | none => .error .notText

end Settings
end SharpRefactor
