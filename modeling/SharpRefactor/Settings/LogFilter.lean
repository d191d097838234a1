import SharpRefactor.Settings.Basic
import SharpRefactor.Unicode.Classes

/-!
Log filters: directives that say down to which level a part of the program is logged, or all of it
if no part is named. A filter is given in the settings, and another one by the environment, which is
added to it.
-/

namespace SharpRefactor

inductive LogLevel where
  | off | error | warn | info | debug | trace
  deriving DecidableEq, Repr

namespace LogLevel

def name : LogLevel → String
  | off => "off"
  | error => "error"
  | warn => "warn"
  | info => "info"
  | debug => "debug"
  | trace => "trace"

/-- All levels, each at the index that is its number. -/
def all : List LogLevel := [off, error, warn, info, debug, trace]

/-- The number that a numeral stands for. -/
def numeral? (cs : List Char) : Option Nat :=
  let ds := match cs with
    | '+' :: ds => ds
    | ds => ds
  if ds ≠ [] ∧ ds.all Char.isDigit then
    some (ds.foldl (fun n c => 10 * n + (c.toNat - '0'.toNat)) 0)
  else none

/-- The level that a word names, by its number or by its name in any case. -/
def ofWord? (word : String) : Option LogLevel :=
  match numeral? word.toList with
  | some n => all[n]?
  | none => all.find? (·.name == word.toLower)

end LogLevel

/-- Down to which level a part of the program is logged. -/
structure Directive where
  target : Option String
  level : LogLevel
  deriving DecidableEq, Repr

namespace Directive

def render (d : Directive) : String :=
  match d.target with
  | none => d.level.name
  | some target => target ++ "=" ++ d.level.name

/-- The pieces of a text between the occurrences of a character. -/
def split (separator : Char) : List Char → List (List Char)
  | [] => [[]]
  | c :: cs =>
    match split separator cs with
    | [] => [[c]]
    | piece :: pieces => if c = separator then [] :: piece :: pieces else (c :: piece) :: pieces

/-- Whether a character may be the first one of a directive. -/
def isFirst (c : Char) : Bool :=
  c.isAlphanum || c = '-' || c = ':' || c = '_' || Unicode.isIdentContinue c

/-- The directive that a text gives: a level, a target, or both. A target without a level is logged
completely. White space in front is part of a target, and a level cannot follow it. -/
def ofText? (cs : List Char) : Option Directive :=
  match cs.dropWhile Unicode.isWhiteSpace with
  | [] => none
  | first :: _ =>
    if !isFirst first then none
    else
      match cs.span (· ≠ '=') with
      | (target, []) =>
        let target := String.ofList target
        match LogLevel.ofWord? target with
        | some level => some ⟨none, level⟩
        | none => some ⟨some target, .trace⟩
      | (target, _ :: level) =>
        if cs.head?.any Unicode.isWhiteSpace then none
        else if level = [] then some ⟨some (String.ofList target), .trace⟩
        else (LogLevel.ofWord? (String.ofList level)).map (⟨some (String.ofList target), ·⟩)

/-- Adds a directive, which takes the place of an earlier one for the same target. -/
def put (d : Directive) (ds : List Directive) : List Directive :=
  ds.filter (·.target ≠ d.target) ++ [d]

end Directive

/-- A log filter: directives, of which each has another target. -/
structure LogFilter where
  directives : List Directive
  deriving DecidableEq, Repr

namespace LogFilter

/-- The filter of some directives; without any, errors are logged. -/
def ofDirectives (ds : List Directive) : LogFilter :=
  match ds.foldl (fun kept d => d.put kept) [] with
  | [] => ⟨[⟨none, .error⟩]⟩
  | kept => ⟨kept⟩

/-- The filter that a text gives: directives between commas, all of which have to be right. -/
def ofText? (s : String) : Option LogFilter :=
  (((Directive.split ',' s.toList).filter (· ≠ [])).mapM Directive.ofText?).map ofDirectives

def render (f : LogFilter) : List String := f.directives.map Directive.render

/-- A text without white space around it. -/
def trim (s : String) : String :=
  String.ofList
    (((s.toList.dropWhile Unicode.isWhiteSpace).reverse.dropWhile Unicode.isWhiteSpace).reverse)

/-- The names by which a level goes in the settings. -/
def aliases : List (String × String) :=
  [("trace", "trace"), ("debug", "debug"), ("info", "info"), ("warn", "warn"),
   ("warning", "warn"), ("error", "error"), ("off", "off"), ("none", "off")]

/-- What the level in the settings says, as directives. -/
def directivesOf (level : String) : String :=
  let s := trim level
  if s.isEmpty then LogSettings.default.level else (aliases.lookup s.toLower).getD s

end LogFilter

namespace LogSettings

/-- The filter that the settings alone give. Directives that are not right are ignored. -/
def ownFilter (s : LogSettings) : LogFilter :=
  (LogFilter.ofText? (LogFilter.directivesOf s.level)).getD ⟨[⟨none, .info⟩]⟩

/-- The filter of the settings and the environment together. If it is not right, the environment
counts alone, and if that is not right either, the settings do. -/
def filter (s : LogSettings) (environment : Option String) : LogFilter :=
  match (environment.map LogFilter.trim).filter (! ·.isEmpty) with
  | none => s.ownFilter
  | some added =>
    ((LogFilter.ofText? (LogFilter.directivesOf s.level ++ "," ++ added)).or
      (LogFilter.ofText? added)).getD s.ownFilter

end LogSettings
end SharpRefactor
