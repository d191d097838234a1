import SharpRefactor.Toml.Reader
import SharpRefactor.Toml.Scalar
import SharpRefactor.Toml.Section

/-!
The grammar of settings files: statements line by line, keys with dots, and values, which may be
lists and tables themselves.
-/

namespace SharpRefactor.Toml

/-- A reader that refuses whatever comes. -/
def refuse {α : Type} : Reader α := fun _ => none

/-- How deep values may lie in each other, and one more than the parts that a key may have. -/
def depthLimit : Nat := 80

/-! Keys. -/

def isKeyChar (c : Char) : Bool := c.isAlphanum || c = '-' || c = '_'

/-- A key without dots. -/
def simpleKey : Reader String := do
  match (← get).head? with
  | some '"' => basicText
  | some '\'' => literalText
  | _ =>
    let found ← Reader.takeWhile isKeyChar
    if found = [] then refuse else return String.ofList found

/-- The parts of a key after the first one. -/
def keyRest : Nat → Reader (List String)
  | 0 => refuse
  | limit + 1 => do
    skipBlanks
    if ← Reader.accept ['.'] then
      skipBlanks
      let part ← simpleKey
      return part :: (← keyRest limit)
    else return []

/-- A key: the parts that lead to a table, and the name in it. -/
def dottedKey : Reader (List String × String) := do
  let first ← simpleKey
  let parts := first :: (← keyRest (depthLimit - 1))
  match parts.getLast? with
  | some key => return (parts.dropLast, key)
  | none => refuse

/-! Values. -/

def isWordChar (c : Char) : Bool :=
  c.isAlphanum || c = '+' || c = '-' || c = '.' || c = '_' || c = ':'

/-- A word without quotes. A blank may stand between a day and a time. -/
def word : Reader (List Char) := do
  let found ← Reader.takeWhile isWordChar
  match ← get with
  | ' ' :: a :: b :: ':' :: _ =>
    if (day? found).any (·.2 = []) ∧ a.isDigit ∧ b.isDigit then
      Reader.sign ' '
      return found ++ ' ' :: (← Reader.takeWhile isWordChar)
    else return found
  | _ => return found

/-- The items of a list up to its closing bracket. A comma may stand after the last one. -/
def listRest (value : Reader Value) : Nat → Reader (List Value)
  | 0 => refuse
  | limit + 1 => do
    skipSpace
    if ← Reader.accept [']'] then return []
    let item ← value
    skipSpace
    if ← Reader.accept [','] then return item :: (← listRest value limit)
    Reader.sign ']'
    return [item]

/-- A key with its value. -/
def entry (value : Reader Value) : Reader Entry := do
  let (path, key) ← dottedKey
  skipBlanks
  Reader.sign '='
  skipBlanks
  return ⟨path, key, ← value⟩

/-- The entries of a table up to its closing brace, of which there is at least one. -/
def tableRest (value : Reader Value) : Nat → Reader (List Entry)
  | 0 => refuse
  | limit + 1 => do
    skipBlanks
    let first ← entry value
    skipBlanks
    if ← Reader.accept [','] then return first :: (← tableRest value limit)
    Reader.sign '\x7d'
    return [first]

/-- A value; `inner` reads those that lie in it, if there may be any. -/
def valueOver (inner : Option (Reader Value)) : Reader Value := do
  let rest ← get
  match rest.head?, inner with
  | some '"', _ | some '\'', _ => return .text (← anyText)
  | some '[', none | some '\x7b', none => refuse
  | some '[', some inner =>
    Reader.sign '['
    return .list (← listRest inner (rest.length + 1))
  | some '\x7b', some inner =>
    Reader.sign '\x7b'
    skipBlanks
    if ← Reader.accept ['\x7d'] then return .table []
    match tableOf (← tableRest inner (rest.length + 1)) with
    | some v => return v
    | none => refuse
  | _, _ =>
    match scalar? (← word) with
    | some v => return v
    | none => refuse

/-- A value in which others lie at most `depth` deep. -/
def valueWithin : Nat → Reader Value
  | 0 => valueOver none
  | depth + 1 => valueOver (some (valueWithin depth))

def value : Reader Value := valueWithin (depthLimit - 1)

/-! Statements. -/

/-- The key in a header and the closing brackets. -/
def header (closing : List Char) : Reader (List String × String) := do
  skipBlanks
  let found ← dottedKey
  skipBlanks
  if ← Reader.accept closing then return found else refuse

/-- The statement on a line, if there is one. -/
def statement : Reader (Option Statement) := do
  skipBlanks
  let rest ← get
  let found ← do
    match rest.head? with
    | none | some '#' | some '\n' | some '\r' => pure none
    | some '[' =>
      if ← Reader.accept ['[', '['] then
        let (path, key) ← header [']', ']']
        pure (some (Statement.openItem path key))
      else
        Reader.sign '['
        let (path, key) ← header [']']
        pure (some (Statement.openTable path key))
    | some _ => pure (some (Statement.entry (← entry value)))
  lineEnd
  return found

/-- The statements of a text. -/
def statements : Nat → Reader (List Statement)
  | 0 => refuse
  | limit + 1 => do
    if (← get).isEmpty then return []
    let found ← statement
    return found.toList ++ (← statements limit)

/-- The entries of a settings file; nothing if the text is none. A byte order mark in front does not
count. -/
def read? (text : String) : Option (List (String × Value)) :=
  let cs := match text.toList with
    | '\ufeff' :: cs => cs
    | cs => cs
  match statements (cs.length + 1) cs with
  | some (found, []) => assemble found
  | _ => none

end SharpRefactor.Toml
