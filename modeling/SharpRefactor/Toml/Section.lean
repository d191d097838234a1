import SharpRefactor.Toml.Value

/-!
Putting a file together from its statements. A header opens a table, and can do so once; on the way
to it, tables come into being that a later header may still open. Dotted keys make tables as well,
which no header can open any more.
-/

namespace SharpRefactor.Toml

/-- What has brought a table into being. -/
inductive TableOrigin where
  /-- A header of its own. -/
  | opened
  /-- The header of a table inside it. -/
  | implied
  /-- A dotted key. -/
  | dotted
  deriving DecidableEq, Repr

/-- A part of a file while it is put together. -/
inductive Section where
  | value (value : Value)
  | table (origin : TableOrigin) (entries : List (String × Section))
  /-- The tables that headers in double brackets have opened. -/
  | tables (items : List (List (String × Section)))

/-- The entries of a table while it is put together. -/
abbrev Entries := List (String × Section)

mutual

def Section.finish : Section → Value
  | .value v => v
  | .table _ es => .table (Entries.finish es)
  | .tables items => .list (Entries.finishAll items)

/-- The finished entries of a table. -/
def Entries.finish : List (String × Section) → List (String × Value)
  | [] => []
  | (key, s) :: es => (key, s.finish) :: Entries.finish es

def Entries.finishAll : List (List (String × Section)) → List Value
  | [] => []
  | es :: rest => .table (Entries.finish es) :: Entries.finishAll rest

end

namespace Entries

/-- Changes the part under a key; a part that was not there goes to the end. -/
def update (key : String) (change : Option Section → Option Section) : Entries → Option Entries
  | [] => (change none).map fun s => [(key, s)]
  | (k, s) :: es =>
    if k = key then (change (some s)).map fun s => (k, s) :: es
    else (update key change es).map ((k, s) :: ·)

/-- Changes the entries of the table at the end of a path. Tables that are not there are made for
`origin`. Dotted keys do not lead into tables with a header. `change` is told whether the table is
one that dotted keys may add to. -/
def changeAt (origin : TableOrigin) (change : Bool → Entries → Option Entries) (isOpen : Bool) :
    List String → Entries → Option Entries
  | [], es => change isOpen es
  | key :: path, es =>
    update key (fun
      | none => (changeAt origin change (origin = .dotted) path []).map (.table origin)
      | some (.value _) => none
      | some (.tables items) =>
        items.getLast?.bind fun last =>
          (changeAt origin change false path last).map fun last =>
            .tables (items.dropLast ++ [last])
      | some (.table found entries) =>
        if origin = .dotted ∧ found = .opened then none
        else (changeAt origin change (found = .dotted) path entries).map (.table found)) es

/-- Adds a value under a dotted key. No key is given twice. -/
def add (path : List String) (key : String) (v : Value) : Entries → Option Entries :=
  changeAt .dotted (fun isOpen es =>
    if isOpen ∧ (es.lookup key).isNone then some (es ++ [(key, .value v)]) else none) true path

/-- Opens a table; one that a header below it has implied moves to the end. -/
def openTable (path : List String) (key : String) : Entries → Option Entries :=
  changeAt .implied (fun _ es =>
    match es.lookup key with
    | none => some (es ++ [(key, .table .opened [])])
    | some (.table .implied entries) =>
      some (es.filter (·.1 ≠ key) ++ [(key, .table .opened entries)])
    | some _ => none) true path

/-- Opens one more table in a list of tables. -/
def openItem (path : List String) (key : String) : Entries → Option Entries :=
  changeAt .implied (fun _ es =>
    update key (fun
      | none => some (.tables [[]])
      | some (.tables items) => some (.tables (items ++ [[]]))
      | some _ => none) es) true path

end Entries

/-- The entry of a key in a list of keys and values: all keys but the last lead to a table. -/
structure Entry where
  path : List String
  key : String
  value : Value

/-- A table from the entries between two braces. -/
def tableOf (entries : List Entry) : Option Value :=
  (entries.foldlM (fun es e => Entries.add e.path e.key e.value es) []).map fun es =>
    .table (Entries.finish es)

/-- A statement of a file: a header, or an entry of the table that was opened last. -/
inductive Statement where
  | openTable (path : List String) (key : String)
  | openItem (path : List String) (key : String)
  | entry (entry : Entry)

/-- A file while it is put together: its entries, and the way to the table that is open. -/
structure Draft where
  entries : Entries
  current : List String

/-- Carries out one statement. -/
def Draft.step (d : Draft) : Statement → Option Draft
  | .openTable path key => do
    return ⟨← Entries.openTable path key d.entries, path ++ [key]⟩
  | .openItem path key => do
    return ⟨← Entries.openItem path key d.entries, path ++ [key]⟩
  | .entry e => do
    let add (_ : Bool) (es : Entries) : Option Entries := Entries.add e.path e.key e.value es
    return { d with entries := ← Entries.changeAt .implied add true d.current d.entries }

/-- The entries of a whole file. -/
def assemble (statements : List Statement) : Option (List (String × Value)) :=
  (statements.foldlM Draft.step ⟨[], []⟩).map fun d => Entries.finish d.entries

end SharpRefactor.Toml
