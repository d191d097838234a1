/-!
Dotted paths, the names of namespaces and of what is declared in them.
-/

namespace SharpRefactor.Dotted

/-- A name inside a namespace; the global namespace has the empty name. -/
def join (space name : String) : String := if space = "" then name else s!"{space}.{name}"

/-- The pieces of a text between its dots. -/
def pieces : List Char → List (List Char)
  | [] => [[]]
  | c :: cs =>
    if c = '.' then [] :: pieces cs
    else match pieces cs with
      | [] => [[c]]
      | p :: ps => (c :: p) :: ps

/-- The names in a path, empty ones left out. -/
def segments (path : String) : List String :=
  ((pieces path.toList).filter (!·.isEmpty)).map String.ofList

/-- A path from its segments. -/
def ofSegments (names : List String) : String := String.intercalate "." names

/-- Every path on the way to a path, the shortest first. -/
def ways (path : String) : List String :=
  let names := segments path
  (List.range names.length).map fun i => ofSegments (names.take (i + 1))

/-- The text before the first dot and what comes after it. -/
def cutFirst (path : String) : String × Option String :=
  let cs := path.toList
  match cs.dropWhile (· ≠ '.') with
  | [] => (path, none)
  | _ :: rest => (String.ofList (cs.takeWhile (· ≠ '.')), some (String.ofList rest))

end SharpRefactor.Dotted
