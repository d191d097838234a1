import SharpRefactor.Text.Bytes
import SharpRefactor.Text.Range

/-!
Example texts with a selection written into them: a caret mark stands for an empty selection, a
start and an end mark enclose a longer one. Reading such a text takes the marks out.
-/

namespace SharpRefactor.Marker

/-- What is wrong with the marks of an example. -/
inductive MarkerError where
  | missing (mark : String)
  | repeated (mark : String)
  /-- The end mark does not come after the start mark. -/
  | disordered
  deriving DecidableEq, Repr

def caret : String := "/*caret*/"

def first : String := "/*start*/"

def last : String := "/*end*/"

def MarkerError.message : MarkerError → String
  | .missing mark => s!"fixture missing {mark} marker"
  | .repeated mark => s!"fixture contains more than one {mark} marker"
  | .disordered => s!"{last} must come after {first}"

/-- The number of characters in front of the first occurrence of a mark. -/
def find? (mark : List Char) : List Char → Option Nat
  | [] => if mark = [] then some 0 else none
  | c :: cs => if mark.isPrefixOf (c :: cs) then some 0 else (find? mark cs).map (· + 1)

/-- The number of characters in front of a mark that has to be there. -/
def locate (mark : String) (text : List Char) : Except MarkerError Nat :=
  match find? mark.toList text with
  | some i => .ok i
  | none => .error (.missing mark)

/-- An example with exactly one caret mark, and the empty selection at it. -/
def readCaret (text : List Char) : Except MarkerError (List Char × TextRange) := do
  let i ← locate caret text
  let rest := text.drop (i + caret.length)
  if (find? caret.toList rest).isSome then throw (.repeated caret)
  return (text.take i ++ rest, .empty (Text.byteLength (text.take i)))

/-- An example with a start and an end mark, and the selection between them. -/
def readRange (text : List Char) : Except MarkerError (List Char × TextRange) := do
  let i ← locate first text
  let inside := i + first.length
  let j ← locate last text
  if j < inside then throw .disordered
  let selected := (text.drop inside).take (j - inside)
  return (text.take i ++ selected ++ text.drop (j + last.length),
    .ofSize (Text.byteLength (text.take i)) (Text.byteLength selected))

/-- An example with either kind of marks; a caret mark counts first. -/
def readSelection (text : List Char) : Except MarkerError (List Char × TextRange) :=
  if (find? caret.toList text).isSome then readCaret text else readRange text

end SharpRefactor.Marker
