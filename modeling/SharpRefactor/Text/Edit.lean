import SharpRefactor.Text.Bytes
import SharpRefactor.Text.Range

/-!
Edits of a text: each replaces a range of one and the same snapshot. A list of edits is put in
order, checked against the text and against itself, and joined where edits touch; then it is carried
out from the end of the text backwards, so that no edit moves the range of another.
-/

namespace SharpRefactor

/-- The replacement of a range of a text. -/
structure TextEdit where
  range : TextRange
  replacement : String
  deriving DecidableEq

/-- Why edits cannot be carried out on a text. -/
inductive EditError where
  | outOfBounds (range : TextRange) (length : Nat)
  | splitCharacter (offset : Nat)
  | overlapping (first second : TextRange)
  deriving DecidableEq

def EditError.message : EditError → String
  | .outOfBounds range length =>
    s!"edit range {range.describe} is out of bounds for text length {length}"
  | .splitCharacter offset => s!"offset {offset} is not a UTF-8 character boundary"
  | .overlapping first second =>
    s!"overlapping edits: {first.describe} overlaps {second.describe}"

namespace TextEdit

/-- The order of edits: by start, then by end. -/
def precedes (a b : TextEdit) : Bool :=
  a.range.start < b.range.start ||
    (a.range.start == b.range.start && a.range.stop ≤ b.range.stop)

/-- Edits in the order of their ranges; edits of one range keep the order they were given in. -/
def sort (edits : List TextEdit) : List TextEdit := edits.mergeSort precedes

/-- What is wrong with the range of an edit. -/
def misplaced? (text : List Char) (e : TextEdit) : Option EditError :=
  if Text.byteLength text < e.range.stop then some (.outOfBounds e.range (Text.byteLength text))
  else if !Text.isBoundary text e.range.start then some (.splitCharacter e.range.start)
  else if !Text.isBoundary text e.range.stop then some (.splitCharacter e.range.stop)
  else none

/-- Whether two edits, the first of which precedes the second, want the same part of the text. -/
def clash (a b : TextEdit) : Bool :=
  b.range.start < a.range.stop ||
    (a.range.isEmpty && b.range.isEmpty && a.range.start == b.range.start)

/-- The first two neighbours that clash. -/
def clash? : List TextEdit → Option EditError
  | a :: b :: es => if a.clash b then some (.overlapping a.range b.range) else clash? (b :: es)
  | _ => none

/-- Joins an edit with those after it that begin where it ends. -/
def join : TextEdit → List TextEdit → List TextEdit
  | a, [] => [a]
  | a, b :: es =>
    if h : a.range.stop = b.range.start then
      join ⟨⟨a.range.start, b.range.stop, by
        have := a.range.start_le_stop; have := b.range.start_le_stop; omega⟩,
        a.replacement ++ b.replacement⟩ es
    else a :: join b es

/-- Joins edits that touch. -/
def merge : List TextEdit → List TextEdit
  | [] => []
  | e :: es => join e es

/-- What is wrong with edits in order: misplaced ranges first, then clashes. -/
def fault? (text : List Char) (sorted : List TextEdit) : Option EditError :=
  (sorted.findSome? (misplaced? text)).or (clash? sorted)

/-- The edits in order, checked, and joined where they touch. -/
def normalize (text : String) (edits : List TextEdit) : Except EditError (List TextEdit) :=
  match fault? text.toList (sort edits) with
  | some e => .error e
  | none => .ok (merge (sort edits))

/-- Carries out edits that stand in order, the last one first. -/
def perform (text : List Char) (sorted : List TextEdit) : List Char :=
  sorted.foldr
    (fun e cs => Text.replaceBytes cs e.range.start e.range.stop e.replacement.toList) text

/-- The text after edits. -/
def apply (text : String) (edits : List TextEdit) : Except EditError String :=
  (normalize text edits).map fun sorted => String.ofList (perform text.toList sorted)

end TextEdit
end SharpRefactor
