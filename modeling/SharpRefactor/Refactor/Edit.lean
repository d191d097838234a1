import SharpRefactor.Refactor.Error
import SharpRefactor.Text.Diff.Unified

/-!
Edits that are ready to be made: a node, and the tree that is to take its place. An edit can be made
in the tree itself or in its text.
-/

namespace SharpRefactor

structure Edit where
  target : Handle
  replacement : SyntaxTree

namespace Edit

def replacedRange (e : Edit) : TextRange := e.target.range

def newText (e : Edit) : String := e.replacement.text

/-- The tree with the edit made, which is a version of its own; `serial` is new. Only the version
for which the edit was made can be edited. -/
def apply (e : Edit) (serial : Nat) (t : SyntaxTree) : Except RefactorError SyntaxTree :=
  match e.target.resolve t with
  | .error cause => .error (.inconsistent cause)
  | .ok n =>
    match t.replace serial ⟨t, n⟩ e.replacement with
    | .error cause => .error (.inconsistent cause)
    | .ok edited => .ok edited

/-- The same edit as a replacement in the text. -/
def toTextEdit (e : Edit) : TextEdit := ⟨e.replacedRange, e.newText⟩

/-- The comparison of the text of a tree with the text after the edit. -/
def preview (e : Edit) (t : SyntaxTree) (file : String) : Except RefactorError String :=
  match TextEdit.apply t.text [e.toTextEdit] with
  | .error cause => .error (.edit cause)
  | .ok new => .ok (Text.Diff.unified file t.text new)

/-- Whether two edits do the same in equal trees. -/
def same (d e : Edit) : Bool := d.target.same e.target && d.replacement.root == e.replacement.root

end Edit
end SharpRefactor
