import SharpRefactor.Syntax.Node
import SharpRefactor.Text.Quoted

/-!
The listing of a tree, one element a line: a node with its range, a token with its quoted text, each
indented by its depth.
-/

namespace SharpRefactor

mutual

/-- The lines of a tree that begins at `start`, indented by `indent` blanks. -/
def Tree.dumpAt (indent start : Nat) : Tree → String
  | .leaf t => String.ofList (List.replicate indent ' ') ++ s!"{t.kind.name} {Text.quote t.text}\n"
  | .node k ts =>
    String.ofList (List.replicate indent ' ') ++
      s!"{k.name}@{(TextRange.ofSize start (Forest.size ts)).describe}\n" ++
      Forest.dumpAt (indent + 2) start ts

def Forest.dumpAt (indent start : Nat) : Forest → String
  | [] => ""
  | t :: ts => t.dumpAt indent start ++ Forest.dumpAt indent (start + t.size) ts

end

/-- The listing of a tree. -/
def Tree.dump (t : Tree) : String := t.dumpAt 0 0

end SharpRefactor
