import SharpRefactor.Syntax.Version
import SharpRefactor.Types.Evaluate
import SharpRefactor.Types.Spelling

/-!
The semantic questions that a refactoring may ask, and their answers from the source of one version.
-/

namespace SharpRefactor

/-- Answers to questions about the types in a text. -/
structure Resolver where
  /-- The type of a node, converted as its surroundings ask. -/
  typeOf : Handle → Option Ty
  /-- How values of a type are called. -/
  signatureOf : Ty → Option Signature
  /-- A spelling of a type at an offset. -/
  display : Ty → Nat → Except Surrounded String

namespace Resolver

/-- The spelling that holds everywhere. -/
def displayInFull (type : Ty) (_ : Nat) : Except Surrounded String := .ok type.describe

/-- A resolver that knows nothing and writes types out in full. -/
def qualified : Resolver := ⟨fun _ => none, fun _ => none, displayInFull⟩

/-- The scope at an offset; beyond the end of the text, that of the root. -/
def scopeAt (tree : SyntaxTree) (offset : Nat) : Scope :=
  .around ((tree.nodeAt offset).toOption.getD tree.rootNode)

/-- Answers from the declarations in one version and the known library. A node of another version
has no type. -/
def ofTree (tree : SyntaxTree) : Resolver :=
  let table := Table.ofRoot tree.rootNode
  { typeOf := fun h => if tree.contains h then table.typeOf? h.node else none
    signatureOf := table.signatureOf?
    display := fun type offset => table.spell (scopeAt tree offset) type }

end Resolver
end SharpRefactor
