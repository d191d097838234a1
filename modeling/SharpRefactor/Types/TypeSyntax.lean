import SharpRefactor.Syntax.View
import SharpRefactor.Types.Dotted

/-!
What a tree says when it is read as a type, with the parts that a malformed text lacks marked
missing.
-/

namespace SharpRefactor

/-- The content of a node that spells a type. -/
inductive TypeSyntax where
  | missing
  | predefined (keyword : Option Kind)
  | simple (name : String)
  | generic (name : String) (args : List TypeSyntax)
  | qualified (left right : TypeSyntax)
  | array (element : TypeSyntax) (rank : Nat)
  deriving Repr

/-- The first token of a kind among trees side by side. -/
def Forest.tokenWhere? (p : Kind → Bool) (ts : Forest) : Option Token :=
  (ts.filterMap Tree.token?).find? (p ·.kind)

/-- The name that the first identifier among trees side by side spells. -/
def Forest.nameText (ts : Forest) : String :=
  ((Forest.tokenWhere? (· == .identifier) ts).map fun t => Node.plainName t.text).getD ""

mutual

/-- A tree read as a type; `missing` if it is none. -/
def Tree.typeSyntax : Tree → TypeSyntax
  | .leaf _ => .missing
  | .node k ts =>
    match k with
    | .predefinedType => .predefined ((Forest.tokenWhere? Kind.isPredefinedType ts).map Token.kind)
    | .identifierName => .simple (Forest.nameText ts)
    | .genericName => .generic (Forest.nameText ts) (Forest.argumentSyntax ts)
    | .qualifiedName =>
      match Forest.typeSyntax ts with
      | l :: r :: _ => .qualified l r
      | [l] => .qualified l .missing
      | [] => .qualified .missing .missing
    | .arrayType =>
      .array ((Forest.typeSyntax ts).head?.getD .missing)
        (ts.countP fun t => t.isNode && t.kind == .arrayRankSpecifier)
    | _ => .missing

/-- The types among trees side by side. -/
def Forest.typeSyntax : Forest → List TypeSyntax
  | [] => []
  | t :: ts =>
    if t.isNode && t.kind.isType then t.typeSyntax :: Forest.typeSyntax ts
    else Forest.typeSyntax ts

/-- The types in the first type argument list among trees side by side. -/
def Forest.argumentSyntax : Forest → List TypeSyntax
  | [] => []
  | .node k us :: ts =>
    if k = .typeArgumentList then Forest.typeSyntax us else Forest.argumentSyntax ts
  | .leaf _ :: ts => Forest.argumentSyntax ts

end

namespace TypeSyntax

/-- The dotted spelling of a name without type arguments. -/
def path? : TypeSyntax → Option String
  | .simple name => some name
  | .qualified left right => do return s!"{← left.path?}.{← right.path?}"
  | _ => none

/-- Whether the type of a variable is left to its value. -/
def isVar : TypeSyntax → Bool
  | .simple name => name == "var"
  | _ => false

end TypeSyntax

namespace Node

/-- A node read as a type. -/
def typeSyntax (n : Node) : TypeSyntax := n.tree.typeSyntax

/-- The type that a declaration or directive names. -/
def declaredType? (n : Node) : Option TypeSyntax := n.typeChild?.map typeSyntax

end Node
end SharpRefactor
