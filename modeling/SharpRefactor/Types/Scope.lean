import SharpRefactor.Types.Definition
import SharpRefactor.Types.TypeSyntax

/-!
What is visible at a node: the namespaces around it with their directives, the types it is nested
in, and the type parameters that have been introduced. Namespaces in one header with dots and
namespaces nested in one another come to the same chain; the directives of a header belong to its
last name.
-/

namespace SharpRefactor

/-- A namespace around a node, with the directives that stand in it. -/
structure NamespaceScope where
  /-- The full dotted name; empty for the global namespace. -/
  name : String
  imports : List String
  aliases : List (String × TypeSyntax)
  deriving Repr

namespace NamespaceScope

/-- A namespace without directives. -/
def bare (name : String) : NamespaceScope := ⟨name, [], []⟩

/-- Adds a directive: an alias for its target, or the import of a namespace. -/
def direct (s : NamespaceScope) (directive : Node) : NamespaceScope :=
  match directive.declaredType? with
  | none => s
  | some target =>
    match directive.alias? with
    | some name => { s with aliases := s.aliases ++ [(name.nameText, target)] }
    | none => { s with imports := s.imports ++ target.path?.toList }

/-- A namespace with the directives among the children of a node. -/
def withUsings (name : String) (n : Node) : NamespaceScope := n.usings.foldl direct (bare name)

end NamespaceScope

/-- What is visible at a place in a text. -/
structure Scope where
  /-- The namespaces, the innermost first and the global one last. -/
  namespaces : List NamespaceScope
  /-- The types around the place, the innermost first. -/
  types : List TypeKey
  typeParameters : List String
  deriving Repr

namespace Scope

/-- The name of the innermost of some namespaces. -/
def innermost (spaces : List NamespaceScope) : String := (spaces.head?.map (·.name)).getD ""

/-- Enters the namespaces that a header names, one inside the other; the directives go with the last
one. -/
def enterAll (header : Node) : List String → List NamespaceScope → List NamespaceScope
  | [], spaces => spaces
  | [p], spaces => .withUsings (Dotted.join (innermost spaces) p) header :: spaces
  | p :: q :: ps, spaces =>
    enterAll header (q :: ps) (.bare (Dotted.join (innermost spaces) p) :: spaces)

/-- The dotted name of a namespace declaration; a name of another form counts as none. -/
def headerPath (header : Node) : String := (header.declaredType?.bind TypeSyntax.path?).getD ""

/-- Enters the namespaces of a declaration. -/
def enter (spaces : List NamespaceScope) (header : Node) : List NamespaceScope :=
  enterAll header (Dotted.segments (headerPath header)) spaces

/-- The global namespace with the directives of the file. -/
def global (n : Node) : NamespaceScope :=
  match (n.ancestors.filter (·.kind == .compilationUnit)).getLast? with
  | some unit => .withUsings "" unit
  | none => .bare ""

/-- The namespaces around a node; a namespace is around itself. -/
def namespacesAt (n : Node) : List NamespaceScope :=
  ((n.ancestors.filter (·.kind == .namespaceDeclaration)).reverse).foldl enter [global n]

/-- The full name of the namespace that a node stands in. -/
def namespaceAt (n : Node) : String := innermost (namespacesAt n)

end Scope

namespace Node

/-- The form of the type that a node declares, if it declares one. -/
def declaredForm? (n : Node) : Option TypeForm :=
  match n.kind with
  | .classDeclaration => some .classForm
  | .structDeclaration => some .structForm
  | .interfaceDeclaration => some .interfaceForm
  | .delegateDeclaration => some .delegateForm
  | _ => none

/-- The key of a declared type, given the key of the type it is nested in: `none` if it is not
nested, `some none` if that type has no key. -/
def keyIn (outer : Option (Option TypeKey)) (n : Node) : Option TypeKey :=
  n.declaredName?.bind fun name =>
    let key (space : String) : TypeKey := ⟨space, plainName name.text, n.typeParameterNames.length⟩
    match outer with
    | none => some (key (Scope.namespaceAt n))
    | some none => none
    | some (some k) => some (key k.path)

/-- The key of the innermost type with members among some places, the innermost first. -/
def enclosingKey : List Place → Option (Option TypeKey)
  | [] => none
  | p :: ps =>
    if p.kind.isTypeDeclaration then some (keyIn (enclosingKey ps) ⟨p, ps⟩) else enclosingKey ps

/-- The key of the type that a node declares: nested types stand under the path of the outer one,
other types under their namespace. -/
def typeKey? (n : Node) : Option TypeKey := keyIn (enclosingKey n.above) n

/-- Whether a node introduces type parameters for what is inside it. -/
def introducesTypeParameters (n : Node) : Bool :=
  n.kind.isTypeDeclaration || n.kind == .delegateDeclaration || n.kind == .methodDeclaration

end Node

namespace Scope

/-- What is visible at a node. -/
def around (n : Node) : Scope where
  namespaces := namespacesAt n
  types := (n.ancestors.filter (·.kind.isTypeDeclaration)).filterMap Node.typeKey?
  typeParameters :=
    (n.ancestors.filter Node.introducesTypeParameters).flatMap Node.typeParameterNames

/-- What the target of an alias in the namespace number `i` is read in: that namespace without its
directives, and those around it. -/
def forAlias (s : Scope) (i : Nat) : Scope where
  namespaces :=
    match s.namespaces.drop i with
    | [] => []
    | space :: rest => .bare space.name :: rest
  types := []
  typeParameters := []

end Scope
end SharpRefactor
