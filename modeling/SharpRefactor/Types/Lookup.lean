import SharpRefactor.Types.Scope

/-!
From the spelling of a type to the type. A simple name is looked up among the type parameters, then
as a type nested in one of those around it, then outward through the namespaces, each with its
aliases and imports. An alias leads to another spelling, read outside of its own directives, so
aliases can be followed at most as often as there are namespaces.
-/

namespace SharpRefactor

/-- A way to read the target of an alias in the scope that belongs to it. -/
abbrev Expand (α : Type) := Scope → TypeSyntax → Option α

/-- The first of some namespaces that has an alias of a name: its number and the target. -/
def Scope.alias? (name : String) : List NamespaceScope → Option (Nat × TypeSyntax)
  | [] => none
  | s :: ss =>
    match s.aliases.find? (·.1 == name) with
    | some (_, target) => some (0, target)
    | none => (alias? name ss).map fun (i, target) => (i + 1, target)

namespace Table

/-- The namespace that a dotted path means. -/
def namespaceWith (t : Table) (expand : Expand String) (s : Scope) (type : TypeSyntax) :
    Option String :=
  type.path?.bind fun path =>
    let (head, rest) := Dotted.cutFirst path
    match Scope.alias? head s.namespaces with
    | some (i, target) =>
      (expand (s.forAlias i) target).bind fun aliased =>
        let full := match rest with
          | some rest => Dotted.join aliased rest
          | none => aliased
        if t.hasNamespace full then some full else none
    | none =>
      (s.namespaces.map fun space => Dotted.join space.name path).find? t.hasNamespace

/-- The type that a simple name means in one namespace, the number `i` of its scope: a type declared
there, an alias, or a type of an imported namespace. An alias decides even if its target means
nothing. -/
def lookupIn (t : Table) (expand : Expand Ty) (s : Scope) (i : Nat) (space : NamespaceScope)
    (name : String) (args : List Ty) : Option (Option Ty) :=
  match t.instance? space.name name args with
  | some type => some (some type)
  | none =>
    match if args.isEmpty then space.aliases.find? (·.1 == name) else none with
    | some (_, target) => some (expand (s.forAlias i) target)
    | none => (space.imports.findSome? fun imported => t.instance? imported name args).map some

/-- The type that a simple name means in some namespaces, the innermost of which has number `i`. -/
def lookupOutward (t : Table) (expand : Expand Ty) (s : Scope) (name : String) (args : List Ty) :
    Nat → List NamespaceScope → Option Ty
  | _, [] => none
  | i, space :: spaces =>
    match t.lookupIn expand s i space name args with
    | some found => found
    | none => lookupOutward t expand s name args (i + 1) spaces

/-- The type that a simple name with type arguments means. -/
def lookupWith (t : Table) (expand : Expand Ty) (s : Scope) (name : String) (args : List Ty) :
    Option Ty :=
  if args.isEmpty && s.typeParameters.contains name then some (.parameter name)
  else
    match s.types.findSome? fun outer => t.instance? outer.path name args with
    | some type => some type
    | none => t.lookupOutward expand s name args 0 s.namespaces

/-- The type that a name means behind a dot, given what stands before the dot as a type and as a
namespace. -/
def lookupAfter (t : Table) (container : Option Ty) (space : Option String) (name : String)
    (args : List Ty) : Option Ty :=
  match container with
  | some type => type.fullName?.bind fun path => t.instance? path name args
  | none => space.bind fun path => t.instance? path name args

end Table

mutual

/-- The type that a spelling means, aliases being followed by `expand`. -/
def TypeSyntax.resolveWith (t : Table) (expand : Expand Ty) (expandSpace : Expand String)
    (s : Scope) : TypeSyntax → Option Ty
  | .missing => none
  | .predefined keyword => keyword.bind Ty.ofKeyword?
  | .simple name => t.lookupWith expand s name []
  | .generic name args =>
    (TypeSyntax.resolveAllWith t expand expandSpace s args).bind (t.lookupWith expand s name)
  | .qualified left (.simple name) =>
    t.lookupAfter (left.resolveWith t expand expandSpace s) (t.namespaceWith expandSpace s left)
      name []
  | .qualified left (.generic name args) =>
    (TypeSyntax.resolveAllWith t expand expandSpace s args).bind
      (t.lookupAfter (left.resolveWith t expand expandSpace s)
        (t.namespaceWith expandSpace s left) name)
  | .qualified _ _ => none
  | .array element rank =>
    (element.resolveWith t expand expandSpace s).map fun type =>
      Nat.repeat Ty.array (max rank 1) type

def TypeSyntax.resolveAllWith (t : Table) (expand : Expand Ty) (expandSpace : Expand String)
    (s : Scope) : List TypeSyntax → Option (List Ty)
  | [] => some []
  | a :: as =>
    match a.resolveWith t expand expandSpace s with
    | none => none
    | some type => (TypeSyntax.resolveAllWith t expand expandSpace s as).map (type :: ·)

end

namespace Table

/-- The namespace that a spelling means, with at most `n` aliases followed one after the other. -/
def expandNamespace (t : Table) : Nat → Expand String
  | 0, _, _ => none
  | n + 1, s, type => t.namespaceWith (expandNamespace t n) s type

/-- The type that a spelling means, with at most `n` aliases followed one after the other. -/
def expandType (t : Table) : Nat → Expand Ty
  | 0, _, _ => none
  | n + 1, s, type => type.resolveWith t (expandType t n) (expandNamespace t n) s

/-- The type that a spelling means in a scope. -/
def resolve (t : Table) (s : Scope) (type : TypeSyntax) : Option Ty :=
  t.expandType (s.namespaces.length + 1) s type

/-- The type that a simple name with type arguments means in a scope. -/
def lookup (t : Table) (s : Scope) (name : String) (args : List Ty) : Option Ty :=
  t.lookupWith (t.expandType s.namespaces.length) s name args

/-- The types that spellings mean in a scope, if all of them mean something. -/
def resolveAll (t : Table) (s : Scope) (types : List TypeSyntax) : Option (List Ty) :=
  types.mapM (t.resolve s)

/-- The type that a node spells, where it stands. -/
def resolveNode (t : Table) (n : Node) : Option Ty := t.resolve (.around n) n.typeSyntax

end Table
end SharpRefactor
