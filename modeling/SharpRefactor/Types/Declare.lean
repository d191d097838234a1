import SharpRefactor.Types.Library
import SharpRefactor.Types.Lookup

/-!
The table of a file. First every declared type and namespace is entered under its name; then, with
all names known, the contents of each declaration are read, so that the order of declarations does
not matter.
-/

namespace SharpRefactor
namespace Node

def hasModifier (n : Node) (modifier : Kind) : Bool := (n.tokenOf? modifier).isSome

def isStatic (n : Node) : Bool := n.hasModifier .staticKw

/-- The declared name without the sign that keeps it from being a keyword. -/
def declaredWord? (n : Node) : Option String :=
  n.declaredName?.map fun token => plainName token.text

end Node

namespace Table

/-- The parameters in a parameter list, if the types of all are known. -/
def parameters? (t : Table) (s : Scope) (list : Node) : Option (List Parameter) :=
  list.parameters.mapM fun p => do
    let type ← t.resolve s (← p.declaredType?)
    return ⟨← p.declaredWord?, type⟩

/-- The type and the parameters of a callable declaration, if all are known. -/
def signature? (t : Table) (s : Scope) (n : Node) : Option Signature := do
  let returns ← t.resolve s (← n.declaredType?)
  let parameters ← t.parameters? s (← n.parameterList?)
  return ⟨parameters, returns⟩

/-- A declared method; one with an unknown type in it is left out. -/
def method? (t : Table) (n : Node) : Option MethodDef := do
  let name ← n.declaredWord?
  let signature ← t.signature? (.around n) n
  return ⟨name, n.typeParameterNames, signature.parameters, signature.returns, n.isStatic⟩

/-- The variables of a field or event declaration. -/
def variableMembers (t : Table) (s : Scope) (form : MemberForm) (n : Node) : List MemberDef :=
  match n.variables? with
  | none => []
  | some declaration =>
    match declaration.declaredType?.bind (t.resolve s) with
    | none => []
    | some type =>
      declaration.declarators.filterMap fun d =>
        d.declaredWord?.map fun name => ⟨name, type, form, n.isStatic⟩

/-- A declared property, or an event with accessors. -/
def property? (t : Table) (s : Scope) (form : MemberForm) (n : Node) : Option MemberDef := do
  let type ← n.declaredType?
  let name ← n.declaredWord?
  return ⟨name, ← t.resolve s type, form, n.isStatic⟩

/-- What the declaration of a type with members says. -/
def membersOf (t : Table) (n : Node) : TypeContents :=
  let s := Scope.around n
  { bases := ((n.childOf? .baseList).map fun list =>
      list.typeChildren.filterMap fun b => t.resolve s b.typeSyntax).getD []
    methods := (n.childrenOf .methodDeclaration).filterMap t.method?
    constructors := (n.childrenOf .constructorDeclaration).filterMap fun c =>
      c.parameterList?.bind (t.parameters? s)
    members :=
      (n.childrenOf .fieldDeclaration).flatMap (t.variableMembers s .field) ++
        (n.childrenOf .eventFieldDeclaration).flatMap (t.variableMembers s .event) ++
        (n.childrenOf .propertyDeclaration).filterMap (t.property? s .property) ++
        (n.childrenOf .eventDeclaration).filterMap (t.property? s .event)
    invoke := none }

/-- What a declaration says about its type. -/
def contentsOf (t : Table) (n : Node) : TypeContents :=
  if n.kind = .delegateDeclaration then
    { TypeContents.empty with invoke := t.signature? (.around n) n }
  else t.membersOf n

/-- Enters the name that a node declares. -/
def enter (t : Table) (n : Node) : Table :=
  if n.kind = .namespaceDeclaration then t.addNamespace (Scope.namespaceAt n)
  else match n.declaredForm?, n.typeKey? with
    | some form, some k => t.declare k form n.typeParameterNames
    | _, _ => t

/-- The type declarations among some nodes, with their keys. -/
def declarations (nodes : List Node) : List (Node × TypeKey) :=
  nodes.filterMap fun n => n.declaredForm?.bind fun _ => n.typeKey?.map (n, ·)

/-- The names that a file declares, together with the known ones. -/
def names (root : Node) : Table := root.descendants.foldl enter Library.table

/-- The table of a file. -/
def ofRoot (root : Node) : Table :=
  let known := names root
  (declarations root.descendants).foldl (fun t (n, k) => t.extend k (known.contentsOf n)) known

end Table
end SharpRefactor
