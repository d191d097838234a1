import SharpRefactor.Types.Bindings

/-!
Definitions of types, and the table of all that are known. A definition is found by its key: the
path of what declares it, its name, and the number of its type parameters.
-/

namespace SharpRefactor

/-- What tells one type definition from another. -/
structure TypeKey where
  space : String
  name : String
  arity : Nat
  deriving DecidableEq, Repr

namespace TypeKey

/-- The key of a named type. -/
def of? : Ty → Option TypeKey
  | .named space name args => some ⟨space, name, args.length⟩
  | _ => none

/-- The type with this key and some arguments. -/
def instantiate (k : TypeKey) (args : List Ty) : Ty := .named k.space k.name args

/-- The path under which types nested in this one stand. -/
def path (k : TypeKey) : String := Dotted.join k.space k.name

/-- The type that every other one derives from. -/
def object : TypeKey := ⟨"System", "Object", 0⟩

end TypeKey

inductive TypeForm where
  | classForm | structForm | interfaceForm | delegateForm
  deriving DecidableEq, Repr

inductive MemberForm where
  | field | property | event
  deriving DecidableEq, Repr

structure MethodDef where
  name : String
  typeParameters : List String
  parameters : List Parameter
  returns : Ty
  isStatic : Bool
  deriving DecidableEq, Repr

/-- A member that has a value. -/
structure MemberDef where
  name : String
  type : Ty
  form : MemberForm
  isStatic : Bool
  deriving DecidableEq, Repr

/-- What a declaration says about a type. -/
structure TypeContents where
  bases : List Ty
  methods : List MethodDef
  /-- The parameters of each constructor. -/
  constructors : List (List Parameter)
  members : List MemberDef
  /-- How the type is called, if it is a delegate. -/
  invoke : Option Signature
  deriving DecidableEq, Repr

namespace TypeContents

def empty : TypeContents := ⟨[], [], [], [], none⟩

/-- What two declarations of one type say together. -/
def append (a b : TypeContents) : TypeContents :=
  ⟨a.bases ++ b.bases, a.methods ++ b.methods, a.constructors ++ b.constructors,
    a.members ++ b.members, b.invoke.or a.invoke⟩

end TypeContents

structure TypeDef where
  key : TypeKey
  form : TypeForm
  typeParameters : List String
  contents : TypeContents
  deriving DecidableEq, Repr

namespace TypeDef

/-- The type as its own declaration sees it. -/
def selfType (d : TypeDef) : Ty := d.key.instantiate (d.typeParameters.map .parameter)

/-- The type parameters of a definition bound to the arguments of a type. -/
def bind (d : TypeDef) (t : Ty) : Bindings := (d.typeParameters.zip t.args).reverse

def member? (d : TypeDef) (name : String) : Option MemberDef :=
  d.contents.members.find? (·.name == name)

def methodsNamed (d : TypeDef) (name : String) : List MethodDef :=
  d.contents.methods.filter (·.name == name)

end TypeDef

/-- The known type definitions, at most one for each key, and the known namespaces. -/
structure Table where
  defs : List TypeDef
  namespaces : List String

namespace Table

def find? (t : Table) (k : TypeKey) : Option TypeDef := t.defs.find? (·.key == k)

def has (t : Table) (k : TypeKey) : Bool := t.defs.any (·.key == k)

def hasNamespace (t : Table) (space : String) : Bool := t.namespaces.contains space

/-- Adds a namespace with all that enclose it. -/
def addNamespace (t : Table) (space : String) : Table :=
  { t with namespaces := t.namespaces ++ (Dotted.ways space).filter (!t.namespaces.contains ·) }

/-- Adds a definition without contents, unless there is one with its key. -/
def declare (t : Table) (k : TypeKey) (form : TypeForm) (typeParameters : List String) : Table :=
  if t.has k then t else { t with defs := t.defs ++ [⟨k, form, typeParameters, .empty⟩] }

/-- Adds to the contents of the definition with a key. -/
def extend (t : Table) (k : TypeKey) (contents : TypeContents) : Table :=
  { t with
    defs := t.defs.map fun d =>
      if d.key = k then { d with contents := d.contents.append contents } else d }

/-- The type of a key with some arguments, if it is defined. -/
def instance? (t : Table) (space name : String) (args : List Ty) : Option Ty :=
  let k : TypeKey := ⟨space, name, args.length⟩
  if t.has k then some (k.instantiate args) else none

end Table
end SharpRefactor
