import SharpRefactor.Types.Definition

/-!
A type with all its bases, breadth first, each definition once. Types may grow along a cycle of
bases, but their keys repeat, so the walk visits no more types than the table has bases. What the
bases declare is found in this order; the common base of all types comes last unless a type names
it.
-/

namespace SharpRefactor.Table

/-- A definition with what its type parameters stand for. -/
abbrev Ancestor := TypeDef × Bindings

/-- Visits the types in a queue and then their bases, at most `n` in all; the keys in `seen` are
done.
-/
def visit (t : Table) : Nat → List Ty → List TypeKey → List Ancestor
  | 0, _, _ => []
  | _ + 1, [], _ => []
  | n + 1, type :: queue, seen =>
    match TypeKey.of? type with
    | none => visit t n queue seen
    | some k =>
      if seen.contains k then visit t n queue seen
      else match t.find? k with
        | none => visit t n queue (k :: seen)
        | some d =>
          let b := d.bind type
          (d, b) :: visit t n (queue ++ d.contents.bases.map (Ty.substitute b)) (k :: seen)

/-- How many bases the definitions of a table name. -/
def baseCount (t : Table) : Nat := (t.defs.flatMap (·.contents.bases)).length

/-- The definition of a type and those of its bases, then that of the common base. -/
def hierarchy (t : Table) (type : Ty) : List Ancestor :=
  let found := t.visit (t.baseCount + 1) [type] []
  if found.any (·.1.key == TypeKey.object) then found
  else found ++ (t.find? TypeKey.object).toList.map (·, [])

/-- Whether a member is of the asked sort: static, of an instance, or either. -/
def matchesStatic (static : Option Bool) (isStatic : Bool) : Bool := static.all (· == isStatic)

/-- The type of the value that a name stands for in a type or its bases. In each definition only the
first member of that name counts. -/
def memberType? (t : Table) (type : Ty) (name : String) (static : Option Bool) : Option Ty :=
  match type with
  | .array _ =>
    if name = "Length" ∧ static ≠ some true then some .int else search type
  | _ => search type
where
  search (type : Ty) : Option Ty :=
    (t.hierarchy type).findSome? fun (d, b) =>
      ((d.member? name).filter (matchesStatic static ·.isStatic)).map (·.type.substitute b)

/-- A method with what the type parameters of its type stand for. -/
structure Candidate where
  method : MethodDef
  receiver : Bindings

/-- The methods of a name in a type and its bases. -/
def methods (t : Table) (type : Ty) (name : String) (static : Option Bool) : List Candidate :=
  (t.hierarchy type).flatMap fun (d, b) =>
    ((d.methodsNamed name).filter (matchesStatic static ·.isStatic)).map (⟨·, b⟩)

/-- Whether values of a type are references. -/
def isReference (t : Table) (type : Ty) : Bool :=
  match type with
  | .array _ => true
  | .named .. => ((TypeKey.of? type).bind t.find?).any (·.form != .structForm)
  | _ => false

/-- How values of a type are called, if the type is a delegate. -/
def signatureOf? (t : Table) (type : Ty) : Option Signature := do
  let d ← t.find? (← TypeKey.of? type)
  if d.form ≠ .delegateForm then none
  return (← d.contents.invoke).substitute (d.bind type)

end SharpRefactor.Table
