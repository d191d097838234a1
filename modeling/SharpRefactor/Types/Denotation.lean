import SharpRefactor.Types.Hierarchy

/-!
What an expression can denote, and the choice among the methods of a group.
-/

namespace SharpRefactor

/-- Methods of one name, with the type arguments they were named with. -/
structure MethodGroup where
  candidates : List Table.Candidate
  typeArguments : List Ty

/-- What an expression denotes. -/
inductive Denotation where
  | value (type : Ty)
  | type (type : Ty)
  | space (name : String)
  | methods (group : MethodGroup)
  | function

namespace Table.Candidate

/-- What the type parameters of a method and of its type stand for: given by type arguments, or else
learnt from pairs of declared and actual types. -/
def bindings? (c : Candidate) (explicit : List Ty) (observed : List (Ty × Ty)) :
    Option Bindings :=
  if explicit.isEmpty then
    some (observed.foldl
      (fun b (declared, actual) =>
        (declared.substitute c.receiver).unify c.method.typeParameters actual b) [] ++ c.receiver)
  else if explicit.length = c.method.typeParameters.length then
    some ((c.method.typeParameters.zip explicit).reverse ++ c.receiver)
  else none

/-- Whether a method takes a number of arguments. -/
def takes (c : Candidate) (n : Nat) : Bool := c.method.parameters.length == n

end Table.Candidate

namespace MethodGroup

/-- The candidates for a call with arguments of these types, as far as they are known, each with its
bindings. -/
def applicable (g : MethodGroup) (arguments : List (Option Ty)) :
    List (MethodDef × Bindings) :=
  (g.candidates.filter (·.takes arguments.length)).filterMap fun c =>
    let observed := (c.method.parameters.zip arguments).filterMap fun (p, actual) =>
      actual.map (p.type, ·)
    (c.bindings? g.typeArguments observed).map (c.method, ·)

/-- Whether a method accepts arguments of these types as they are; an object parameter accepts all.
-/
def accepts (arguments : List (Option Ty)) (m : MethodDef × Bindings) : Bool :=
  (m.1.parameters.zip arguments).all fun (p, actual) =>
    actual.all fun type =>
      let expected := p.type.substitute m.2
      expected == type || expected == .object

/-- The method that a call means: the first that accepts the arguments, or else the first that takes
as many. -/
def pick? (g : MethodGroup) (arguments : List (Option Ty)) : Option (MethodDef × Bindings) :=
  let found := g.applicable arguments
  (found.find? (accepts arguments)).or found.head?

end MethodGroup

namespace Table

/-- Whether a method that returns one type can stand for a delegate that returns another. -/
def returnFits (t : Table) (method delegate : Ty) : Bool :=
  method == delegate || (!method.isVoid && delegate == .object && t.isReference method)

/-- Whether a method can stand for a delegate with a signature: it takes exactly the same types and
returns one that fits. -/
def candidateConverts (t : Table) (g : MethodGroup) (s : Signature) (c : Candidate) : Bool :=
  c.takes s.parameters.length &&
    let pairs := c.method.parameters.zip s.parameters
    let observed := pairs.map (fun (p, q) => (p.type, q.type)) ++ [(c.method.returns, s.returns)]
    (c.bindings? g.typeArguments observed).any fun b =>
      pairs.all (fun (p, q) => p.type.substitute b == q.type) &&
        t.returnFits (c.method.returns.substitute b) s.returns

def groupConverts (t : Table) (g : MethodGroup) (s : Signature) : Bool :=
  g.candidates.any (t.candidateConverts g s)

/-- Whether what an expression denotes can be converted to a type. -/
def converts (t : Table) (d : Denotation) (target : Ty) : Bool :=
  match d with
  | .methods g => (t.signatureOf? target).any (t.groupConverts g)
  | .function => (t.signatureOf? target).isSome
  | .value type => type == target
  | .type _ | .space _ => false

/-- What a member name denotes behind a value or a type. -/
def memberOf (t : Table) (type : Ty) (name : String) (typeArguments : List Ty)
    (static : Option Bool) : Option Denotation :=
  match if typeArguments.isEmpty then t.memberType? type name static else none with
  | some member => some (.value member)
  | none =>
    match t.methods type name static with
    | [] => none
    | candidates => some (.methods ⟨candidates, typeArguments⟩)

end Table
end SharpRefactor
