import SharpRefactor.Refactor.Rule
import SharpRefactor.Syntax.Factory
import SharpRefactor.Syntax.Parse

/-!
Anonymous methods that call a target: `delegate(T x) { return target(x); }`, or without `return` if
nothing is returned. The parameters have the names and types of a signature, the types in their
shortest spelling at the target.
-/

namespace SharpRefactor.AnonymousMethod

/-- The call of a target with the parameters of a signature. -/
def call (s : Signature) (target : Tree) : Tree :=
  Factory.invocation target
    (Factory.argumentList (s.parameters.map fun p => Factory.identifierName p.name))

/-- The only statement in the body. -/
def statement (s : Signature) (target : Tree) : Tree :=
  if s.returnsVoid then Factory.expressionStatement (call s target)
  else Factory.returnStatement (call s target)

/-- A parameter whose type has a spelling. -/
def parameter (p : Parameter) : Except Surrounded String → Except RefactorError Tree
  | .error e => .error (.surroundedType e.spelling)
  | .ok text =>
    match parseTypeName text with
    | .ok type => .ok (Factory.parameter type p.name)
    | .error .surrounded => .error (.surroundedType text)
    | .error (.malformed _) => .error (.invalidType text)

/-- The parameters, each spelled before the next one; the first that cannot be written counts. -/
def parameters (r : Resolver) (offset : Nat) : List Parameter → Asking (Except RefactorError Forest)
  | [] => return .ok []
  | p :: ps => do
    match parameter p (← r.askDisplay p.type offset) with
    | .error e => return .error e
    | .ok tree =>
      match ← parameters r offset ps with
      | .error e => return .error e
      | .ok trees => return .ok (tree :: trees)

/-- The parameter list, none for no parameters. -/
def parameterList? (parameters : Forest) : Option Tree :=
  if parameters.isEmpty then none else some (Factory.parameterList parameters)

/-- The anonymous method from its parts. -/
def assemble (s : Signature) (target : Tree) (parameters : Forest) : Tree :=
  Factory.anonymousMethod (parameterList? parameters) (Factory.block [statement s target])

/-- The way from the anonymous method to the target in it: through the block, the statement and the
call. -/
def targetPath (s : Signature) : List Nat :=
  [if s.parameters.isEmpty then 2 else 3, 2, if s.returnsVoid then 0 else 2, 0]

/-- An anonymous method that calls a target. -/
def build (s : Signature) (target : Handle) (r : Resolver) :
    Asking (Except RefactorError Replacement) := do
  match ← parameters r target.range.start s.parameters with
  | .error e => return .error e
  | .ok trees => return .ok ⟨assemble s target.node.tree trees, some (targetPath s)⟩

end SharpRefactor.AnonymousMethod
