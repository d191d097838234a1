import Mathlib.Data.List.Basic
import SharpRefactor.Proofs.Types.Locals

/-!
What a judge is asked on the way to an answer: what the answer is made of, which is lost with it, and
what is only tried and passed over if nothing is known of it.
-/

namespace SharpRefactor

/-- What can be asked about a node: what it denotes, or what its surroundings convert it to. -/
inductive Query where
  | meaning (n : Node)
  | target (n : Node)

namespace Judge

def answers (j : Judge) : Query → Bool
  | .meaning n => (j.denotes n).isSome
  | .target n => (j.target n).isSome

/-- Whether a second judge repeats what the first one answers. -/
def Extended (j j' : Judge) : Query → Prop
  | .meaning n => ∀ d, j.denotes n = some d → j'.denotes n = some d
  | .target n => ∀ type, j.target n = some type → j'.target n = some type

def Same (j j' : Judge) : Query → Prop
  | .meaning n => j'.denotes n = j.denotes n
  | .target n => j'.target n = j.target n

variable {j j' : Judge} {n : Node}

theorem valueType_eq_some_iff {type : Ty} :
    j.valueType n = some type ↔ j.denotes n = some (.value type) := by
  unfold valueType
  split
  · next actual denoted => simp [denoted]
  · next other => simpa using other type

theorem Extended.same {q : Query} (extended : j.Extended j' q)
    (answers : j'.answers q → j.answers q) : j.Same j' q := by
  have equal : ∀ {α : Type} {a a' : Option α}, (∀ x, a = some x → a' = some x) →
      (a'.isSome → a.isSome) → a' = a := by
    intro α a a' extended answers
    cases a with
    | some x => exact extended x rfl
    | none =>
        cases a' with
        | none => rfl
        | some x => exact nomatch answers rfl
  cases q with
  | meaning n => exact equal extended answers
  | target n => exact equal extended answers

theorem Extended.valueType (extended : j.Extended j' (.meaning n)) {type : Ty}
    (found : j.valueType n = some type) : j'.valueType n = some type :=
  valueType_eq_some_iff.mpr (extended _ (valueType_eq_some_iff.mp found))

theorem Same.valueType (same : j.Same j' (.meaning n)) : j'.valueType n = j.valueType n := by
  unfold Judge.valueType
  rw [show j'.denotes n = j.denotes n from same]

end Judge

namespace Node

def outermost (n : Node) : Node := unparenthesize n.place n.above

def initialValue? (name : String) (statement : Node) : Option Node := do
  let declaration ← statement.variables?
  let declarator ← declaration.declarators.find? (·.declares name)
  if (← declaration.declaredType?).isVar then (← declarator.initializer?).firstChild? else none

def otherArguments (argument : Node) : List Node :=
  if argument.kind == .argument then
    match argument.parent? with
    | none => []
    | some list =>
      let own := list.arguments.findIdx? (·.index == argument.index)
      (list.argumentExpressions.zipIdx.filter fun (_, k) => own != some k).map Prod.fst
  else []

def leavesOpen (function : Node) : Bool :=
  function.functionParts?.any fun (parameters, _) => parameters.any (·.declaredType?.isNone)

end Node

/-- Whether the meaning of an expression is made of that of its first part. -/
def Kind.isLedByFirst : Kind → Bool
  | .memberAccessExpression | .invocationExpression | .parenthesizedExpression
  | .assignmentExpression | .postfixUnaryExpression | .prefixUnaryExpression
  | .binaryExpression => true
  | _ => false

def Kind.isFunction : Kind → Bool
  | .simpleLambdaExpression | .parenthesizedLambdaExpression | .anonymousMethodExpression => true
  | _ => false

/-- What tells the type that a declaration gives to a name, if its own type does not. -/
def LocalDeclaration.basis? (name : String) : LocalDeclaration → Option Query
  | .variable statement => (statement.initialValue? name).map .meaning
  | .functionParameter function => if function.leavesOpen then some (.target function) else none
  | .parameter _ _ | .accessorValue _ => none

namespace Query

/-- What an answer is made of. -/
def needs : Query → List Query
  | .meaning n => if n.kind.isLedByFirst then n.firstChild?.toList.map meaning else []
  | .target n =>
    match n.outermost.parent? with
    | none => []
    | some parent =>
      match parent.kind with
      | .assignmentExpression => parent.firstChild?.toList.map meaning
      | .argument =>
        meaning n.outermost ::
          ((parent.grandparent?.bind Node.firstChild?).toList.map meaning)
      | .returnStatement | .arrowExpressionClause =>
        (parent.ancestors.filter (·.kind.isFunction)).map target
      | .simpleLambdaExpression | .parenthesizedLambdaExpression => [target parent]
      | _ => []

/-- What is tried on the way to an answer, and passed over if nothing is known of it. -/
def tries (t : Table) : Query → List Query
  | .meaning n =>
    match n.kind with
    | .identifierName | .genericName =>
      match t.simpleName? n with
      | some (name, []) =>
        (Node.localDeclarations name n.start n.ancestors.tail).filterMap (·.basis? name)
      | _ => []
    | .invocationExpression =>
      (n.argumentList?.toList.flatMap Node.argumentExpressions).map meaning
    | .binaryExpression => n.secondChild?.toList.map meaning
    | _ => []
  | .target n => ((n.outermost.parent?.map Node.otherArguments).getD []).map meaning

/-- Whether some more steps would find nothing of all that is tried in vain, here and on the way. -/
def isSettled (t : Table) (more : Nat) : Nat → Query → Bool
  | 0, _ => true
  | steps + 1, q =>
    (q.tries t).all (fun tried =>
      !(t.judge (steps + more)).answers tried || (t.judge steps).answers tried) &&
    (q.needs ++ q.tries t).all (isSettled t more steps)

variable {t : Table} {n m parent : Node}

theorem first_mem_needs (led : n.kind.isLedByFirst) (first : n.firstChild? = some m) :
    .meaning m ∈ (meaning n).needs := by
  simp [needs, led, first]

theorem basis_mem_tries {name : String} {d : LocalDeclaration} {q : Query}
    (kind : n.kind = .identifierName ∨ n.kind = .genericName)
    (named : t.simpleName? n = some (name, []))
    (declared : d ∈ Node.localDeclarations name n.start n.ancestors.tail)
    (basis : d.basis? name = some q) : q ∈ (meaning n).tries t := by
  rcases kind with kind | kind <;>
    simp only [tries, kind, named] <;>
    exact List.mem_filterMap.mpr ⟨d, declared, basis⟩

theorem other_mem_tries {list : Node} {i k : Nat} (up : n.outermost.parent? = some parent)
    (kind : parent.kind = .argument) (inside : parent.parent? = some list)
    (number : list.arguments.findIdx? (·.index == parent.index) = some i)
    (member : (m, k) ∈ list.argumentExpressions.zipIdx) (other : k ≠ i) :
    .meaning m ∈ (target n).tries t := by
  simp only [tries, up, Option.map_some, Option.getD_some, Node.otherArguments, kind, beq_self_eq_true,
    if_true, inside, number]
  refine List.mem_map_of_mem (List.mem_map.mpr ⟨(m, k), List.mem_filter.mpr ⟨member, ?_⟩, rfl⟩)
  simpa using Ne.symm other

end Query

end SharpRefactor
