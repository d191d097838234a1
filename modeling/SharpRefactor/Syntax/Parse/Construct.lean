/-!
The grammatical constructs that can contain themselves. A rule of the grammar refers to a construct
met inside another one by its name here; the whole parser closes that circle.
-/

namespace SharpRefactor

/-- A construct, or the continuation of a list of constructs on the open level. -/
inductive Construct where
  /-- The directives and members of a namespace; `braced` ends at a closing brace. -/
  | namespaceBody (braced : Bool)
  | usings
  | namespaceMembers (braced : Bool)
  | typeParameters
  | baseTypes
  | members
  | accessors
  | parameters
  | block
  | statements
  | statement
  | declarators
  | type
  /-- The dotted continuation of the name on the open level. -/
  | qualifiers
  | ranks
  | typeArguments
  /-- An expression whose operators bind at least as tightly as `power`. -/
  | expression (power : Nat)
  /-- The operators and further operands after the operand on the open level. -/
  | operators (power : Nat)
  | unary
  /-- The accesses, calls and signs after the operand on the open level. -/
  | suffixes
  | arguments
  deriving DecidableEq, Repr

end SharpRefactor
