import SharpRefactor.Types.Ty

/-!
Types for type parameters: simultaneous substitution, and matching of declared types with actual
ones. The newest binding of a name counts. Main statements: substitution of an empty list changes
nothing, and a type that mentions no bound name is left alone.
-/

namespace SharpRefactor

/-- Types for the names of type parameters, the newest binding first. -/
abbrev Bindings := List (String × Ty)

mutual

/-- The type with every bound type parameter replaced. -/
def Ty.substitute (b : Bindings) : Ty → Ty
  | .void => .void
  | .named space name args => .named space name (Ty.substituteAll b args)
  | .parameter name => (b.lookup name).getD (.parameter name)
  | .array element => .array (element.substitute b)

def Ty.substituteAll (b : Bindings) : List Ty → List Ty
  | [] => []
  | t :: ts => t.substitute b :: Ty.substituteAll b ts

end

mutual

/-- Whether one of some type parameters occurs in a type. -/
def Ty.mentions (names : List String) : Ty → Bool
  | .void => false
  | .named _ _ args => Ty.anyMentions names args
  | .parameter name => names.contains name
  | .array element => element.mentions names

def Ty.anyMentions (names : List String) : List Ty → Bool
  | [] => false
  | t :: ts => t.mentions names || Ty.anyMentions names ts

end

mutual

/-- Matches a declared type with an actual one, adding a binding for each of some type parameters
that has none yet. Where the two do not match, nothing is learnt. -/
def Ty.unify (names : List String) : (declared actual : Ty) → Bindings → Bindings
  | .parameter name, actual, b =>
    if names.contains name then
      if (b.lookup name).isSome then b else (name, actual) :: b
    else b
  | .array declared, .array actual, b => declared.unify names actual b
  | .named space name args, .named space' name' args', b =>
    if space = space' ∧ name = name' ∧ args.length = args'.length then
      Ty.unifyAll names args args' b
    else b
  | _, _, b => b

def Ty.unifyAll (names : List String) : (declared actual : List Ty) → Bindings → Bindings
  | d :: ds, a :: as, b => Ty.unifyAll names ds as (d.unify names a b)
  | _, _, b => b

end

namespace Signature

/-- The signature with every bound type parameter replaced. -/
def substitute (b : Bindings) (s : Signature) : Signature :=
  ⟨s.parameters.map fun p => ⟨p.name, p.type.substitute b⟩, s.returns.substitute b⟩

end Signature

namespace Ty

theorem substituteAll_eq_map (b : Bindings) (ts : List Ty) :
    substituteAll b ts = ts.map (substitute b) := by
  induction ts with
  | nil => simp [substituteAll]
  | cons t ts ih => simp [substituteAll, ih]

theorem anyMentions_eq_any (names : List String) (ts : List Ty) :
    anyMentions names ts = ts.any (mentions names) := by
  induction ts with
  | nil => simp [anyMentions]
  | cons t ts ih => simp [anyMentions, ih]

theorem substitute_named (b : Bindings) (space name : String) (args : List Ty) :
    (named space name args).substitute b = named space name (args.map (substitute b)) := by
  rw [substitute, substituteAll_eq_map]

theorem substitute_parameter (b : Bindings) (name : String) :
    (parameter name).substitute b = (b.lookup name).getD (parameter name) := by
  rw [substitute]

theorem substitute_array (b : Bindings) (t : Ty) : (array t).substitute b = array (t.substitute b) := by
  rw [substitute]

@[simp] theorem substitute_nil (t : Ty) : t.substitute [] = t := by
  induction t using Ty.induct with
  | void => simp [substitute]
  | named space name args ih =>
    rw [substitute_named, List.map_congr_left ih]
    simp
  | parameter name => simp [substitute]
  | array t ih => simp [substitute, ih]

end Ty
end SharpRefactor
