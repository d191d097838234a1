import SharpRefactor.Types.Resolver

/-!
Computations that ask a resolver. They keep a record of their questions, so that what a refactoring
costs can be read off its result.
-/

namespace SharpRefactor

/-- A question to a resolver. -/
inductive Question where
  | typeOf (node : Handle)
  | signatureOf (type : Ty)
  | display (type : Ty) (offset : Nat)

namespace Question

def isTypeOf : Question → Bool
  | typeOf _ => true
  | _ => false

def isSignatureOf : Question → Bool
  | signatureOf _ => true
  | _ => false

def isDisplay : Question → Bool
  | display .. => true
  | _ => false

end Question

/-- A result together with the questions it took, in order. -/
structure Asking (α : Type) where
  result : α
  questions : List Question

namespace Asking

instance : Monad Asking where
  pure a := ⟨a, []⟩
  bind x f := ⟨(f x.result).result, x.questions ++ (f x.result).questions⟩

@[simp] theorem result_pure {α : Type} (a : α) : (pure a : Asking α).result = a := rfl

@[simp] theorem questions_pure {α : Type} (a : α) : (pure a : Asking α).questions = [] := rfl

@[simp] theorem result_bind {α β : Type} (x : Asking α) (f : α → Asking β) :
    (x >>= f).result = (f x.result).result := rfl

@[simp] theorem questions_bind {α β : Type} (x : Asking α) (f : α → Asking β) :
    (x >>= f).questions = x.questions ++ (f x.result).questions := rfl

end Asking

namespace Resolver

/-- Asks for the type of a node. -/
def askType (r : Resolver) (node : Handle) : Asking (Option Ty) := ⟨r.typeOf node, [.typeOf node]⟩

/-- Asks how values of a type are called. -/
def askSignature (r : Resolver) (type : Ty) : Asking (Option Signature) :=
  ⟨r.signatureOf type, [.signatureOf type]⟩

/-- Asks for a spelling of a type at an offset. -/
def askDisplay (r : Resolver) (type : Ty) (offset : Nat) : Asking (Except Surrounded String) :=
  ⟨r.display type offset, [.display type offset]⟩

end Resolver
end SharpRefactor
