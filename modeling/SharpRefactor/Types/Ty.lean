import SharpRefactor.Syntax.Kind
import SharpRefactor.Types.Dotted

/-!
Types as the analysis knows them. A built-in type such as `int` is an ordinary named type; its
keyword is only a way to write it.
-/

namespace SharpRefactor

/-- The identity of a type. -/
inductive Ty where
  | void
  /-- A declared type with its arguments, under the dotted path of what declares it. -/
  | named (space name : String) (args : List Ty)
  | parameter (name : String)
  | array (element : Ty)
  deriving Repr

mutual

def Ty.decEq : (s t : Ty) → Decidable (s = t)
  | .void, .void => isTrue rfl
  | .named m a ss, .named n b ts =>
    if h : m = n ∧ a = b then
      match Ty.decEqList ss ts with
      | isTrue h' => isTrue (by rw [h.1, h.2, h'])
      | isFalse h' => isFalse (by simp [h'])
    else isFalse (by
      simp only [Ty.named.injEq]
      exact fun h' => h ⟨h'.1, h'.2.1⟩)
  | .parameter a, .parameter b => if h : a = b then isTrue (by rw [h]) else isFalse (by simpa using h)
  | .array s, .array t =>
    match Ty.decEq s t with
    | isTrue h => isTrue (by rw [h])
    | isFalse h => isFalse (by simpa using h)
  | .void, .named .. | .void, .parameter _ | .void, .array _ => isFalse (by simp)
  | .named .., .void | .named .., .parameter _ | .named .., .array _ => isFalse (by simp)
  | .parameter _, .void | .parameter _, .named .. | .parameter _, .array _ => isFalse (by simp)
  | .array _, .void | .array _, .named .. | .array _, .parameter _ => isFalse (by simp)

def Ty.decEqList : (ss ts : List Ty) → Decidable (ss = ts)
  | [], [] => isTrue rfl
  | s :: ss, t :: ts =>
    match Ty.decEq s t, Ty.decEqList ss ts with
    | isTrue h, isTrue h' => isTrue (by rw [h, h'])
    | isFalse h, _ => isFalse (by simp [h])
    | _, isFalse h => isFalse (by simp [h])
  | [], _ :: _ => isFalse (by simp)
  | _ :: _, [] => isFalse (by simp)

end

instance : DecidableEq Ty := Ty.decEq

namespace Ty

/-- A type follows from its parts. -/
theorem induct {P : Ty → Prop} (void : P .void)
    (named : ∀ space name args, (∀ a ∈ args, P a) → P (.named space name args))
    (parameter : ∀ name, P (.parameter name)) (array : ∀ t, P t → P (.array t)) : ∀ t, P t
  | .void => void
  | .named space name args =>
    named space name args fun a _ => induct void named parameter array a
  | .parameter name => parameter name
  | .array t => array t (induct void named parameter array t)

/-- A type without arguments in the namespace `System`. -/
def system (name : String) : Ty := .named "System" name []

def int : Ty := system "Int32"

def bool : Ty := system "Boolean"

def string : Ty := system "String"

def object : Ty := system "Object"

/-- The built-in types: the kind of the keyword, the keyword, and the name in `System`. -/
def predefined : List (Kind × String × String) :=
  [(.boolKw, "bool", "Boolean"), (.byteKw, "byte", "Byte"), (.charKw, "char", "Char"),
   (.decimalKw, "decimal", "Decimal"), (.doubleKw, "double", "Double"),
   (.floatKw, "float", "Single"), (.intKw, "int", "Int32"), (.longKw, "long", "Int64"),
   (.objectKw, "object", "Object"), (.sbyteKw, "sbyte", "SByte"), (.shortKw, "short", "Int16"),
   (.stringKw, "string", "String"), (.uintKw, "uint", "UInt32"), (.ulongKw, "ulong", "UInt64"),
   (.ushortKw, "ushort", "UInt16")]

/-- The type that a keyword spells. -/
def ofKeyword? (k : Kind) : Option Ty :=
  if k = .voidKw then some .void
  else (predefined.find? (·.1 = k)).map fun (_, _, name) => system name

/-- The keyword of a type. -/
def keyword? : Ty → Option String
  | .void => some "void"
  | .named "System" name [] => (predefined.find? (·.2.2 = name)).map (·.2.1)
  | _ => none

def isVoid (t : Ty) : Bool := t = .void

/-- The dotted name of a named type, without its arguments. -/
def fullName? : Ty → Option String
  | .named space name _ => some (Dotted.join space name)
  | _ => none

def args : Ty → List Ty
  | .named _ _ ts => ts
  | _ => []

end Ty

/-- Type arguments in angle brackets, and nothing if there are none. -/
def bracketed (args : List String) : String :=
  if args.isEmpty then "" else "<" ++ String.intercalate ", " args ++ ">"

mutual

/-- A type written out in full, with keywords for the built-in types. -/
def Ty.describe : Ty → String
  | .void => "void"
  | .named space name args =>
    ((Ty.named space name args).keyword?).getD
      (Dotted.join space name ++ bracketed (Ty.describeAll args))
  | .parameter name => name
  | .array element => element.describe ++ "[]"

def Ty.describeAll : List Ty → List String
  | [] => []
  | t :: ts => t.describe :: Ty.describeAll ts

end

/-- A parameter of a callable. -/
structure Parameter where
  name : String
  type : Ty
  deriving DecidableEq, Repr

/-- How a delegate is called. -/
structure Signature where
  parameters : List Parameter
  returns : Ty
  deriving DecidableEq, Repr

namespace Signature

def returnsVoid (s : Signature) : Bool := s.returns.isVoid

end Signature
end SharpRefactor
