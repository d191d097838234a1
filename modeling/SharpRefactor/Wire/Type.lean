import SharpRefactor.Types.Ty
import SharpRefactor.Wire.Value

/-!
Types and signatures between this library and a host. Fields that a record has beyond those asked
for do not matter. A record with a fixed set of fields can also be sent as the list of their values.
Main statement: a type comes back as it was sent.
-/

namespace SharpRefactor

open Wire (Value)

mutual

def Ty.toValue : Ty → Value
  | .void => .text "Void"
  | .named space name args =>
    .record [("Named", .record
      [("namespace", .text space), ("name", .text name), ("args", .list (Ty.toValues args))])]
  | .parameter name => .record [("TypeParameter", .text name)]
  | .array element => .record [("Array", element.toValue)]

def Ty.toValues : List Ty → List Value
  | [] => []
  | t :: ts => t.toValue :: Ty.toValues ts

end

namespace Wire

/-- The text in a field. -/
def textField? (name : String) (fields : List (String × Value)) : Option String :=
  (fields.lookup name).bind Value.text?

mutual

/-- The type that a value describes. -/
def type? : Value → Option Ty
  | .text "Void" => some .void
  | .record [("Void", .null)] => some .void
  | .record [("TypeParameter", .text name)] => some (.parameter name)
  | .record [("Array", element)] => (type? element).map .array
  | .record [("Named", .record fields)] => do
    let space ← textField? "namespace" fields
    let name ← textField? "name" fields
    return .named space name (← arguments? fields)
  | _ => none

/-- The types in the field `args`. -/
def arguments? : List (String × Value) → Option (List Ty)
  | [] => none
  | ("args", .list items) :: _ => types? items
  | ("args", _) :: _ => none
  | _ :: fields => arguments? fields

def types? : List Value → Option (List Ty)
  | [] => some []
  | v :: vs => do return (← type? v) :: (← types? vs)

end

/-- The values of some fields, from a record or from the list of the values in order. -/
def fields? (names : List String) : Value → Option (List Value)
  | .record fields => names.mapM fun name => fields.lookup name
  | .list items => if items.length = names.length then some items else none
  | _ => none

def parameter? (v : Value) : Option Parameter :=
  match fields? ["name", "ty"] v with
  | some [.text name, type] => (type? type).map (⟨name, ·⟩)
  | _ => none

/-- The signature that a value describes. -/
def signature? (v : Value) : Option Signature :=
  match fields? ["parameters", "return_type"] v with
  | some [.list items, returns] => do return ⟨← items.mapM parameter?, ← type? returns⟩
  | _ => none

end Wire

def Parameter.toValue (p : Parameter) : Value :=
  .record [("name", .text p.name), ("ty", p.type.toValue)]

def Signature.toValue (s : Signature) : Value :=
  .record [("parameters", .list (s.parameters.map Parameter.toValue)),
    ("return_type", s.returns.toValue)]

namespace Wire

mutual

/-- A type comes back as it was sent. -/
theorem type?_toValue : ∀ t : Ty, type? t.toValue = some t
  | .void => by simp [Ty.toValue, type?]
  | .named space name args => by
    simp [Ty.toValue, type?, textField?, List.lookup_cons, Value.text?, arguments?,
      types?_toValues args]
  | .parameter name => by simp [Ty.toValue, type?]
  | .array element => by simp [Ty.toValue, type?, type?_toValue element]

theorem types?_toValues : ∀ ts : List Ty, types? (Ty.toValues ts) = some ts
  | [] => by simp [Ty.toValues, types?]
  | t :: ts => by simp [Ty.toValues, types?, type?_toValue t, types?_toValues ts]

end

end Wire
end SharpRefactor
