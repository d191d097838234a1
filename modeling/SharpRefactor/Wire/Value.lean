/-!
Values as a host sends and receives them: what a refactoring has to say about types crosses to an
editor in this form.
-/

namespace SharpRefactor.Wire

/-- A value between this library and a host. The names in a record are different from each other. -/
inductive Value where
  | null
  | bool (value : Bool)
  | number (numeral : String)
  | text (value : String)
  | list (items : List Value)
  | record (fields : List (String × Value))
  deriving Inhabited

namespace Value

/-- The variant that a value names when the variant carries nothing: its name alone, or a record
that gives the name nothing. -/
def label? : Value → Option String
  | .text name => some name
  | .record [(name, .null)] => some name
  | _ => none

def text? : Value → Option String
  | .text s => some s
  | _ => none

end Value
end SharpRefactor.Wire
