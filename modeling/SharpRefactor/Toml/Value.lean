import SharpRefactor.Text.Decimal
import SharpRefactor.Text.Quoted

/-!
What a settings file holds: texts, numbers, truth values, lists, and tables in the order in which
their keys were written. A date is a table with one entry of a reserved name.
-/

namespace SharpRefactor.Toml

/-- A floating point number. -/
inductive Real where
  | finite (isNegative : Bool) (value : Text.Decimal)
  | infinite (isNegative : Bool)
  | nan
  deriving DecidableEq, Repr

/-- A number as messages write it. -/
def Real.describe : Real → String
  | finite isNegative value =>
    let shown := (value.toBinary?.map fun b => (Text.Decimal.shortest b).layOut).getD "inf"
    if isNegative then "-" ++ shown else shown
  | infinite true => "-inf"
  | infinite false => "inf"
  | nan => "NaN"

inductive Value where
  | text (value : String)
  | integer (value : Int)
  | real (value : Real)
  | bool (value : Bool)
  | list (items : List Value)
  | table (entries : List (String × Value))
  deriving Repr

namespace Value

/-- The key under which a date is kept. -/
def dateKey : String := "$__toml_private_datetime"

/-- A date by its written form. -/
def date (written : String) : Value := .table [(dateKey, .text written)]

/-- What a value is, in the words of a message. -/
def describe : Value → String
  | text s => s!"string {Text.quote s}"
  | integer i => s!"integer `{i}`"
  | real x => s!"floating point `{x.describe}`"
  | bool b => s!"boolean `{b}`"
  | list _ => "sequence"
  | table _ => "map"

end Value
end SharpRefactor.Toml
