/-!
Decimal numbers and the floating point values of 64 bits next to them. A value is written with the
fewest digits that still lead back to it, without an exponent and always with a decimal point.
-/

namespace SharpRefactor.Text

/-- The number `digits * 10 ^ exponent`. -/
structure Decimal where
  digits : Nat
  exponent : Int
  deriving DecidableEq, Repr

namespace Decimal

/-- How many decimal digits a number has; zero has none. -/
def width (n : Nat) : Nat := if n = 0 then 0 else (Nat.toDigits 10 n).length

/-- A finite value that is not negative: `significand * 2 ^ scale`. -/
structure Binary where
  significand : Nat
  scale : Int
  /-- Whether the next smaller value is only half as far away as the next larger one. -/
  isNarrow : Bool
  deriving DecidableEq, Repr

/-- The value next to a decimal number; none if the number is too large for any. -/
def toBinary? (d : Decimal) : Option Binary :=
  let magnitude := d.exponent + width d.digits
  if 310 < magnitude then none
  else if d.digits = 0 ∨ magnitude < -330 then some ⟨0, -1074, false⟩
  else
    let bits : Nat := (Float.ofScientific d.digits (d.exponent < 0) d.exponent.natAbs).toBits.toNat
    let biased : Nat := bits / Nat.pow 2 52
    let fraction := bits % Nat.pow 2 52
    if biased = 2047 then none
    else if biased = 0 then some ⟨fraction, -1074, false⟩
    else some ⟨Nat.pow 2 52 + fraction, biased - 1075, fraction = 0 && 1 < biased⟩

/-- The order of a decimal number and `n * 2 ^ scale`. -/
def compareBinary (d : Decimal) (n : Nat) (scale : Int) : Ordering :=
  compare (d.digits * Nat.pow 10 d.exponent.toNat * Nat.pow 2 (-scale).toNat)
    (n * Nat.pow 2 scale.toNat * Nat.pow 10 (-d.exponent).toNat)

/-- Whether a decimal number is nearer to a value than to every other one. A number in the middle
belongs to the value with the even significand. -/
def leadsTo (d : Decimal) (b : Binary) : Bool :=
  let lower := if b.isNarrow then 4 * b.significand - 1 else 4 * b.significand - 2
  let isEven := b.significand % 2 = 0
  let above := compareBinary d lower (b.scale - 2)
  let below := compareBinary d (4 * b.significand + 2) (b.scale - 2)
  (above = .gt || (isEven && above = .eq)) && (below = .lt || (isEven && below = .eq))

/-- The decimal number just below a value, or equal to it, among the multiples of a power of ten. -/
def floorOn (b : Binary) (exponent : Int) : Decimal :=
  ⟨b.significand * Nat.pow 2 b.scale.toNat * Nat.pow 10 (-exponent).toNat /
    (Nat.pow 2 (-b.scale).toNat * Nat.pow 10 exponent.toNat), exponent⟩

/-- The multiple of a power of ten that leads to a value, the nearer one if there are two. -/
def onGrid? (b : Binary) (exponent : Int) : Option Decimal :=
  let low := floorOn b exponent
  let high : Decimal := ⟨low.digits + 1, exponent⟩
  let middle : Decimal := ⟨10 * low.digits + 5, exponent - 1⟩
  match low.leadsTo b, high.leadsTo b with
  | true, true => if compareBinary middle b.significand b.scale = .gt then some low else some high
  | true, false => some low
  | false, true => some high
  | false, false => none

/-- The same number without zeros at its end. -/
def trim (d : Decimal) : Decimal :=
  if h : d.digits ≠ 0 ∧ d.digits % 10 = 0 then trim ⟨d.digits / 10, d.exponent + 1⟩ else d
termination_by d.digits
decreasing_by omega

/-- The shortest decimal number that leads to a value. -/
def shortest (b : Binary) : Decimal :=
  if b.significand = 0 then ⟨0, 0⟩
  else
    let whole := floorOn b (-350)
    let top : Int := (width whole.digits : Int) - 350
    trim <| ((List.range 17).findSome? fun (n : Nat) => onGrid? b (top - n - 1)).getD whole

/-- A decimal number written out, with at least one digit on each side of the point. -/
def layOut (d : Decimal) : String :=
  let digits := Nat.toDigits 10 d.digits
  if 0 ≤ d.exponent then
    String.ofList (digits ++ (if d.digits = 0 then [] else List.replicate d.exponent.toNat '0'))
      ++ ".0"
  else
    let places := d.exponent.natAbs
    let padded := List.replicate (places + 1 - digits.length) '0' ++ digits
    let whole := padded.take (padded.length - places)
    String.ofList whole ++ "." ++ String.ofList (padded.drop (padded.length - places))

end Decimal
end SharpRefactor.Text
