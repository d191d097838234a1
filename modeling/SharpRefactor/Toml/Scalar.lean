import SharpRefactor.Toml.Value

/-!
Numbers, truth values and dates, each read from the whole of a word.
-/

namespace SharpRefactor.Toml

/-! Numbers. -/

/-- The digits of a numeral without the underscores, each of which has to stand between two
digits. -/
def digits? (isDigit : Char → Bool) : List Char → Option (List Char)
  | [c] => if isDigit c then some [c] else none
  | c :: '_' :: cs => if isDigit c then (digits? isDigit cs).map (c :: ·) else none
  | c :: cs => if isDigit c then (digits? isDigit cs).map (c :: ·) else none
  | [] => none

/-- The value of digits in a base. -/
def valueOf (base : Nat) (digits : List Char) : Nat :=
  digits.foldl (fun n c =>
    base * n + (if c.isDigit then c.toNat - '0'.toNat else c.toLower.toNat - 'a'.toNat + 10)) 0

def isDigitOf (base : Nat) (c : Char) : Bool :=
  if base ≤ 10 then '0'.toNat ≤ c.toNat && c.toNat < '0'.toNat + base
  else c.isDigit || ('a' ≤ c.toLower && c.toLower ≤ 'f')

/-- A sign in front of a numeral, true for minus, and what follows it. -/
def splitSign : List Char → Bool × List Char
  | '-' :: cs => (true, cs)
  | '+' :: cs => (false, cs)
  | cs => (false, cs)

def decimalDigits? (cs : List Char) : Option (List Char) := digits? (isDigitOf 10) cs

/-- The digits of a decimal numeral, which has no zero in front. -/
def wholeDigits? (cs : List Char) : Option (List Char) :=
  match decimalDigits? cs with
  | some ('0' :: _ :: _) => none
  | found => found

/-- An integer in a base other than ten, without a sign. -/
def based? (base : Nat) (cs : List Char) : Option Int :=
  (digits? (isDigitOf base) cs).map fun ds => (valueOf base ds : Int)

/-- An integer of 64 bits. -/
def integer? (word : List Char) : Option Int :=
  let value? : Option Int :=
    match word with
    | '0' :: 'x' :: cs => based? 16 cs
    | '0' :: 'o' :: cs => based? 8 cs
    | '0' :: 'b' :: cs => based? 2 cs
    | word =>
      let (isNegative, cs) := splitSign word
      (wholeDigits? cs).map fun ds => if isNegative then -(valueOf 10 ds : Int) else valueOf 10 ds
  value?.filter fun i => -(Nat.pow 2 63 : Nat) ≤ i && i < (Nat.pow 2 63 : Nat)

/-- An exponent with its mark; nothing stands for zero. -/
def exponent? : List Char → Option Int
  | [] => some 0
  | e :: cs =>
    if e = 'e' ∨ e = 'E' then
      let (isNegative, cs) := splitSign cs
      (decimalDigits? cs).map fun ds => if isNegative then -(valueOf 10 ds : Int) else valueOf 10 ds
    else none

/-- A decimal number with a fraction or an exponent. -/
def decimal? (cs : List Char) : Option Text.Decimal := do
  let isMark (c : Char) : Bool := c = '.' || c = 'e' || c = 'E'
  let whole ← wholeDigits? (cs.takeWhile fun c => !isMark c)
  match cs.dropWhile fun c => !isMark c with
  | [] => none
  | '.' :: rest =>
    let fraction ← decimalDigits? (rest.takeWhile fun c => !isMark c)
    let exponent ← exponent? (rest.dropWhile fun c => !isMark c)
    return ⟨valueOf 10 (whole ++ fraction), exponent - fraction.length⟩
  | rest => return ⟨valueOf 10 whole, ← exponent? rest⟩

/-- A floating point number; a positive one has to be small enough to be finite. -/
def real? (word : List Char) : Option Real :=
  let (isNegative, cs) := splitSign word
  if cs = ['i', 'n', 'f'] then some (.infinite isNegative)
  else if cs = ['n', 'a', 'n'] then some .nan
  else (decimal? cs).bind fun d =>
    if d.toBinary?.isSome then some (.finite isNegative d)
    else if isNegative then some (.infinite true)
    else none

/-! Dates. -/

/-- A number of a fixed count of digits within bounds, from the front of a text. -/
def field? (count low high : Nat) (cs : List Char) : Option (Nat × List Char) :=
  let ds := cs.take count
  if ds.length = count ∧ ds.all Char.isDigit ∧ low ≤ valueOf 10 ds ∧ valueOf 10 ds ≤ high then
    some (valueOf 10 ds, cs.drop count)
  else none

/-- A mark from the front of a text. -/
def mark? (c : Char) : List Char → Option (List Char)
  | d :: cs => if c = d then some cs else none
  | [] => none

def daysIn (year month : Nat) : Nat :=
  if month = 2 then
    if year % 4 = 0 ∧ (year % 100 ≠ 0 ∨ year % 400 = 0) then 29 else 28
  else if month = 4 ∨ month = 6 ∨ month = 9 ∨ month = 11 then 30
  else 31

/-- A number with zeros in front. -/
def padded (width n : Nat) : String :=
  let ds := Nat.toDigits 10 n
  String.ofList (List.replicate (width - ds.length) '0' ++ ds)

/-- A day, in its written form. -/
def day? (cs : List Char) : Option (String × List Char) := do
  let (year, cs) ← field? 4 0 9999 cs
  let (month, cs) ← field? 2 1 12 (← mark? '-' cs)
  let (day, cs) ← field? 2 1 (daysIn year month) (← mark? '-' cs)
  return (s!"{padded 4 year}-{padded 2 month}-{padded 2 day}", cs)

/-- The fraction of a second: nine digits count, and zeros at the end are not written. -/
def fraction? : List Char → Option (String × List Char)
  | '.' :: cs =>
    let ds := cs.takeWhile Char.isDigit
    if ds = [] then none
    else
      let shown := ((ds.take 9).reverse.dropWhile (· = '0')).reverse
      some (if shown = [] then "" else "." ++ String.ofList shown, cs.dropWhile Char.isDigit)
  | cs => some ("", cs)

/-- A time of day, in its written form. -/
def time? (cs : List Char) : Option (String × List Char) := do
  let (hour, cs) ← field? 2 0 23 cs
  let (minute, cs) ← field? 2 0 59 (← mark? ':' cs)
  let (second, cs) ← field? 2 0 60 (← mark? ':' cs)
  let (fraction, cs) ← fraction? cs
  return (s!"{padded 2 hour}:{padded 2 minute}:{padded 2 second}{fraction}", cs)

/-- The distance of a time from the standard one; nothing for a local time. -/
def offset? : List Char → Option String
  | [] => some ""
  | ['Z'] | ['z'] => some "Z"
  | s :: cs =>
    if s = '+' ∨ s = '-' then do
      let (hour, cs) ← field? 2 0 23 cs
      let (minute, cs) ← field? 2 0 59 (← mark? ':' cs)
      if cs = [] then return s!"{s}{padded 2 hour}:{padded 2 minute}" else none
    else none

/-- A day, a time, or both, in written form. -/
def date? (word : List Char) : Option String :=
  match day? word with
  | some (day, []) => some day
  | some (day, c :: cs) =>
    if c = 'T' ∨ c = 't' ∨ c = ' ' then do
      let (time, rest) ← time? cs
      return day ++ "T" ++ time ++ (← offset? rest)
    else none
  | none =>
    match time? word with
    | some (time, []) => some time
    | _ => none

/-- The value that a word stands for. -/
def scalar? (word : List Char) : Option Value :=
  if word = ['t', 'r', 'u', 'e'] then some (.bool true)
  else if word = ['f', 'a', 'l', 's', 'e'] then some (.bool false)
  else
    ((integer? word).map Value.integer).or
      (((real? word).map Value.real).or ((date? word).map Value.date))

end SharpRefactor.Toml
