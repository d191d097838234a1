/-!
Reading a settings file from its characters: blanks, line ends, comments, and the texts in quotes. A
reader takes what it can from the front of the rest, or refuses.
-/

namespace SharpRefactor.Toml

/-- Reads from the front of a text; what is left is the rest. -/
abbrev Reader := StateT (List Char) Option

namespace Reader

/-- Takes one character that has to be there. -/
def sign (c : Char) : Reader Unit
  | d :: cs => if c = d then some ((), cs) else none
  | [] => none

/-- Whether some characters come next; if so they are taken. -/
def accept (mark : List Char) : Reader Bool := fun cs =>
  if mark.isPrefixOf cs then some (true, cs.drop mark.length) else some (false, cs)

/-- The characters in front of which a condition holds. -/
def takeWhile (p : Char → Bool) : Reader (List Char) := fun cs =>
  some (cs.takeWhile p, cs.dropWhile p)

end Reader

def isBlank (c : Char) : Bool := c = ' ' || c = '\t'

/-- The characters that may stand in texts and comments: all but the control characters. -/
def isText (c : Char) : Bool := c = '\t' || (0x20 ≤ c.toNat && c.toNat ≠ 0x7F)

/-- What follows the end of a line, if one comes next. -/
def afterNewline? : List Char → Option (List Char)
  | '\n' :: cs => some cs
  | '\r' :: '\n' :: cs => some cs
  | _ => none

/-- The text after a comment, if one comes next, and otherwise the same text. -/
def dropComment : List Char → List Char
  | '#' :: cs => cs.dropWhile fun c => isText c || c = '\x7f'
  | cs => cs

def skipBlanks : Reader Unit := fun cs => some ((), cs.dropWhile isBlank)

/-- What is left of a line after its content: blanks, a comment, and the end of the line or of the
text. -/
def lineEnd : Reader Unit := fun cs =>
  match dropComment (cs.dropWhile isBlank) with
  | [] => some ((), [])
  | rest => (afterNewline? rest).map ((), ·)

/-- The text after blanks, line ends and comments, of which there are no more than `limit`. -/
def dropSpace : Nat → List Char → Option (List Char)
  | 0, _ => none
  | limit + 1, cs =>
    match cs.dropWhile isBlank with
    | '#' :: rest => (afterNewline? (dropComment ('#' :: rest))).bind (dropSpace limit)
    | rest =>
      match afterNewline? rest with
      | some rest => dropSpace limit rest
      | none => some rest

/-- Blanks, line ends and comments; a comment has to end with its line. -/
def skipSpace : Reader Unit := fun cs => (dropSpace (cs.length + 1) cs).map ((), ·)

/-! Texts. -/

def hexDigit? (c : Char) : Option Nat :=
  if c.isDigit then some (c.toNat - '0'.toNat)
  else if 'a' ≤ c ∧ c ≤ 'f' then some (c.toNat - 'a'.toNat + 10)
  else if 'A' ≤ c ∧ c ≤ 'F' then some (c.toNat - 'A'.toNat + 10)
  else none

/-- The character with a code point in hexadecimal. -/
def codePoint? (digits : List Char) : Option Char := do
  let n ← digits.foldlM (fun n c => return 16 * n + (← hexDigit? c)) 0
  if n.isValidChar then some (Char.ofNat n) else none

/-- The character that an escape stands for, and what follows the escape; the backslash has been
taken. -/
def escape? : List Char → Option (Char × List Char)
  | 'b' :: cs => some ('\x08', cs)
  | 't' :: cs => some ('\t', cs)
  | 'n' :: cs => some ('\n', cs)
  | 'f' :: cs => some ('\x0c', cs)
  | 'r' :: cs => some ('\r', cs)
  | '"' :: cs => some ('"', cs)
  | '\\' :: cs => some ('\\', cs)
  | 'u' :: cs => if cs.length < 4 then none else (codePoint? (cs.take 4)).map (·, cs.drop 4)
  | 'U' :: cs => if cs.length < 8 then none else (codePoint? (cs.take 8)).map (·, cs.drop 8)
  | _ => none

/-- The rest of a text on one line; `limit` is at least the number of characters. -/
def basicRest (done : List Char) : Nat → List Char → Option (List Char × List Char)
  | limit + 1, c :: cs =>
    if c = '"' then some (done.reverse, cs)
    else if c = '\\' then (escape? cs).bind fun (c, cs) => basicRest (c :: done) limit cs
    else if isText c then basicRest (c :: done) limit cs
    else none
  | _, _ => none

/-- The text after blanks and line ends. -/
def dropWhite : List Char → List Char
  | '\r' :: '\n' :: cs => dropWhite cs
  | c :: cs => if isBlank c || c = '\n' then dropWhite cs else c :: cs
  | [] => []

/-- The rest of a text over several lines. Up to two quotation marks may stand anywhere in it, also
right in front of the closing ones; a backslash at the end of a line takes away the white space up
to the next character. -/
def basicLines (done : List Char) : Nat → List Char → Option (List Char × List Char)
  | limit + 1, cs =>
    match cs with
    | '"' :: '"' :: '"' :: '"' :: '"' :: cs => some (('"' :: '"' :: done).reverse, cs)
    | '"' :: '"' :: '"' :: '"' :: cs => some (('"' :: done).reverse, cs)
    | '"' :: '"' :: '"' :: cs => some (done.reverse, cs)
    | '\\' :: cs =>
      match afterNewline? (cs.dropWhile isBlank) with
      | some rest => basicLines done limit (dropWhite rest)
      | none => (escape? cs).bind fun (c, cs) => basicLines (c :: done) limit cs
    | c :: cs =>
      match afterNewline? (c :: cs) with
      | some rest => basicLines ('\n' :: done) limit rest
      | none => if isText c then basicLines (c :: done) limit cs else none
    | [] => none
  | 0, _ => none

/-- The rest of a text without escapes over several lines. -/
def literalLines (done : List Char) : Nat → List Char → Option (List Char × List Char)
  | limit + 1, cs =>
    match cs with
    | '\'' :: '\'' :: '\'' :: '\'' :: '\'' :: cs => some (('\'' :: '\'' :: done).reverse, cs)
    | '\'' :: '\'' :: '\'' :: '\'' :: cs => some (('\'' :: done).reverse, cs)
    | '\'' :: '\'' :: '\'' :: cs => some (done.reverse, cs)
    | c :: cs =>
      match afterNewline? (c :: cs) with
      | some rest => literalLines ('\n' :: done) limit rest
      | none => if isText c then literalLines (c :: done) limit cs else none
    | [] => none
  | 0, _ => none

/-- Gives a scanner of texts as many steps as there are characters. -/
def scan (f : Nat → List Char → Option (List Char × List Char)) : Reader String := fun cs =>
  (f (cs.length + 1) cs).map fun (found, rest) => (String.ofList found, rest)

/-- A text in quotation marks on one line. -/
def basicText : Reader String := do Reader.sign '"'; scan (basicRest [])

/-- A text in apostrophes on one line, which stands as it is. -/
def literalText : Reader String := do
  Reader.sign '\''
  let found ← Reader.takeWhile fun c => isText c && c ≠ '\''
  Reader.sign '\''
  return String.ofList found

/-- A line end right after the opening marks, which does not belong to the text. -/
def skipFirstNewline : Reader Unit := fun cs => some ((), (afterNewline? cs).getD cs)

/-- A text of any of the four kinds. -/
def anyText : Reader String := do
  if ← Reader.accept ['"', '"', '"'] then
    skipFirstNewline
    scan (basicLines [])
  else if ← Reader.accept ['\'', '\'', '\''] then
    skipFirstNewline
    scan (literalLines [])
  else
    match (← get).head? with
    | some '"' => basicText
    | _ => literalText

end SharpRefactor.Toml
