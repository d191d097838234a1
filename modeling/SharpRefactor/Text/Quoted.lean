import SharpRefactor.Unicode.Classes

/-!
The quoted form of a text: between quotation marks, with the mark and the backslash escaped, the
common control characters by letter, and whatever has no printed form of its own by its code point.
-/

namespace SharpRefactor.Text

/-- A code point in hexadecimal between braces. -/
def escapeCode (c : Char) : List Char :=
  "\\u\x7b".toList ++ Nat.toDigits 16 c.toNat ++ ['\x7d']

/-- A character as it stands in a quoted text. -/
def quoteChar (c : Char) : List Char :=
  match c with
  | '"' => ['\\', '"']
  | '\\' => ['\\', '\\']
  | '\n' => ['\\', 'n']
  | '\r' => ['\\', 'r']
  | '\t' => ['\\', 't']
  | '\x00' => ['\\', '0']
  | c =>
    if Unicode.isPrintable c && !Unicode.isGraphemeExtend c then [c] else escapeCode c

def quoteChars (cs : List Char) : List Char := '"' :: cs.flatMap quoteChar ++ ['"']

/-- The quoted form of a text. -/
def quote (s : String) : String := String.ofList (quoteChars s.toList)

end SharpRefactor.Text
