import SharpRefactor.Unicode.IdentStart
import SharpRefactor.Unicode.IdentContinue
import SharpRefactor.Unicode.Unprintable
import SharpRefactor.Unicode.GraphemeExtend

/-!
The classes of characters that the lexer and the quoted form of text ask for. ASCII is answered
directly, the rest from the tables of the Unicode character database.
-/

namespace SharpRefactor.Unicode

/-- Membership of a code point in a list of closed ranges. -/
def inRanges (ranges : List (Nat × Nat)) (c : Char) : Bool :=
  ranges.any fun (first, last) => first ≤ c.toNat && c.toNat ≤ last

/-- White space: the characters with the property `White_Space`. -/
def isWhiteSpace (c : Char) : Bool :=
  inRanges [(0x9, 0xD), (0x20, 0x20), (0x85, 0x85), (0xA0, 0xA0), (0x1680, 0x1680),
    (0x2000, 0x200A), (0x2028, 0x2029), (0x202F, 0x202F), (0x205F, 0x205F), (0x3000, 0x3000)] c

/-- A character that may begin an identifier. -/
def isIdentStart (c : Char) : Bool :=
  c.isAlpha || c = '_' || (128 ≤ c.toNat && inRanges identStartRanges c)

/-- A character that may go on with an identifier. -/
def isIdentContinue (c : Char) : Bool :=
  isIdentStart c || c.isDigit || (128 ≤ c.toNat && inRanges identExtraRanges c)

/-- A character that has a printed form of its own. -/
def isPrintable (c : Char) : Bool :=
  if c.toNat < 128 then 0x20 ≤ c.toNat && c.toNat < 0x7F else !inRanges unprintableRanges c

/-- A character that attaches to the one before it. -/
def isGraphemeExtend (c : Char) : Bool :=
  128 ≤ c.toNat && inRanges graphemeExtendRanges c

theorem isIdentContinue_of_isIdentStart {c : Char} (h : isIdentStart c = true) :
    isIdentContinue c = true := by
  simp [isIdentContinue, h]

end SharpRefactor.Unicode
