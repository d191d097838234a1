import SharpRefactor.Syntax.Kind
import SharpRefactor.Text.Range

/-!
Tokens: a kind with the exact text it was read from.
-/

namespace SharpRefactor

/-- A piece of source text with what it is. -/
structure Token where
  kind : Kind
  text : String
  deriving DecidableEq, Repr

namespace Token

/-- Length in bytes. -/
def size (t : Token) : Nat := t.text.utf8ByteSize

def isTrivia (t : Token) : Bool := t.kind.isTrivia

/-- The token of a kind with only one spelling; the empty token of any other kind. -/
def fixed (kind : Kind) : Token := ⟨kind, kind.fixedText?.getD ""⟩

/-- A single blank. -/
def blank : Token := ⟨.whitespace, " "⟩

end Token
end SharpRefactor
