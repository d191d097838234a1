/-!
Lines of a text. A line keeps its end, which is a line feed, a carriage return, or the two together;
only the last line may have none. Main statement: the lines make up the text.
-/

namespace SharpRefactor.Text

/-- The lines of a text that has `line` in front of it. -/
def linesFrom (line : List Char) : List Char → List (List Char)
  | [] => if line = [] then [] else [line]
  | '\n' :: cs => (line ++ ['\n']) :: linesFrom [] cs
  | '\r' :: '\n' :: cs => (line ++ ['\r', '\n']) :: linesFrom [] cs
  | '\r' :: cs => (line ++ ['\r']) :: linesFrom [] cs
  | c :: cs => linesFrom (line ++ [c]) cs

def lines (cs : List Char) : List (List Char) := linesFrom [] cs

/-- Whether a line has an end of its own. -/
def isEnded (line : List Char) : Bool :=
  line.getLast? = some '\n' || line.getLast? = some '\r'

theorem flatten_linesFrom (line cs : List Char) : (linesFrom line cs).flatten = line ++ cs := by
  fun_induction linesFrom line cs <;> simp_all

theorem flatten_lines (cs : List Char) : (lines cs).flatten = cs := flatten_linesFrom [] cs

end SharpRefactor.Text
