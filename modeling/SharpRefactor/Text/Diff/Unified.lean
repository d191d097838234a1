import SharpRefactor.Text.Diff.Settle
import SharpRefactor.Text.Diff.Shortest
import SharpRefactor.Text.Lines

/-!
The unified form of a difference between two texts: only the changed lines are shown, each with up
to three unchanged lines around it, and what goes is shown before what is new.
-/

namespace SharpRefactor.Text.Diff

/-- A line with its end. -/
abbrev Line := List Char

/-- A part of a comparison: lines that are the same on both sides, or lines that take the place of
others. -/
inductive Block where
  | same (lines : List Line)
  | change (old new : List Line)

namespace Block

def oldLines : Block → List Line
  | same ls => ls
  | change old _ => old

def newLines : Block → List Line
  | same ls => ls
  | change _ new => new

/-- A block with a run put in front of it, as one block if that can be. -/
def cons : Piece Line → List Block → List Block
  | .kept ls, .same ks :: bs => .same (ls ++ ks) :: bs
  | .kept ls, bs => .same ls :: bs
  | .gone ls, .change old new :: bs => .change (ls ++ old) new :: bs
  | .gone ls, bs => .change ls [] :: bs
  | .fresh ls, .change old new :: bs => .change old (ls ++ new) :: bs
  | .fresh ls, bs => .change [] ls :: bs

/-- The blocks of a comparison, unchanged and changed ones in turn. -/
def ofPieces (ps : List (Piece Line)) : List Block := ps.foldr cons []

end Block

/-- How many unchanged lines are shown around a change. -/
def context : Nat := 3

/-- Blocks shown together, and the numbers of lines in front of them on both sides. -/
structure Hunk where
  oldStart : Nat
  newStart : Nat
  blocks : List Block

namespace Hunk

def oldSize (h : Hunk) : Nat := (h.blocks.flatMap Block.oldLines).length

def newSize (h : Hunk) : Nat := (h.blocks.flatMap Block.newLines).length

def push (h : Hunk) (b : Block) : Hunk := { h with blocks := h.blocks ++ [b] }

/-- Whether a hunk shows a change. -/
def isChange (h : Hunk) : Bool :=
  match h.blocks with
  | [] | [.same _] => false
  | _ => true

/-- The hunk that begins with the last lines of an unchanged block. -/
def trailing (oldStart newStart : Nat) (ls : List Line) : Hunk :=
  let skipped := ls.length - context
  ⟨oldStart + skipped, newStart + skipped, [.same (ls.drop skipped)]⟩

/-- The hunks of some blocks that follow on a hunk: a long unchanged block ends one and begins the
next. -/
def collect (h : Hunk) : List Block → List Hunk
  | [] => if h.isChange then [h] else []
  | .same ls :: bs =>
    if 2 * context < ls.length then
      h.push (.same (ls.take context)) ::
        collect (trailing (h.oldStart + h.oldSize) (h.newStart + h.newSize) ls) bs
    else collect (h.push (.same ls)) bs
  | b :: bs => collect (h.push b) bs

end Hunk

/-- Blocks of which an unchanged last one keeps only its first lines. -/
def cutLast : List Block → List Block
  | [] => []
  | [.same ls] => [.same (ls.take context)]
  | b :: bs => b :: cutLast bs

/-- The hunks of a comparison. -/
def hunks : List Block → List Hunk
  | .same ls :: bs =>
    match cutLast (.same (ls.drop (ls.length - context)) :: bs) with
    | .same shown :: bs =>
      Hunk.collect ⟨ls.length - context, ls.length - context, [.same shown]⟩ bs
    | bs => Hunk.collect ⟨0, 0, []⟩ bs
  | bs => Hunk.collect ⟨0, 0, []⟩ (cutLast bs)

/-- The lines from a start on: the number of the first one and how many there are, which is left out
for a single line. If there are none, the number is that of the line in front. -/
def extent (start size : Nat) : String :=
  if size = 1 then s!"{start + 1}"
  else if size = 0 then s!"{start},0"
  else s!"{start + 1},{size}"

/-- A line with a sign in front of it, and a remark if it has no end. -/
def showLine (sign : Char) (line : Line) : List Char :=
  sign :: line ++ (if isEnded line then [] else "\n\\ No newline at end of file\n".toList)

def Block.show : Block → List Char
  | same ls => ls.flatMap (showLine ' ')
  | change old new => old.flatMap (showLine '-') ++ new.flatMap (showLine '+')

def Hunk.show (h : Hunk) : List Char :=
  s!"@@ -{extent h.oldStart h.oldSize} +{extent h.newStart h.newSize} @@\n".toList ++
    h.blocks.flatMap Block.show

/-- The comparison of two texts of a file, without a word if they are equal. -/
def unified (file old new : String) : String :=
  match hunks (Block.ofPieces (settle (shortest (lines old.toList) (lines new.toList)))) with
  | [] => ""
  | hs => s!"--- a/{file}\n+++ b/{file}\n" ++ String.ofList (hs.flatMap Hunk.show)

end SharpRefactor.Text.Diff
