/-!
What becomes of the lines of a text, in runs: some are kept, some go, some are new.
-/

namespace SharpRefactor.Text.Diff

/-- A run of lines of one fate. -/
inductive Piece (α : Type) where
  | kept (lines : List α)
  | gone (lines : List α)
  | fresh (lines : List α)
  deriving Repr, DecidableEq

namespace Piece

variable {α : Type}

def lines : Piece α → List α
  | kept ls | gone ls | fresh ls => ls

/-- The lines that a run has before the change. -/
def before : Piece α → List α
  | kept ls | gone ls => ls
  | fresh _ => []

/-- The lines that a run has after the change. -/
def after : Piece α → List α
  | kept ls | fresh ls => ls
  | gone _ => []

/-- The run with other lines. -/
def withLines : Piece α → List α → Piece α
  | kept _, ls => kept ls
  | gone _, ls => gone ls
  | fresh _, ls => fresh ls

/-- Lines that stay; no run at all if there are none. -/
def keptRun : List α → List (Piece α)
  | [] => []
  | ls => [.kept ls]

end Piece

/-- The text before the changes. -/
def beforeAll {α : Type} (ps : List (Piece α)) : List α := ps.flatMap Piece.before

/-- The text after the changes. -/
def afterAll {α : Type} (ps : List (Piece α)) : List α := ps.flatMap Piece.after

section Common

variable {α : Type} [DecidableEq α]

/-- How many items two lists have in common at their start. -/
def commonStart : List α → List α → Nat
  | a :: as, b :: bs => if a = b then commonStart as bs + 1 else 0
  | _, _ => 0

/-- How many items two lists have in common at their end. -/
def commonEnd (as bs : List α) : Nat := commonStart as.reverse bs.reverse

theorem take_commonStart (as bs : List α) :
    as.take (commonStart as bs) = bs.take (commonStart as bs) := by
  fun_induction commonStart as bs <;> simp_all

theorem commonStart_le_left (as bs : List α) : commonStart as bs ≤ as.length := by
  fun_induction commonStart as bs <;> simp_all

theorem commonEnd_le_left (as bs : List α) : commonEnd as bs ≤ as.length := by
  simpa [commonEnd] using commonStart_le_left as.reverse bs.reverse

theorem drop_commonEnd (as bs : List α) :
    as.drop (as.length - commonEnd as bs) = bs.drop (bs.length - commonEnd as bs) := by
  have h := take_commonStart as.reverse bs.reverse
  rw [List.take_reverse, List.take_reverse] at h
  exact List.reverse_inj.1 h

end Common
end SharpRefactor.Text.Diff
