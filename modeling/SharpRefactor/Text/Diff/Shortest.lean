import SharpRefactor.Text.Diff.Piece

/-!
A shortest way from one list of lines to another, found from both ends at once. Each round takes one
more removal or addition on every diagonal, the difference between the numbers of lines used up, and
then follows the lines that both have in common; where the searches meet, the problem falls into
two. Main statement: what is kept and gone is the old text, what is kept and new is the new one.
-/

namespace SharpRefactor.Text.Diff

variable {α : Type} [DecidableEq α]

/-- How far a search got on a diagonal: old lines used up before and after the last common run. -/
structure Reach where
  diagonal : Int
  start : Nat
  stop : Nat

/-- Follows a diagonal through the lines in common. -/
def extend (old new : List α) (entry : Int × Nat) : Reach :=
  let (diagonal, x) := entry
  let run := if diagonal ≤ x then commonStart (old.drop x) (new.drop (x - diagonal).toNat) else 0
  ⟨diagonal, x, x + run⟩

/-- Where a round enters the diagonals below a reach of the round before. -/
def entriesBelow : Reach → List Reach → List (Int × Nat)
  | p, [] => [(p.diagonal - 1, p.stop)]
  | p, q :: qs =>
    (q.diagonal + 1, if q.stop < p.stop then p.stop else q.stop + 1) :: entriesBelow q qs

/-- Where a round enters its diagonals, from the reaches of the round before. -/
def entries : List Reach → List (Int × Nat)
  | [] => [(0, 0)]
  | p :: ps => (p.diagonal + 1, p.stop + 1) :: entriesBelow p ps

/-- Whether a reach overlaps with one of the search from the other end. -/
def meets (old new : List α) (others : List Reach) (p : Reach) : Bool :=
  others.any fun q =>
    q.diagonal + p.diagonal == (old.length : Int) - new.length && old.length ≤ p.stop + q.stop

/-- Where the searches from both ends meet, within a number of rounds: the old and the new lines in
front of that place. -/
def meeting? (old new : List α) : Nat → (forward backward : List Reach) → Option (Nat × Nat)
  | 0, _, _ => none
  | rounds + 1, forward, backward =>
    let isOdd := (old.length + new.length) % 2 == 1
    let forward := (entries forward).map (extend old new)
    match if isOdd then forward.find? (meets old new backward) else none with
    | some p => some (p.start, (p.start - p.diagonal).toNat)
    | none =>
      let backward := (entries backward).map (extend old.reverse new.reverse)
      match if isOdd then none else backward.find? (meets old new forward) with
      | some p =>
        some (old.length - p.stop, new.length - (p.stop - p.diagonal).toNat)
      | none => meeting? old new rounds forward backward

/-- What becomes of lines that share no first and no last line. -/
def change (recur : List α → List α → List (Piece α)) (old new : List α) : List (Piece α) :=
  match old, new with
  | [], [] => []
  | old, [] => [.gone old]
  | [], new => [.fresh new]
  | old, new =>
    match meeting? old new ((old.length + new.length + 1) / 2 + 1) [] [] with
    | some (x, y) => recur (old.take x) (new.take y) ++ recur (old.drop x) (new.drop y)
    | none => [.gone old, .fresh new]

/-- The pieces between two lists of lines, splitting at most `depth` times in a row. -/
def shortestWithin : Nat → (old new : List α) → List (Piece α)
  | 0, old, new => [.gone old, .fresh new]
  | depth + 1, old, new =>
    let first := commonStart old new
    let old' := old.drop first
    let new' := new.drop first
    let last := commonEnd old' new'
    Piece.keptRun (old.take first) ++
      change (shortestWithin depth) (old'.take (old'.length - last))
        (new'.take (new'.length - last)) ++
      Piece.keptRun (old'.drop (old'.length - last))

/-- The pieces of a shortest way from one list of lines to another. -/
def shortest (old new : List α) : List (Piece α) :=
  shortestWithin (old.length + new.length + 1) old new

omit [DecidableEq α] in
@[simp] theorem beforeAll_append (ps qs : List (Piece α)) :
    beforeAll (ps ++ qs) = beforeAll ps ++ beforeAll qs := by simp [beforeAll]

omit [DecidableEq α] in
@[simp] theorem afterAll_append (ps qs : List (Piece α)) :
    afterAll (ps ++ qs) = afterAll ps ++ afterAll qs := by simp [afterAll]

omit [DecidableEq α] in
@[simp] theorem beforeAll_keptRun (ls : List α) : beforeAll (Piece.keptRun ls) = ls := by
  cases ls <;> simp [Piece.keptRun, beforeAll, Piece.before]

omit [DecidableEq α] in
@[simp] theorem afterAll_keptRun (ls : List α) : afterAll (Piece.keptRun ls) = ls := by
  cases ls <;> simp [Piece.keptRun, afterAll, Piece.after]

theorem sides_change {recur : List α → List α → List (Piece α)}
    (h : ∀ old new, beforeAll (recur old new) = old ∧ afterAll (recur old new) = new)
    (old new : List α) :
    beforeAll (change recur old new) = old ∧ afterAll (change recur old new) = new := by
  unfold change
  split
  · simp [beforeAll, afterAll]
  · simp [beforeAll, afterAll, Piece.before, Piece.after]
  · simp [beforeAll, afterAll, Piece.before, Piece.after]
  · split
    · simp [h]
    · simp [beforeAll, afterAll, Piece.before, Piece.after]

theorem sides_shortestWithin (depth : Nat) (old new : List α) :
    beforeAll (shortestWithin depth old new) = old ∧
      afterAll (shortestWithin depth old new) = new := by
  induction depth generalizing old new with
  | zero => simp [shortestWithin, beforeAll, afterAll, Piece.before, Piece.after]
  | succ depth ih =>
    have sides := sides_change ih
    constructor
    · simp only [shortestWithin, beforeAll_append, beforeAll_keptRun, sides, List.append_assoc,
        List.take_append_drop]
    · simp only [shortestWithin, afterAll_append, afterAll_keptRun, sides, List.append_assoc,
        drop_commonEnd (old.drop (commonStart old new)), take_commonStart old new,
        List.take_append_drop]

/-- The old text is what is kept and gone, the new one what is kept and new. -/
theorem sides_shortest (old new : List α) :
    beforeAll (shortest old new) = old ∧ afterAll (shortest old new) = new :=
  sides_shortestWithin _ old new

end SharpRefactor.Text.Diff
