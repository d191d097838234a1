import SharpRefactor.Text.Diff.Piece

/-!
Runs of one kind that meet are joined. Where a run of new lines could as well stand a little higher
or lower, it is moved up and then down as far as it goes; a run that goes stays with the lines it
was found among and only changes places with the new lines beside it.
-/

namespace SharpRefactor.Text.Diff

variable {α : Type} [DecidableEq α]

/-- A run between the runs in front of it, nearest first, and those behind it. -/
structure Focus (α : Type) where
  front : List (Piece α)
  run : Piece α
  behind : List (Piece α)

/-- Puts lines that stay in front of some runs. -/
def keepBefore (ls : List α) : List (Piece α) → List (Piece α)
  | .kept ks :: ps => .kept (ls ++ ks) :: ps
  | ps => .kept ls :: ps

/-- Puts lines that stay behind some runs, the last of which comes first. -/
def keepAfter (ls : List α) : List (Piece α) → List (Piece α)
  | .kept ks :: ps => .kept (ks ++ ls) :: ps
  | ps => .kept ls :: ps

/-- How much lies in some runs, counting the runs themselves. -/
def weight : List (Piece α) → Nat
  | [] => 0
  | p :: ps => p.lines.length + 1 + weight ps

omit [DecidableEq α] in
theorem weight_cons (p : Piece α) (ps : List (Piece α)) :
    weight (p :: ps) = p.lines.length + 1 + weight ps := rfl

omit [DecidableEq α] in
theorem weight_keptRun_append (ls : List α) (ps : List (Piece α)) :
    weight (Piece.keptRun ls ++ ps) ≤ ls.length + 1 + weight ps := by
  cases ls <;> simp [Piece.keptRun, weight, Piece.lines]

/-- How many of the lines in front of a run could as well stand behind it: those with which a run of
new lines ends. -/
def roomAbove (ls : List α) : Piece α → Nat
  | .fresh ms => commonEnd ls ms
  | _ => 0

/-- How many of the lines behind a run could as well stand in front of it: those with which a run of
new lines begins. -/
def roomBelow (ls : List α) : Piece α → Nat
  | .fresh ms => commonStart ls ms
  | _ => 0

theorem roomAbove_le (ls : List α) (p : Piece α) : roomAbove ls p ≤ ls.length := by
  cases p <;> simp [roomAbove, commonEnd_le_left]

theorem roomBelow_le (ls : List α) (p : Piece α) : roomBelow ls p ≤ ls.length := by
  cases p <;> simp [roomBelow, commonStart_le_left]

/-- Moves a run as far up as it goes. -/
def slideUp (front : List (Piece α)) (run : Piece α) (behind : List (Piece α)) : Focus α :=
  match front with
  | [] => ⟨[], run, behind⟩
  | .kept ls :: front =>
    if _h : roomAbove ls run = 0 then
      if ls = [] then slideUp front run behind else ⟨.kept ls :: front, run, behind⟩
    else
      let shared := ls.drop (ls.length - roomAbove ls run)
      slideUp (Piece.keptRun (ls.take (ls.length - roomAbove ls run)) ++ front)
        (run.withLines
          (shared ++ run.lines.take (run.lines.length - roomAbove ls run)))
        (keepBefore shared behind)
  | .gone ls :: front =>
    match run with
    | .gone ms => slideUp front (.gone (ls ++ ms)) behind
    | run => slideUp front run (.gone ls :: behind)
  | .fresh ls :: front =>
    match run with
    | .fresh ms => slideUp front (.fresh (ls ++ ms)) behind
    | run => slideUp front run (.fresh ls :: behind)
termination_by weight front
decreasing_by
  · simp only [weight_cons]; omega
  · have := weight_keptRun_append (ls.take (ls.length - roomAbove ls run)) front
    have := roomAbove_le ls run
    simp only [weight_cons, Piece.lines, List.length_take] at *
    omega
  all_goals simp only [weight_cons]; omega

/-- Moves a run as far down as it goes. -/
def slideDown (front : List (Piece α)) (run : Piece α) (behind : List (Piece α)) : Focus α :=
  match behind with
  | [] => ⟨front, run, []⟩
  | .kept ls :: behind =>
    if _h : roomBelow ls run = 0 then
      if ls = [] then slideDown front run behind else ⟨front, run, .kept ls :: behind⟩
    else
      let shared := ls.take (roomBelow ls run)
      slideDown (keepAfter shared front)
        (run.withLines (run.lines.drop (roomBelow ls run) ++ shared))
        (Piece.keptRun (ls.drop (roomBelow ls run)) ++ behind)
  | .gone ls :: behind =>
    match run with
    | .gone ms => slideDown front (.gone (ms ++ ls)) behind
    | run => slideDown (.gone ls :: front) run behind
  | .fresh ls :: behind =>
    match run with
    | .fresh ms => slideDown front (.fresh (ms ++ ls)) behind
    | run => slideDown (.fresh ls :: front) run behind
termination_by weight behind
decreasing_by
  · simp only [weight_cons]; omega
  · have := weight_keptRun_append (ls.drop (roomBelow ls run)) behind
    have := roomBelow_le ls run
    simp only [weight_cons, Piece.lines, List.length_drop] at *
    omega
  all_goals simp only [weight_cons]; omega

/-- Moves every run of a kind up and then down, from the first to the last. -/
def settleRuns (chosen : Piece α → Bool) :
    Nat → (front behind : List (Piece α)) → List (Piece α)
  | 0, front, behind => front.reverse ++ behind
  | _ + 1, front, [] => front.reverse
  | steps + 1, front, p :: behind =>
    if chosen p then
      let up := slideUp front p behind
      let down := slideDown up.front up.run up.behind
      settleRuns chosen steps (down.run :: down.front) down.behind
    else settleRuns chosen steps (p :: front) behind

/-- The runs in their settled places: first those that go find theirs, then the new ones. -/
def settle (ps : List (Piece α)) : List (Piece α) :=
  let isGone : Piece α → Bool
    | .gone _ => true
    | _ => false
  let isFresh : Piece α → Bool
    | .fresh _ => true
    | _ => false
  let ps := settleRuns isGone (2 * weight ps) [] ps
  settleRuns isFresh (2 * weight ps) [] ps

end SharpRefactor.Text.Diff
