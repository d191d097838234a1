import SharpRefactor.Proofs.Parsing.Progress

/-!
Programs that fit under a bound: every construct that a run meets is lighter than it. A program that
fits comes to the same result with every reading of constructs that agrees below the bound.
-/

namespace SharpRefactor
namespace Parse

def Fits (read : Construct → ParseState → ParseState) (bound : Nat) :
    {α : Type} → Parse α → ParseState → Prop
  | _, andThen p f, s =>
      p.Fits read bound s ∧ (f (p.run read s).1).Fits read bound (p.run read s).2
  | _, group p, s => p.Fits read bound s.trivia.opened
  | _, wrap _ p, s => p.Fits read bound s
  | _, inner c, s => c.weight s < bound
  | _, _, _ => True

/-- Two readings of constructs that agree below a bound run alike where the bound is kept. -/
theorem run_congr {read read' : Construct → ParseState → ParseState} {bound : Nat}
    (agree : ∀ c s, c.weight s < bound → read c s = read' c s) {α : Type} (p : Parse α)
    (s : ParseState) (fits : p.Fits read bound s) : p.run read s = p.run read' s := by
  induction p generalizing s with
  | done a => rfl
  | andThen p f ihp ihf =>
      have first := ihp s fits.1
      have second := ihf _ _ fits.2
      simp only [run, second, ← first]
  | current => rfl
  | nth? n => rfl
  | ahead question => rfl
  | bump => rfl
  | skip p => rfl
  | fail e => rfl
  | group p ih => simp only [run, ih _ fits]
  | wrap k p ih => simp only [run, ih _ fits]
  | inner c => simp only [run, agree c s fits]

section Fitting

variable {read : Construct → ParseState → ParseState} {bound : Nat} {α β : Type} {s : ParseState}

/-- A run fits below a bound that the tokens left already keep. -/
theorem fits_of_left (falls : ∀ c s, (read c s).left ≤ s.left) (p : Parse α) {s : ParseState}
    (few : 32 * (s.left + 1) ≤ bound) : p.Fits read bound s := by
  induction p generalizing s with
  | andThen p f ihp ihf =>
      have := run_left_le falls p s
      exact ⟨ihp few, ihf _ (by omega)⟩
  | group p ih => exact ih (by simpa using few)
  | wrap k p ih => exact ih few
  | inner c =>
      have := c.weight_lt s
      exact Nat.lt_of_lt_of_le this few
  | _ => trivial

/-- What comes after a part that moves fits. -/
theorem fits_bind (reads : Reads read bound) (heavy : 32 * s.left ≤ bound) {p : Parse α}
    {f : α → Parse β} (first : p.Fits read bound s) (moves : Moves read p s) :
    (p >>= f).Fits read bound s :=
  ⟨first, fits_of_left reads.falls _ (by unfold Moves at moves; omega)⟩

@[simp] theorem fits_bind_iff {p : Parse α} {f : α → Parse β} :
    (p >>= f).Fits read bound s ↔
      p.Fits read bound s ∧ (f (p.run read s).1).Fits read bound (p.run read s).2 := Iff.rfl

@[simp] theorem fits_pure (a : α) : (pure a : Parse α).Fits read bound s := trivial

@[simp] theorem fits_current : current.Fits read bound s := trivial

@[simp] theorem fits_nth? (n : Nat) : (nth? n).Fits read bound s := trivial

@[simp] theorem fits_ahead (question : Lookahead.Question) :
    (ahead question).Fits read bound s := trivial

@[simp] theorem fits_bump : bump.Fits read bound s := trivial

@[simp] theorem fits_skip (p : Kind → Bool) : (skip p).Fits read bound s := trivial

@[simp] theorem fits_fail (e : SyntaxError) : (fail e).Fits read bound s := trivial

@[simp] theorem fits_group {p : Parse α} :
    (group p).Fits read bound s ↔ p.Fits read bound s.trivia.opened := Iff.rfl

@[simp] theorem fits_wrap {k : Kind} {p : Parse α} :
    (wrap k p).Fits read bound s ↔ p.Fits read bound s := Iff.rfl

@[simp] theorem fits_node {k : Kind} {p : Parse α} :
    (node k p).Fits read bound s ↔ p.Fits read bound s.trivia.opened := Iff.rfl

@[simp] theorem fits_inner {c : Construct} :
    (inner c).Fits read bound s ↔ c.weight s < bound := Iff.rfl

@[simp] theorem fits_missing (what : Expected) : (missing what).Fits read bound s := trivial

@[simp] theorem fits_modifiers : modifiers.Fits read bound s := trivial

@[simp] theorem fits_atKind (k : Kind) : (atKind k).Fits read bound s := by simp [atKind]

@[simp] theorem fits_secondIs (k : Kind) : (secondIs k).Fits read bound s := by simp [secondIs]

@[simp] theorem fits_atIdentifier : atIdentifier.Fits read bound s := by simp [atIdentifier]

@[simp] theorem fits_atTypeStart : atTypeStart.Fits read bound s := by simp [atTypeStart]

@[simp] theorem fits_require (k : Kind) (what : Expected) : (require k what).Fits read bound s := by
  simp [require, expect]
  split <;> simp

@[simp] theorem fits_skipMember : skipMember.Fits read bound s := by
  simp [skipMember, skipTo]
  split <;> simp

/-- A node that begins with its own token fits. -/
theorem fits_node_bump (reads : Reads read bound) (heavy : 32 * s.left ≤ bound)
    (more : s.upcoming ≠ .eof) {k : Kind} {f : Unit → Parse α} :
    (node k (bump >>= f)).Fits read bound s :=
  fits_node.mpr <|
    fits_bind reads (by simpa using heavy) fits_bump (moves_bump (by simpa using more))

theorem fits_wrap_bump (reads : Reads read bound) (heavy : 32 * s.left ≤ bound)
    (more : s.upcoming ≠ .eof) {k : Kind} {f : Unit → Parse α} :
    (wrap k (bump >>= f)).Fits read bound s :=
  fits_wrap.mpr (fits_bind reads heavy fits_bump (moves_bump more))

/-- The continuation of a list after a comma fits. -/
theorem fits_comma (reads : Reads read bound) (heavy : 32 * s.left ≤ bound) (p : Parse Unit) :
    (do if ← atKind .comma then (bump >>= fun _ => p) else pure ()).Fits read bound s := by
  refine fits_bind_iff.mpr ⟨fits_atKind _, ?_⟩
  simp only [run_atKind]
  split
  · next h =>
      have comma : s.upcoming = .comma := by simpa using h
      exact fits_bind reads (by simpa using heavy) fits_bump (moves_bump (by simp [comma]))
  · exact fits_pure ()

/-- A node that begins with a required token fits where the token is there. -/
theorem fits_node_require (reads : Reads read bound) (heavy : 32 * s.left ≤ bound) {k j : Kind}
    {what : Expected} {f : Unit → Parse α} (found : s.upcoming = j) (real : j ≠ .eof) :
    (node k (require j what >>= f)).Fits read bound s :=
  fits_node.mpr <|
    fits_bind reads (by simpa using heavy) (fits_require _ _)
      (moves_require (by simpa using found) real)

end Fitting

end Parse
end SharpRefactor
