import SharpRefactor.Proofs.Parsing.Run

/-!
Taking tokens. The weight of a construct counts the significant tokens left and, among constructs that
begin at one token, the constructs that can still be met before it is taken.
-/

namespace SharpRefactor
namespace Construct

/-- The number of constructs that can be met inside this one before a token is taken. A block
without its brace goes on to its statements at once, so the next token counts. -/
def rank (front : Kind) : Construct → Nat
  | .block => if front = .lBrace then 0 else 5
  | .statements => 4
  | .statement => 3
  | .arguments => 3
  | .expression _ => 2
  | .unary | .baseTypes | .typeArguments | .parameters | .members | .namespaceBody _ => 1
  | .usings | .namespaceMembers _ | .typeParameters | .declarators | .type | .qualifiers | .ranks
  | .operators _ | .suffixes | .accessors => 0

/-- What falls from each construct to the constructs read inside it. -/
def weight (c : Construct) (s : ParseState) : Nat := 32 * s.left + c.rank s.upcoming

def begins (front : Kind) : Construct → Bool
  | .type => front == .identifier || front.isPredefinedType
  | .unary | .expression _ => Parse.beginsExpression front
  | .block => front == .lBrace
  | .statement => front != .rBrace && front != .eof
  | _ => false

theorem rank_lt (front : Kind) (c : Construct) : c.rank front < 32 := by
  cases c <;> simp only [rank] <;> try split
  all_goals omega

theorem weight_lt (c : Construct) (s : ParseState) : c.weight s < 32 * (s.left + 1) := by
  have := c.rank_lt s.upcoming
  unfold weight
  omega

end Construct

namespace Lookahead

/-- A scan of a type passes the token that a type begins with. -/
theorem nextKind_of_scanType {n : Nat} {ts rest : List Token} (h : scanType n ts = some rest) :
    Construct.type.begins (nextKind ts) := by
  cases n with
  | zero => simp [scanType] at h
  | succ n =>
      unfold scanType at h
      unfold nextKind
      split at h
      · next front => rw [front]; rfl
      · next front => rw [front]; simp_all [Construct.begins]

/-- A local declaration begins with a modifier or with its type. -/
theorem nextKind_of_atLocalDeclaration {ts : List Token} (h : atLocalDeclaration ts) :
    (nextKind ts).isModifier ∨ Construct.type.begins (nextKind ts) := by
  induction ts with
  | nil => exact absurd h (by decide)
  | cons t ts ih =>
      cases ht : t.isTrivia with
      | true =>
          rw [nextKind_cons_trivia ht]
          refine ih ?_
          unfold atLocalDeclaration at h ⊢
          rwa [List.dropWhile_cons, if_pos (by simp [ht])] at h
      | false =>
          rw [nextKind_cons (by simp [ht])]
          by_cases hc : t.kind = .constKw
          · exact .inl (by rw [hc]; rfl)
          · refine .inr ?_
            unfold atLocalDeclaration at h
            rw [List.dropWhile_cons, if_neg (by simp [ht, hc])] at h
            split at h
            · contradiction
            · next scanned =>
                have front := nextKind_cons (by simp [ht] : ¬ t.isTrivia) ts
                exact front ▸ nextKind_of_scanType scanned

end Lookahead

namespace ParseState

/-- A token that a run does not skip ends it. -/
theorem upcoming_takeWhile {s : ParseState} {p : Kind → Bool} (stops : p s.upcoming = false) :
    (s.takeWhile fun k => k.isTrivia || p k).upcoming = s.upcoming := by
  have first : ∀ ts : List Token, p (Lookahead.nextKind ts) = false →
      Lookahead.nextKind (ts.dropWhile fun t => t.kind.isTrivia || p t.kind) =
        Lookahead.nextKind ts := by
    intro ts
    induction ts with
    | nil => exact fun _ => rfl
    | cons t ts ih =>
        intro h
        cases ht : t.kind.isTrivia with
        | true =>
            rw [Lookahead.nextKind_cons_trivia ht] at h ⊢
            rw [List.dropWhile_cons, if_pos (by simp [ht]), ih h]
        | false =>
            rw [Lookahead.nextKind_cons (by simp [Token.isTrivia, ht])] at h
            rw [List.dropWhile_cons, if_neg (by simp [ht, h])]
  exact first s.tokens stops

/-- A run that skips the next significant token moves it. -/
theorem left_takeWhile_lt {s : ParseState} {p : Kind → Bool} (goes : p s.upcoming = true)
    (more : s.upcoming ≠ .eof) : (s.takeWhile fun k => k.isTrivia || p k).left < s.left := by
  have first : ∀ ts : List Token, p (Lookahead.nextKind ts) = true →
      Lookahead.nextKind ts ≠ .eof →
      Lookahead.significant (ts.dropWhile fun t => t.kind.isTrivia || p t.kind) <
        Lookahead.significant ts := by
    intro ts
    induction ts with
    | nil => exact fun _ h => absurd rfl h
    | cons t ts ih =>
        intro h more
        rw [Lookahead.significant_cons, List.dropWhile_cons]
        cases ht : t.kind.isTrivia with
        | true =>
            rw [Lookahead.nextKind_cons_trivia ht] at h more
            rw [if_pos (by simp), if_pos (show t.isTrivia = true from ht), Nat.add_zero]
            exact ih h more
        | false =>
            have tail := Lookahead.significant_dropWhile_le
              (fun t => t.kind.isTrivia || p t.kind) ts
            rw [Lookahead.nextKind_cons (by simp [Token.isTrivia, ht])] at h
            rw [if_pos (by simp [h]), if_neg (by simp [Token.isTrivia, ht])]
            omega
  exact first s.tokens goes more

end ParseState

namespace Parse

def Moves (read : Construct → ParseState → ParseState) {α : Type} (p : Parse α)
    (s : ParseState) : Prop :=
  (p.run read s).2.left < s.left

/-- A reading of constructs that gets no token back, and takes one of each construct lighter than a
bound that begins with the next token. -/
structure Reads (read : Construct → ParseState → ParseState) (bound : Nat) : Prop where
  falls : ∀ c s, (read c s).left ≤ s.left
  moves : ∀ c s, c.weight s < bound → c.begins s.upcoming → (read c s).left < s.left

section Moving

variable {read : Construct → ParseState → ParseState} {bound : Nat} {α β : Type} {s : ParseState}

theorem moves_bump (more : s.upcoming ≠ .eof) : Moves read bump s := by
  have := ParseState.left_pos more
  simp only [Moves, run_bump, ParseState.left_bump]
  omega

/-- What the first part of a program takes stays taken. -/
theorem moves_first (reads : Reads read bound) {p : Parse α} {f : α → Parse β}
    (h : Moves read p s) : Moves read (p >>= f) s :=
  Nat.lt_of_le_of_lt (run_left_le reads.falls (f _) _) h

theorem moves_second (reads : Reads read bound) {p : Parse α} {f : α → Parse β}
    (h : Moves read (f (p.run read s).1) (p.run read s).2) : Moves read (p >>= f) s :=
  Nat.lt_of_lt_of_le h (run_left_le reads.falls p s)

theorem moves_group {p : Parse α} (h : Moves read p s.trivia.opened) : Moves read (group p) s := by
  simpa [Moves] using h

theorem moves_wrap {k : Kind} {p : Parse α} (h : Moves read p s) : Moves read (wrap k p) s := by
  simpa [Moves] using h

theorem moves_node {k : Kind} {p : Parse α} (h : Moves read p s.trivia.opened) :
    Moves read (node k p) s :=
  moves_group (moves_wrap h)

theorem moves_inner (reads : Reads read bound) {c : Construct} (light : c.weight s < bound)
    (begins : c.begins s.upcoming) : Moves read (inner c) s :=
  reads.moves c s light begins

/-- A node that begins with its own token takes it. -/
theorem moves_node_bump (reads : Reads read bound) {k : Kind} {f : Unit → Parse α}
    (more : s.upcoming ≠ .eof) : Moves read (node k (bump >>= f)) s :=
  moves_node (moves_first reads (moves_bump (by simpa using more)))

theorem moves_wrap_bump (reads : Reads read bound) {k : Kind} {f : Unit → Parse α}
    (more : s.upcoming ≠ .eof) : Moves read (wrap k (bump >>= f)) s :=
  moves_wrap (moves_first reads (moves_bump more))

theorem moves_leaf {k : Kind} (more : s.upcoming ≠ .eof) : Moves read (node k bump) s :=
  moves_node (moves_bump (by simpa using more))

end Moving

section Asking

variable {read : Construct → ParseState → ParseState} (s : ParseState)

@[simp] theorem run_atKind (k : Kind) :
    (atKind k).run read s = (s.upcoming == k, s.trivia) := by
  simp [atKind]

@[simp] theorem run_secondIs (k : Kind) :
    (secondIs k).run read s = (Lookahead.nth? 1 s.tokens == some k, s) := by
  simp [secondIs]

@[simp] theorem run_atIdentifier :
    atIdentifier.run read s = (s.upcoming == .identifier, s.trivia) := by
  simp [atIdentifier]

@[simp] theorem run_atTypeStart :
    atTypeStart.run read s =
      (s.upcoming == .identifier || s.upcoming.isPredefinedType, s.trivia) := by
  simp [atTypeStart]

@[simp] theorem run_missing (what : Expected) :
    (missing what).run read s = ((), s.trivia.object (.expected what)) := rfl

end Asking

end Parse
end SharpRefactor
