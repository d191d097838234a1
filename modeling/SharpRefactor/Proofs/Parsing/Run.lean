import SharpRefactor.Syntax.Parse

/-!
What every run of the parser does to its tokens. A program moves tokens from the front to the open
level and builds nodes over what it moved, so the built trees followed by the tokens that are left
always spell the same tokens, and the number of significant tokens that are left never grows. Both
facts hold of any program of the grammar; no rule is looked at here.
-/

namespace SharpRefactor
namespace Lookahead

@[simp] theorem nextKind_nil : nextKind [] = .eof := rfl

theorem nextKind_cons_trivia {t : Token} (h : t.isTrivia) (ts : List Token) :
    nextKind (t :: ts) = nextKind ts := by
  simp [nextKind, next, h]

theorem nextKind_cons {t : Token} (h : ¬ t.isTrivia) (ts : List Token) :
    nextKind (t :: ts) = t.kind := by
  simp [nextKind, next, h]

theorem significant_cons (t : Token) (ts : List Token) :
    significant (t :: ts) = significant ts + if t.isTrivia then 0 else 1 := by
  cases h : t.isTrivia <;> simp [significant, h]

theorem significant_dropWhile_le (p : Token → Bool) (ts : List Token) :
    significant (ts.dropWhile p) ≤ significant ts :=
  (List.dropWhile_sublist p).countP_le

/-- A text with nothing but trivia ahead is at its end. -/
theorem nextKind_of_significant {ts : List Token} (h : significant ts = 0) : nextKind ts = .eof := by
  induction ts with
  | nil => rfl
  | cons t ts ih =>
      cases ht : t.isTrivia with
      | true =>
          rw [nextKind_cons_trivia ht]
          exact ih (by simpa [significant_cons, ht] using h)
      | false => simp [significant_cons, ht] at h

theorem significant_pos {ts : List Token} (h : nextKind ts ≠ .eof) : 0 < significant ts :=
  Nat.pos_of_ne_zero fun none => h (nextKind_of_significant none)

/-- Where no token claims to be the end of the text, only the end looks like it. -/
theorem significant_of_nextKind {ts : List Token} (real : ∀ t ∈ ts, t.kind ≠ .eof)
    (h : nextKind ts = .eof) : significant ts = 0 := by
  induction ts with
  | nil => rfl
  | cons t ts ih =>
      have rest : ∀ u ∈ ts, u.kind ≠ .eof := fun u hu => real u (List.mem_cons_of_mem t hu)
      cases ht : t.isTrivia with
      | true =>
          rw [nextKind_cons_trivia ht] at h
          simp [significant_cons, ht, ih rest h]
      | false =>
          rw [nextKind_cons (by simp [ht])] at h
          exact absurd h (real t List.mem_cons_self)

theorem significant_dropTrivia (ts : List Token) :
    significant (ts.dropWhile (·.kind.isTrivia)) = significant ts := by
  induction ts with
  | nil => rfl
  | cons t ts ih =>
      rw [List.dropWhile_cons]
      split
      · next h => rw [ih, significant_cons, if_pos (show t.isTrivia = true from h), Nat.add_zero]
      · rfl

theorem dropTrivia_of_significant {ts : List Token} (h : significant ts = 0) :
    ts.dropWhile (·.kind.isTrivia) = [] := by
  induction ts with
  | nil => rfl
  | cons t ts ih =>
      rw [significant_cons] at h
      cases ht : t.isTrivia with
      | true =>
          rw [List.dropWhile_cons, if_pos (show t.kind.isTrivia = true from ht)]
          exact ih (by omega)
      | false => simp [ht] at h

theorem nextKind_dropTrivia (ts : List Token) :
    nextKind (ts.dropWhile (·.kind.isTrivia)) = nextKind ts := by
  induction ts with
  | nil => rfl
  | cons t ts ih =>
      rw [List.dropWhile_cons]
      split
      · next h => rw [ih, nextKind_cons_trivia h]
      · rfl

end Lookahead

namespace ParseState

def left (s : ParseState) : Nat := Lookahead.significant s.tokens

def upcoming (s : ParseState) : Kind := Lookahead.nextKind s.tokens

def yield (s : ParseState) : List Token := Forest.tokens s.level.reverse ++ s.tokens

@[simp] theorem trivia_tokens (s : ParseState) :
    s.trivia.tokens = s.tokens.dropWhile (·.kind.isTrivia) := rfl

@[simp] theorem opened_tokens (s : ParseState) : s.opened.tokens = s.tokens := rfl

@[simp] theorem closed_tokens (s : ParseState) (siblings : List Tree) :
    (s.closed siblings).tokens = s.tokens := rfl

@[simp] theorem wrapped_tokens (s : ParseState) (k : Kind) : (s.wrapped k).tokens = s.tokens := rfl

@[simp] theorem object_tokens (s : ParseState) (e : SyntaxError) :
    (s.object e).tokens = s.tokens := rfl

@[simp] theorem left_trivia (s : ParseState) : s.trivia.left = s.left :=
  Lookahead.significant_dropTrivia s.tokens

@[simp] theorem left_opened (s : ParseState) : s.opened.left = s.left := rfl

@[simp] theorem left_closed (s : ParseState) (siblings : List Tree) :
    (s.closed siblings).left = s.left := rfl

@[simp] theorem left_wrapped (s : ParseState) (k : Kind) : (s.wrapped k).left = s.left := rfl

@[simp] theorem left_object (s : ParseState) (e : SyntaxError) : (s.object e).left = s.left := rfl

@[simp] theorem upcoming_trivia (s : ParseState) : s.trivia.upcoming = s.upcoming :=
  Lookahead.nextKind_dropTrivia s.tokens

@[simp] theorem upcoming_opened (s : ParseState) : s.opened.upcoming = s.upcoming := rfl

@[simp] theorem upcoming_closed (s : ParseState) (siblings : List Tree) :
    (s.closed siblings).upcoming = s.upcoming := rfl

@[simp] theorem upcoming_wrapped (s : ParseState) (k : Kind) :
    (s.wrapped k).upcoming = s.upcoming := rfl

@[simp] theorem upcoming_object (s : ParseState) (e : SyntaxError) :
    (s.object e).upcoming = s.upcoming := rfl

/-- Past the trivia the next token is the next significant one. -/
@[simp] theorem front_trivia (s : ParseState) : s.trivia.front = s.upcoming := by
  have first : ∀ ts : List Token,
      (((ts.dropWhile (·.kind.isTrivia)).head?).map Token.kind).getD .eof =
        Lookahead.nextKind ts := by
    intro ts
    induction ts with
    | nil => rfl
    | cons t ts ih =>
        rw [List.dropWhile_cons]
        split
        · next h => rw [ih, Lookahead.nextKind_cons_trivia h]
        · next h => rw [Lookahead.nextKind_cons h]; rfl
  exact first s.tokens

theorem left_takeWhile_le (s : ParseState) (p : Kind → Bool) : (s.takeWhile p).left ≤ s.left :=
  Lookahead.significant_dropWhile_le _ s.tokens

/-- Moving a token moves the next significant one. -/
@[simp] theorem left_bump (s : ParseState) : s.trivia.takeOne.left = s.left - 1 := by
  have first : ∀ ts : List Token,
      Lookahead.significant (ts.dropWhile (·.kind.isTrivia)).tail = Lookahead.significant ts - 1 := by
    intro ts
    induction ts with
    | nil => rfl
    | cons t ts ih =>
        rw [List.dropWhile_cons, Lookahead.significant_cons]
        split
        · next h =>
            rw [ih, if_pos (show t.isTrivia = true from h)]
            rfl
        · next h =>
            rw [if_neg (show ¬ t.isTrivia = true from h)]
            rfl
  have tail : s.trivia.takeOne.tokens = s.trivia.tokens.tail := by
    unfold takeOne
    split
    · next h => rw [h, List.tail_nil]
    · next h => rw [h, List.tail_cons]
  unfold left
  rw [tail]
  exact first s.tokens

theorem left_pos {s : ParseState} (h : s.upcoming ≠ .eof) : 0 < s.left :=
  Lookahead.significant_pos h

theorem tokens_map_leaf (ts : List Token) : Forest.tokens (ts.map Tree.leaf) = ts := by
  induction ts with
  | nil => rfl
  | cons t ts ih => simp [ih]

theorem yield_takeWhile (s : ParseState) (p : Kind → Bool) : (s.takeWhile p).yield = s.yield := by
  simp only [yield, takeWhile, List.reverse_append, List.reverse_reverse, Forest.tokens_append,
    tokens_map_leaf, List.append_assoc, List.takeWhile_append_dropWhile]

@[simp] theorem yield_trivia (s : ParseState) : s.trivia.yield = s.yield := yield_takeWhile s _

theorem yield_takeOne (s : ParseState) : s.takeOne.yield = s.yield := by
  unfold takeOne
  split
  · rfl
  · next h => simp [yield, h, Forest.tokens_append]

theorem yield_closed {s₁ s : ParseState} (h : s₁.yield = s.tokens) :
    (s₁.closed s.level).yield = s.yield := by
  simp only [yield, closed, List.reverse_append, Forest.tokens_append, List.append_assoc]
  rw [← h, yield]

theorem yield_wrapped (s : ParseState) (k : Kind) : (s.wrapped k).yield = s.yield := by
  simp [yield, wrapped]

section Levels

variable {P : Tree → Prop} {s : ParseState} (leaf : ∀ token, P (.leaf token))
  (all : ∀ t ∈ s.level, P t)

include leaf all

/-- Only tokens come to the level when tokens are moved. -/
theorem forall_level_takeWhile (p : Kind → Bool) : ∀ t ∈ (s.takeWhile p).level, P t := by
  refine List.forall_mem_append.mpr ⟨fun t member => ?_, all⟩
  obtain ⟨token, -, rfl⟩ := List.mem_map.mp (List.mem_reverse.mp member)
  exact leaf token

theorem forall_level_takeOne : ∀ t ∈ s.takeOne.level, P t := by
  unfold takeOne
  split
  · exact all
  · exact List.forall_mem_cons.mpr ⟨leaf _, all⟩

end Levels

end ParseState

namespace Parse

section Running

variable {read : Construct → ParseState → ParseState} {α β : Type}

@[simp] theorem run_pure (a : α) (s : ParseState) : (pure a : Parse α).run read s = (a, s) := rfl

@[simp] theorem run_bind (p : Parse α) (f : α → Parse β) (s : ParseState) :
    (p >>= f).run read s = (f (p.run read s).1).run read (p.run read s).2 := rfl

@[simp] theorem run_current (s : ParseState) :
    current.run read s = (s.upcoming, s.trivia) := by
  simp [run]

@[simp] theorem run_nth? (n : Nat) (s : ParseState) :
    (nth? n).run read s = (Lookahead.nth? n s.tokens, s) := rfl

@[simp] theorem run_ahead (question : Lookahead.Question) (s : ParseState) :
    (ahead question).run read s = (question.ask s.tokens, s) := rfl

@[simp] theorem run_bump (s : ParseState) : bump.run read s = ((), s.trivia.takeOne) := rfl

@[simp] theorem run_skip (p : Kind → Bool) (s : ParseState) :
    (skip p).run read s = ((), s.takeWhile fun k => k.isTrivia || p k) := rfl

@[simp] theorem run_fail (e : SyntaxError) (s : ParseState) :
    (fail e).run read s = ((), s.trivia.object e) := rfl

@[simp] theorem run_group (p : Parse α) (s : ParseState) :
    (group p).run read s =
      ((p.run read s.trivia.opened).1, (p.run read s.trivia.opened).2.closed s.trivia.level) := rfl

@[simp] theorem run_wrap (k : Kind) (p : Parse α) (s : ParseState) :
    (wrap k p).run read s = ((p.run read s).1, (p.run read s).2.wrapped k) := rfl

@[simp] theorem run_inner (c : Construct) (s : ParseState) :
    (inner c).run read s = ((), read c s) := rfl

/-- Every program keeps the tokens, if the reading of constructs does. -/
theorem run_yield (keeps : ∀ c s, (read c s).yield = s.yield) (p : Parse α) (s : ParseState) :
    (p.run read s).2.yield = s.yield := by
  induction p generalizing s with
  | done a => rfl
  | andThen p f ihp ihf => exact (ihf _ _).trans (ihp s)
  | current => exact s.yield_trivia
  | nth? n => rfl
  | ahead question => rfl
  | bump => exact (ParseState.yield_takeOne _).trans s.yield_trivia
  | skip p => exact s.yield_takeWhile _
  | fail e => exact s.yield_trivia
  | group p ih =>
      have inside : (p.run read s.trivia.opened).2.yield = s.trivia.tokens := ih s.trivia.opened
      exact (ParseState.yield_closed inside).trans s.yield_trivia
  | wrap k p ih => exact (ParseState.yield_wrapped _ k).trans (ih s)
  | inner c => exact keeps c s

/-- No program gets a token back. -/
theorem run_left_le (falls : ∀ c s, (read c s).left ≤ s.left) (p : Parse α) (s : ParseState) :
    (p.run read s).2.left ≤ s.left := by
  induction p generalizing s with
  | done a => exact Nat.le_refl _
  | andThen p f ihp ihf => exact Nat.le_trans (ihf _ _) (ihp s)
  | current => exact Nat.le_of_eq s.left_trivia
  | nth? n => exact Nat.le_refl _
  | ahead question => exact Nat.le_refl _
  | bump => exact Nat.le_trans (Nat.le_of_eq s.left_bump) (Nat.sub_le _ _)
  | skip p => exact s.left_takeWhile_le _
  | fail e => exact Nat.le_of_eq s.left_trivia
  | group p ih => exact Nat.le_trans (ih s.trivia.opened) (Nat.le_of_eq s.left_trivia)
  | wrap k p ih => exact ih s
  | inner c => exact falls c s

end Running

end Parse

namespace Construct

/-- Reading a construct, to whatever depth, keeps the tokens. -/
theorem read_yield (depth : Nat) (c : Construct) (s : ParseState) :
    (c.read depth s).yield = s.yield := by
  induction depth generalizing c s with
  | zero => rfl
  | succ depth ih => exact Parse.run_yield ih c.rule s

theorem read_left_le (depth : Nat) (c : Construct) (s : ParseState) :
    (c.read depth s).left ≤ s.left := by
  induction depth generalizing c s with
  | zero => exact Nat.le_refl _
  | succ depth ih => exact Parse.run_left_le ih c.rule s

end Construct
end SharpRefactor
