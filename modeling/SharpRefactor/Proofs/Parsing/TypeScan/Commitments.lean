import SharpRefactor.Proofs.Parsing.TypeScan.Reads

/-!
What the parser commits itself to when a scan has passed a type: a cast is read up to its operand, and
the declaration of a local up to its name and what follows that.
-/

namespace SharpRefactor

open Lookahead BareState

open Relation

namespace Lookahead

theorem afterType?_eq_none_iff {ts : List Token} :
    afterType? ts = none ↔ nextKind ts ≠ .identifier ∧ (nextKind ts).isPredefinedType = false := by
  by_cases name : nextKind ts = .identifier
  · simp [afterType?_name name, name]
  by_cases keyword : (nextKind ts).isPredefinedType
  · simp [afterType?_keyword keyword, keyword]
  · have keyword := Bool.eq_false_iff.mpr keyword
    simp [afterType?_of_ne name keyword, name, keyword]

end Lookahead

/-- After its first part a program goes on with the result of that part. -/
theorem begins_rest {α β : Type} (p : Parse α) (f : α → Parse β) (s : ParseState) :
    Begins ⟨p >>= f, s⟩ ⟨f (p.run Construct.readAll s).1, (p.run Construct.readAll s).2⟩ :=
  .inr ⟨_, _, Parse.runs_run p s, rfl⟩

section Commitment

variable {s : ParseState} {rest : List Token}

/-- Bumping takes the next significant token. -/
@[simp] theorem ParseState.tokens_bump (s : ParseState) : s.trivia.takeOne.tokens = past s.tokens := by
  have tail : s.trivia.takeOne.tokens = (dropTrivia s.tokens).tail := by
    unfold ParseState.takeOne
    split
    · next h => rw [h, show dropTrivia s.tokens = [] from h, List.tail_nil]
    · next h => rw [show dropTrivia s.tokens = _ from h, List.tail_cons]
  rw [tail]
  induction s.tokens with
  | nil => rfl
  | cons t ts ih =>
      rw [dropTrivia, List.dropWhile_cons]
      split
      · next trivia =>
          rw [past_cons_trivia trivia]
          exact ih
      · next solid => rw [past_cons solid, List.tail_cons]

@[simp] theorem ParseState.errors_bump (s : ParseState) : s.trivia.takeOne.errors = s.errors := by
  unfold ParseState.takeOne
  split <;> rfl

theorem ParseState.bare_level_bump {k : Kind} (s : ParseState) (found : s.upcoming = k)
    (real : k ≠ .eof) :
    ∃ t : Token, t.kind = k ∧
      Forest.bare s.trivia.takeOne.level = .leaf t :: Forest.bare s.level := by
  rw [ParseState.upcoming_bare] at found
  obtain ⟨t, ts, tokens, kind⟩ := exists_of_front (solid_bare s) found real
  have bumped := congrArg BareState.level s.bare_bump
  rw [BareState.takeOne, tokens] at bumped
  exact ⟨t, kind, bumped⟩

/-- A token that is required and there is moved. -/
theorem Parse.run_require {read : Construct → ParseState → ParseState} {k : Kind} {what : Expected}
    (found : s.upcoming = k) :
    ((require k what).run read s).2 = s.trivia.trivia.takeOne := by
  simp [require, expect, found]

theorem begins_cast (opens : s.upcoming = .lParen) (cast : atCast s.tokens = true) :
    TransGen Begins ⟨.inner .unary, s⟩ ⟨Parse.cast, s.trivia.opened.trivia⟩ := by
  have head : Begins ⟨.inner .unary, s⟩ ⟨Parse.unary, s⟩ := rfl
  refine .tail (.tail (.tail (.single head) rfl) (begins_rest _ _ _)) ?_
  have asked : atCast s.trivia.opened.trivia.tokens = true := by
    rwa [← atCast_bare, bareTokens_trivia, ParseState.opened_tokens, bareTokens_trivia, atCast_bare]
  simp only [Parse.run_current, ParseState.upcoming_opened, ParseState.upcoming_trivia, opens]
  refine .inr ⟨true, _, ?_, rfl⟩
  exact asked ▸ .ahead .cast s.trivia.opened.trivia

/-- The operand of a cast is read after a type in parentheses, without objections before it. -/
theorem begins_castOperand (scan : afterType? (past s.tokens) = some rest)
    (closes : nextKind rest = .rParen) (real : s.upcoming ≠ .eof) :
    ∃ m : ParseState, TransGen Begins ⟨Parse.cast, s⟩ ⟨.inner .unary, m⟩ ∧
      m.tokens = past rest ∧ m.errors = s.errors ∧
      ∃ (o c : Token) (T : Tree), o.kind = s.upcoming ∧ Spells .whole [T] ∧ c.kind = .rParen ∧
        Forest.bare m.level.reverse = [.leaf o, T, .leaf c] := by
  let b := s.trivia.opened.trivia.takeOne
  let t := Construct.type.readAll b
  have tokens : b.tokens = past s.tokens := by simp [b]
  have read : ReadsType b rest t := Construct.readsType_of_scan (by rw [tokens]; exact scan)
  have found : t.upcoming = .rParen := by
    rw [ParseState.upcoming, read.tokens, nextKind_drop, closes]
  have chain : TransGen Begins ⟨Parse.cast, s⟩ ⟨.inner .unary, t.trivia.trivia.takeOne⟩ := by
    refine .tail (.tail (.tail (.tail (.single rfl) rfl) (begins_rest _ _ _)) (begins_rest _ _ _)) ?_
    refine .inr ⟨(), _, ?_, rfl⟩
    have runs := Parse.runs_run (Parse.require .rParen .rightParen) t
    rwa [Parse.run_require found] at runs
  refine ⟨_, chain, ?_, ?_, ?_⟩
  · simp [read.tokens]
  · rw [ParseState.errors_bump]
    exact read.errors.trans (ParseState.errors_bump _)
  · obtain ⟨T, whole, -, state⟩ := Construct.type_bare_of_scan (s := b) (by rw [tokens]; exact scan)
    obtain ⟨o, first, opened⟩ := s.trivia.opened.bare_level_bump (k := s.upcoming) (by simp) real
    obtain ⟨c, last, closed⟩ := t.trivia.bare_level_bump (k := .rParen) (by simp [found]) (by simp)
    have level : Forest.bare t.trivia.level = T :: Forest.bare b.level :=
      (congrArg BareState.level t.bare_trivia).trans (congrArg BareState.level state)
    refine ⟨o, c, T, first, whole, last, ?_⟩
    rw [Forest.bare_reverse, closed, level, opened]
    rfl

theorem not_of_mem_head_dropWhile {p : Token → Bool} {ts : List Token} {t : Token}
    (h : t ∈ (ts.dropWhile p).head?) : p t = false := by
  have stopped := List.head?_dropWhile_not p ts
  rw [Option.mem_def.mp h] at stopped
  simpa using stopped

theorem dropWhile_of_head {p : Token → Bool} {ts : List Token} (h : ∀ t ∈ ts.head?, p t = false) :
    ts.dropWhile p = ts := by
  cases ts with
  | nil => rfl
  | cons t ts => rw [List.dropWhile_cons_of_neg (by simp [h t rfl])]

theorem dropWhile_dropWhile {p q : Token → Bool} (imp : ∀ t, p t = true → q t = true)
    (ts : List Token) :
    (ts.dropWhile p).dropWhile q = ts.dropWhile q := by
  induction ts with
  | nil => rfl
  | cons t ts ih =>
      rw [List.dropWhile_cons]
      split
      · next skipped => rw [ih, List.dropWhile_cons_of_pos (imp t skipped)]
      · rfl

theorem Kind.of_isModifier {k : Kind} (h : k.isModifier) :
    k ≠ .identifier ∧ k.isPredefinedType = false := by
  cases k <;> first | cases h; done | simp [Kind.isPredefinedType]

/-- The tokens in front of which a local variable is declared: the modifiers are passed, and what
stands after them is a type, a name and what can follow the name. -/
theorem atLocalDeclaration_shape {ts : List Token} (declares : atLocalDeclaration ts = true) :
    ∃ us rest, afterType? us = some rest ∧ nextKind rest = .identifier ∧
      nextKind (past rest) ∈ [Kind.eq, .semicolon, .comma] ∧
      (∀ t ∈ us.head?, t.isTrivia = false ∧ t.kind.isModifier = false) ∧
      us = ts.dropWhile fun t => t.isTrivia || t.kind == .constKw := by
  rw [atLocalDeclaration] at declares
  generalize shape : ts.dropWhile (fun t => t.isTrivia || t.kind == .constKw) = us at declares
  cases scan : afterType? us with
  | none =>
      rw [scan] at declares
      cases declares
  | some rest =>
      simp only [scan, next_eq] at declares
      split at declares
      case h_2 => cases declares
      case h_1 named =>
        obtain ⟨name, rfl⟩ := Prod.mk.inj named
        refine ⟨us, rest, scan, name, by simpa using declares, fun t first => ?_, rfl⟩
        have stopped : (t.isTrivia || t.kind == .constKw) = false :=
          not_of_mem_head_dropWhile (shape ▸ first)
        have solid : t.isTrivia = false := (Bool.or_eq_false_iff.mp stopped).1
        obtain ⟨more, rfl⟩ := List.head?_eq_some_iff.mp first
        refine ⟨solid, Bool.of_not_eq_true fun modifier => ?_⟩
        have begins : afterType? (t :: more) ≠ none := by simp [scan]
        rw [Ne, afterType?_eq_none_iff, nextKind_cons (by simp [solid])] at begins
        exact begins (Kind.of_isModifier modifier)

/-- A local variable is declared from a constant's mark or from a type on. -/
theorem front_of_atLocalDeclaration {ts : List Token} (declares : atLocalDeclaration ts = true) :
    nextKind ts = .constKw ∨ nextKind ts = .identifier ∨ (nextKind ts).isPredefinedType := by
  obtain ⟨us, rest, scan, -, -, -, shape⟩ := atLocalDeclaration_shape declares
  by_cases const : nextKind ts = .constKw
  · exact .inl const
  refine .inr (Decidable.byContradiction fun other => ?_)
  have stays : (dropTrivia ts).dropWhile (fun t => t.isTrivia || t.kind == .constKw) =
      dropTrivia ts := by
    refine dropWhile_of_head fun t first => ?_
    have solid : t.isTrivia = false := not_of_mem_head_dropWhile first
    obtain ⟨more, split⟩ := List.head?_eq_some_iff.mp first
    have kind := nextKind_drop ts
    rw [split, nextKind_cons (by simp [solid])] at kind
    simp [solid, kind, const]
  have stops : us = dropTrivia ts := by
    rw [shape, ← stays]
    exact (dropWhile_dropWhile (p := fun t => t.kind.isTrivia)
      (fun t trivia => Bool.or_eq_true_iff.mpr (.inl trivia)) ts).symm
  have none : afterType? us = none := by
    rw [afterType?_eq_none_iff, stops, nextKind_drop]
    simpa using other
  rw [none] at scan
  cases scan

theorem begins_localDeclaration (declares : atLocalDeclaration s.tokens = true) :
    TransGen Begins ⟨.inner .statement, s⟩ ⟨Parse.localDeclaration, s.trivia⟩ := by
  have head : Begins ⟨.inner .statement, s⟩ ⟨Parse.statement, s⟩ := rfl
  refine .tail (.tail (.single head) (begins_rest _ _ _)) ?_
  have asked : atLocalDeclaration s.trivia.tokens = true := by
    rwa [← atLocalDeclaration_bare, bareTokens_trivia, atLocalDeclaration_bare]
  have runs : (Parse.ahead .localDeclaration).Runs s.trivia true s.trivia :=
    asked ▸ .ahead .localDeclaration s.trivia
  have front : s.upcoming = .constKw ∨ s.upcoming = .identifier ∨ s.upcoming.isPredefinedType :=
    front_of_atLocalDeclaration declares
  rw [Parse.run_current]
  dsimp only
  rcases front with const | name | keyword
  · rw [const]
    exact .inr ⟨true, _, runs, rfl⟩
  · rw [name]
    exact .inr ⟨true, _, runs, rfl⟩
  · generalize s.upcoming = k at keyword
    cases k <;> first | exact .inr ⟨true, _, runs, rfl⟩ | cases keyword

/-- The declarators of a local are read after its type, and what may follow the first name after
that name, without objections before it. -/
theorem begins_declared (declares : atLocalDeclaration s.tokens = true) :
    ∃ t m : ParseState,
      TransGen Begins ⟨Parse.localDeclaration, s⟩ ⟨.inner .declarators, t⟩ ∧
      TransGen Begins ⟨.inner .declarators, t⟩
        ⟨do if ← Parse.atKind .eq then Parse.equalsValue, m⟩ ∧
      m.upcoming ∈ [Kind.eq, .semicolon, .comma] ∧ m.errors = s.errors ∧
      (∃ T, Spells .whole [T] ∧ Forest.bare t.level = [T]) ∧
      ∃ name : Token, name.kind = .identifier ∧ Forest.bare m.level = [.leaf name] := by
  obtain ⟨us, rest, scan, name, follows, front, shape⟩ := atLocalDeclaration_shape declares
  let b := (s.trivia.opened.takeWhile fun k => k.isTrivia || k.isModifier).trivia.opened
  let t := Construct.type.readAll b
  -- Reading skips modifiers where the scan skips the marks of a constant. Both end at the same token,
  -- since the scan has found a type there and no type begins with a modifier.
  have tokens : b.tokens = us := by
    have stops : us.dropWhile (fun t => t.kind.isTrivia || t.kind.isModifier) = us :=
      dropWhile_of_head fun t first => by simpa [Token.isTrivia] using front t first
    have passed : s.tokens.dropWhile (fun t => t.kind.isTrivia || t.kind.isModifier) = us := by
      rw [← stops, shape, dropWhile_dropWhile]
      intro t skipped
      rcases Bool.or_eq_true_iff.mp skipped with trivia | const
      · exact Bool.or_eq_true_iff.mpr (.inl trivia)
      · simp [beq_iff_eq.mp const, Kind.isModifier]
    simp only [b, ParseState.opened_tokens, ParseState.trivia_tokens, ParseState.takeWhile]
    rw [dropWhile_dropWhile (p := fun t => t.kind.isTrivia)
      fun t trivia => Bool.or_eq_true_iff.mpr (.inl trivia), passed]
    exact dropWhile_of_head fun t first => (front t first).1
  have read : ReadsType b rest t := Construct.readsType_of_scan (by rw [tokens]; exact scan)
  have found : t.upcoming = .identifier := by
    rw [ParseState.upcoming, read.tokens, nextKind_drop, name]
  let m := t.trivia.opened.trivia.trivia.takeOne
  have after : m.tokens = past rest := by simp [m, read.tokens]
  refine ⟨t, m, ?_, ?_, ?_, ?_, ?_, ?_⟩
  · refine .tail (.tail (.tail (.tail (.tail (.tail (.single rfl) rfl) (begins_rest _ _ _)) (.inl rfl))
      rfl) rfl) ?_
    exact begins_rest _ _ _
  · refine .tail (.tail (.tail (.tail (.single rfl) (.inl rfl)) rfl) rfl) (.inr ⟨(), m, ?_, rfl⟩)
    have run := Parse.runs_run (.require .identifier .variableName) t.trivia.opened
    rwa [Parse.run_require (by simp [found])] at run
  · rw [ParseState.upcoming, after]
    exact follows
  · rw [ParseState.errors_bump]
    exact read.errors
  · obtain ⟨T, whole, -, state⟩ := Construct.type_bare_of_scan (s := b) (by rw [tokens]; exact scan)
    exact ⟨T, whole, congrArg BareState.level state⟩
  · obtain ⟨name, kind, level⟩ := t.trivia.opened.trivia.bare_level_bump (k := .identifier)
      (by simp [found]) (by simp)
    refine ⟨name, kind, level.trans ?_⟩
    exact congrArg _ (congrArg BareState.level t.trivia.opened.bare_trivia)

end Commitment

end SharpRefactor
