import SharpRefactor.Proofs.Parsing.Progress.Basic

/-!
Which rules are sure to move a token. A construct that begins with the next token takes at least
that token, provided it is read to a depth beyond its weight.
-/

namespace SharpRefactor
namespace Parse

section Rules

variable {read : Construct → ParseState → ParseState} {bound : Nat} {s : ParseState}

theorem moves_require {k : Kind} {what : Expected} (found : s.upcoming = k) (real : k ≠ .eof) :
    Moves read (require k what) s := by
  have := ParseState.left_pos (found ▸ real)
  simp [Moves, require, expect, found]
  omega

theorem moves_identifierName (h : s.upcoming = .identifier) : Moves read identifierName s :=
  moves_node (moves_require (by simpa using h) (by decide))

theorem moves_genericName (reads : Reads read bound) (h : s.upcoming = .identifier) :
    Moves read genericName s :=
  moves_node_bump reads (by simp [h])

theorem moves_simpleTypeName (reads : Reads read bound) (h : s.upcoming = .identifier) :
    Moves read simpleTypeName s := by
  refine moves_second reads ?_
  split
  · exact moves_genericName reads h
  · exact moves_identifierName h

theorem moves_nameExpression (reads : Reads read bound) (h : s.upcoming = .identifier) :
    Moves read nameExpression s := by
  refine moves_second reads ?_
  split
  · exact moves_genericName reads h
  · exact moves_identifierName h

theorem moves_type (reads : Reads read bound) (begins : Construct.type.begins s.upcoming) :
    Moves read type s := by
  refine moves_group (moves_second reads ?_)
  simp only [run_current, ParseState.upcoming_opened, ParseState.upcoming_trivia]
  split
  · next h =>
      refine moves_first reads (moves_leaf ?_)
      intro none
      simp at none
      simp [none] at h
      contradiction
  · next h =>
      have name : s.upcoming = .identifier := by simpa [Construct.begins, h] using begins
      refine moves_second reads ?_
      rw [if_pos (by simp [name])]
      exact moves_first reads (moves_simpleTypeName reads (by simp [name]))

theorem moves_parameterList (reads : Reads read bound) (h : s.upcoming = .lParen) :
    Moves read parameterList s :=
  moves_node (moves_first reads (moves_require (by simpa using h) (by decide)))

theorem moves_argumentList (reads : Reads read bound) (h : s.upcoming = .lParen) :
    Moves read argumentList s :=
  moves_node (moves_first reads (moves_require (by simpa using h) (by decide)))

theorem not_eof_of_beginsExpression {k : Kind} (h : beginsExpression k = true) : k ≠ .eof := by
  rintro rfl
  exact absurd h (by decide)

theorem moves_operand (reads : Reads read bound) (begins : beginsExpression s.upcoming)
    (unsigned : isSign s.upcoming = false) : Moves read operand s := by
  have more := not_eof_of_beginsExpression begins
  have past : s.trivia.upcoming ≠ .eof := by simpa using more
  refine moves_second reads ?_
  simp only [run_current]
  split
  · exact moves_leaf past
  split
  · exact moves_leaf past
  split
  · exact moves_leaf past
  · exact moves_node_bump reads past
  · exact moves_node_bump reads past
  · next h =>
      have name : s.trivia.upcoming = .identifier := by simpa using h
      refine moves_second reads ?_
      split
      · exact moves_node (moves_first reads (moves_leaf (by simpa using past)))
      · exact moves_nameExpression reads name
  · next h =>
      have paren : s.trivia.upcoming = .lParen := by simpa using h
      refine moves_second reads ?_
      split
      · exact moves_node (moves_first reads (moves_parameterList reads (by simpa using paren)))
      · exact moves_node_bump reads past
  · next literal predefined _ this new delegate identifier paren =>
      simp [beginsExpression, literal, predefined, unsigned] at begins
      rcases begins with h | h | h | h | h
      · exact (identifier h).elim
      · exact (this h).elim
      · exact (new h).elim
      · exact (delegate h).elim
      · exact (paren h).elim

theorem moves_unary (reads : Reads read bound) (begins : beginsExpression s.upcoming) :
    Moves read unary s := by
  have more : s.trivia.opened.trivia.upcoming ≠ .eof := by
    simpa using not_eof_of_beginsExpression begins
  refine moves_group (moves_second reads ?_)
  simp only [run_current, ParseState.upcoming_opened, ParseState.upcoming_trivia]
  split
  · exact moves_node_bump reads more
  · next unsigned =>
      refine moves_second reads ?_
      split
      · exact moves_node_bump reads more
      · refine moves_first reads (moves_operand reads ?_ ?_)
        · simpa using begins
        · simpa using unsigned

theorem moves_expression (reads : Reads read ((Construct.expression n).weight s))
    (begins : beginsExpression s.upcoming) : Moves read (expression n) s := by
  refine moves_group (moves_first reads (moves_inner reads ?_ ?_))
  · simp [Construct.weight, Construct.rank]
  · simpa [Construct.begins] using begins

theorem moves_block (reads : Reads read bound) (begins : s.upcoming = .lBrace) :
    Moves read block s :=
  moves_node (moves_first reads (moves_require (by simpa using begins) (by decide)))

theorem moves_modifiers (modified : s.upcoming.isModifier) : Moves read modifiers s :=
  ParseState.left_takeWhile_lt modified (by intro none; simp [none] at modified; contradiction)

theorem upcoming_modifiers (read : Construct → ParseState → ParseState) (s : ParseState)
    (unmodified : ¬ s.upcoming.isModifier) : (modifiers.run read s).2.upcoming = s.upcoming :=
  ParseState.upcoming_takeWhile (by simpa using unmodified)

theorem left_modifiers_le (read : Construct → ParseState → ParseState) (s : ParseState) :
    (modifiers.run read s).2.left ≤ s.left :=
  s.left_takeWhile_le _

theorem moves_localDeclaration (reads : Reads read bound) (heavy : 32 * s.left < bound)
    (declares : Lookahead.atLocalDeclaration s.tokens) : Moves read localDeclaration s := by
  refine moves_node ?_
  by_cases modified : s.upcoming.isModifier
  · exact moves_first reads (moves_modifiers (by simpa using modified))
  · have begins : Construct.type.begins s.upcoming :=
      (Lookahead.nextKind_of_atLocalDeclaration declares).resolve_left modified
    have stays := upcoming_modifiers read s.trivia.opened (by simpa using modified)
    have fewer := left_modifiers_le read s.trivia.opened
    refine moves_second reads (moves_first reads (moves_node (moves_first reads
      (moves_inner reads ?_ ?_))))
    · simp only [ParseState.left_opened, ParseState.left_trivia] at fewer
      simp only [Construct.weight, Construct.rank, ParseState.left_opened, ParseState.left_trivia]
      omega
    · simpa [stays] using begins

theorem moves_statement (reads : Reads read (Construct.statement.weight s))
    (begins : Construct.statement.begins s.upcoming) : Moves read statement s := by
  have more : s.upcoming ≠ .eof := by
    intro none
    simp [Construct.begins, none] at begins
  have past : s.trivia.upcoming ≠ .eof := by simpa using more
  refine moves_second reads ?_
  simp only [run_current]
  split
  · next brace =>
      refine moves_inner reads ?_ ?_
      · simp [Construct.weight, Construct.rank, brace]
      · simp [Construct.begins, brace]
  · exact moves_leaf past
  · exact moves_node_bump reads past
  · exact moves_node_bump reads past
  · refine moves_second reads ?_
    split
    · next declares =>
        refine moves_localDeclaration reads ?_ ?_
        · simp [Construct.weight, Construct.rank]
        · simpa [Lookahead.Question.ask] using declares
    · split
      · next starts =>
          refine moves_node (moves_first reads (moves_inner reads ?_ ?_))
          · simp [Construct.weight, Construct.rank]
          · simpa [Construct.begins] using starts
      · exact moves_node (moves_second reads (moves_bump (by simpa using more)))

theorem moves_accessor (reads : Reads read bound) (more : s.upcoming ≠ .eof) :
    Moves read accessor s := by
  refine moves_second reads (moves_second reads ?_)
  simp only [run_atIdentifier, run_current]
  split
  · exact moves_node (moves_second reads (moves_bump (by simpa using more)))
  · next known =>
      refine moves_node ?_
      by_cases modified : s.upcoming.isModifier
      · exact moves_first reads (moves_modifiers (by simpa using modified))
      · have name : s.upcoming = .identifier := by simpa [modified] using known
        have stays := upcoming_modifiers read s.trivia.trivia.trivia.opened
          (by simpa using modified)
        refine moves_second reads (moves_first reads (moves_require ?_ (by decide)))
        simpa [stays] using name

theorem moves_typeDeclarationOf (reads : Reads read bound) {declaration : Parse Unit}
    (h : typeDeclarationOf? s.upcoming = some declaration) : Moves read declaration s := by
  have more : s.upcoming ≠ .eof := by
    intro none
    simp [typeDeclarationOf?, none] at h
  unfold typeDeclarationOf? at h
  split at h <;> cases h <;> exact moves_wrap_bump reads more

theorem moves_typedMember (reads : Reads read bound) (heavy : 32 * s.left < bound)
    (begins : Construct.type.begins s.upcoming) : Moves read typedMember s := by
  refine moves_first reads (moves_group (moves_first reads (moves_inner reads ?_ ?_)))
  · simpa [Construct.weight, Construct.rank] using heavy
  · simpa using begins

/-- A member whose modifiers have been read moves. -/
theorem moves_member_unmodified (reads : Reads read bound) (heavy : 32 * s.left < bound)
    (more : s.upcoming ≠ .eof) (goes : s.upcoming ≠ .rBrace) (modified : ¬ s.upcoming.isModifier) :
    Moves read member s := by
  have stays := upcoming_modifiers read s.trivia.opened (by simpa using modified)
  have fewer := left_modifiers_le read s.trivia.opened
  refine moves_group (moves_second reads (moves_second reads ?_))
  generalize (modifiers.run read s.trivia.opened).2 = s' at stays fewer ⊢
  simp only [ParseState.upcoming_opened, ParseState.upcoming_trivia] at stays
  simp only [ParseState.left_opened, ParseState.left_trivia] at fewer
  simp only [run_current]
  have past : s'.trivia.upcoming ≠ .eof := by simpa [stays] using more
  split
  · next declares => exact moves_typeDeclarationOf reads (by simpa using declares)
  split
  · exact moves_first reads (moves_bump past)
  refine moves_second reads ?_
  split
  · exact moves_wrap_bump reads past
  refine moves_second reads ?_
  split
  · next starts =>
      refine moves_typedMember reads ?_ (by simpa [Construct.begins] using starts)
      simp
      omega
  · refine moves_wrap (moves_second reads (moves_second reads ?_))
    rw [if_pos (by simp [stays, goes])]
    exact moves_first reads (moves_bump (by simpa using past))

theorem moves_member (reads : Reads read bound) (heavy : 32 * s.left < bound)
    (more : s.upcoming ≠ .eof) (goes : s.upcoming ≠ .rBrace) : Moves read member s := by
  by_cases modified : s.upcoming.isModifier
  · refine moves_group (moves_first reads ?_)
    exact moves_modifiers (by simpa using modified)
  · exact moves_member_unmodified reads heavy more goes modified

theorem moves_usingDirective (reads : Reads read bound) (h : s.upcoming = .usingKw) :
    Moves read usingDirective s :=
  moves_node (moves_first reads (moves_require (by simpa using h) (by decide)))

theorem moves_typeDeclaration (reads : Reads read bound)
    (h : s.upcoming.isModifier ∨ (typeDeclarationOf? s.upcoming).isSome) :
    Moves read typeDeclaration s := by
  refine moves_group ?_
  by_cases modified : s.upcoming.isModifier
  · exact moves_first reads (moves_modifiers (by simpa using modified))
  have stays := upcoming_modifiers read s.trivia.opened (by simpa using modified)
  refine moves_second reads (moves_second reads ?_)
  generalize (modifiers.run read s.trivia.opened).2 = s' at stays ⊢
  simp only [ParseState.upcoming_opened, ParseState.upcoming_trivia] at stays
  obtain ⟨declaration, declares⟩ := Option.isSome_iff_exists.mp (h.resolve_left modified)
  simp only [run_current, stays, declares]
  exact moves_typeDeclarationOf reads (by simpa [stays] using declares)

/-- Whatever stands between the parts of a file, the next token is taken with it. -/
theorem moves_namespaceMember (reads : Reads read bound) (more : s.upcoming ≠ .eof) :
    Moves read namespaceMember s := by
  refine moves_second reads ?_
  split
  · next h =>
      refine moves_node (moves_first reads (moves_require (k := .namespaceKw) ?_ (by decide)))
      simpa using h
  refine moves_second reads ?_
  simp only [atTypeDeclaration, run_bind, run_current, run_pure]
  split
  · next h =>
      refine moves_typeDeclaration reads ?_
      simp at h
      rcases h with h | h | h | h | h <;> simp [h, typeDeclarationOf?]
  · refine moves_node (moves_second reads (moves_first reads (moves_bump ?_)))
    simpa using more

end Rules
end Parse

namespace Construct

/-- A construct that begins with the next token takes it, if the constructs lighter than it do. -/
theorem rule_moves {read : Construct → ParseState → ParseState} {c : Construct} {s : ParseState}
    (reads : Parse.Reads read (c.weight s)) (begins : c.begins s.upcoming) :
    Parse.Moves read c.rule s := by
  cases c with
  | type => exact Parse.moves_type reads begins
  | unary => exact Parse.moves_unary reads begins
  | expression power => exact Parse.moves_expression reads begins
  | block => exact Parse.moves_block reads (by simpa [Construct.begins] using begins)
  | statement => exact Parse.moves_statement reads begins
  | _ => simp [Construct.begins] at begins

/-- Read to a depth beyond the bound, the constructs lighter than it move. -/
theorem reads (bound : Nat) : ∀ depth, bound ≤ depth → Parse.Reads (read depth) bound := by
  induction bound with
  | zero =>
      intro depth _
      exact ⟨read_left_le depth, fun c s light => absurd light (Nat.not_lt_zero _)⟩
  | succ bound ih =>
      intro depth deep
      obtain ⟨depth, rfl⟩ : ∃ d, depth = d + 1 := ⟨depth - 1, by omega⟩
      have below := ih depth (by omega)
      refine ⟨read_left_le _, fun c s light begins => ?_⟩
      exact rule_moves ⟨below.falls, fun c' s' light' => below.moves c' s' (by omega)⟩ begins

end Construct
end SharpRefactor
