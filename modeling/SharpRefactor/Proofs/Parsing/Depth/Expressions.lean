import SharpRefactor.Proofs.Parsing.Depth.Basic

/-!
The rules for types and for expressions fit under the weights of their constructs. What is met before
a token has been taken decides how much room a rule needs.
-/

namespace SharpRefactor
namespace Parse

section Types

variable {read : Construct → ParseState → ParseState} {bound : Nat} {s : ParseState}

theorem fits_identifierName : identifierName.Fits read bound s := by simp [identifierName]

theorem fits_simpleTypeName (reads : Reads read bound) (heavy : 32 * s.left ≤ bound)
    (h : s.upcoming = .identifier) : simpleTypeName.Fits read bound s := by
  refine fits_bind_iff.mpr ⟨fits_ahead _, ?_⟩
  split
  · exact fits_node_bump reads heavy (by simp [h])
  · exact fits_identifierName

theorem fits_nameExpression (reads : Reads read bound) (heavy : 32 * s.left ≤ bound)
    (h : s.upcoming = .identifier) : nameExpression.Fits read bound s := by
  refine fits_bind_iff.mpr ⟨fits_ahead _, ?_⟩
  split
  · exact fits_node_bump reads heavy (by simp [h])
  · exact fits_identifierName

theorem fits_type (reads : Reads read bound) (heavy : 32 * s.left ≤ bound) :
    type.Fits read bound s := by
  refine fits_group.mpr (fits_bind_iff.mpr ⟨fits_current, ?_⟩)
  simp only [run_current, ParseState.upcoming_opened, ParseState.upcoming_trivia]
  split
  · next h =>
      refine fits_bind reads (by simpa using heavy) (by simp) (moves_leaf ?_)
      intro none
      simp at none
      simp [none] at h
      contradiction
  · refine fits_bind_iff.mpr ⟨fits_atIdentifier, ?_⟩
    split
    · next h =>
        have name : s.upcoming = .identifier := by simpa using h
        exact fits_bind reads (by simpa using heavy)
          (fits_simpleTypeName reads (by simpa using heavy) (by simpa using name))
          (moves_simpleTypeName reads (by simpa using name))
    · exact fits_missing _

theorem fits_qualifiers (reads : Reads read bound) (heavy : 32 * s.left ≤ bound) :
    qualifiers.Fits read bound s := by
  refine fits_bind_iff.mpr ⟨fits_atKind _, fits_bind_iff.mpr ⟨fits_secondIs _, ?_⟩⟩
  simp only [run_atKind, run_secondIs]
  split
  · next h =>
      have more : s.trivia.upcoming ≠ .eof := by simp_all
      exact fits_bind reads (by simpa using heavy)
        (fits_wrap_bump reads (by simpa using heavy) more) (moves_wrap_bump reads more)
  · exact fits_pure ()

theorem fits_atRank : atRank.Fits read bound s := by simp [atRank]

theorem fits_ranks (reads : Reads read bound) (heavy : 32 * s.left ≤ bound) :
    ranks.Fits read bound s := by
  refine fits_bind_iff.mpr ⟨fits_atRank, ?_⟩
  simp only [atRank, run_bind, run_atKind, run_secondIs, run_pure]
  split
  · next h =>
      have more : s.trivia.upcoming ≠ .eof := by simp_all
      exact fits_bind reads (by simpa using heavy)
        (fits_node_bump reads (by simpa using heavy) more) (moves_node_bump reads more)
  · exact fits_pure ()

/-- A comma after a construct, and what goes on after it, fit. -/
theorem fits_inner_comma (reads : Reads read bound) {c : Construct} (light : c.weight s < bound)
    (heavy : 32 * s.left ≤ bound) (p : Parse Unit) :
    (do inner c; if ← atKind .comma then (bump >>= fun _ => p)).Fits read bound s := by
  have := reads.falls c s
  refine fits_bind_iff.mpr ⟨light, fits_comma reads ?_ p⟩
  simp only [run_inner]
  omega

theorem fits_typeArguments (reads : Reads read bound) (heavy : 32 * s.left < bound) :
    typeArguments.Fits read bound s := by
  refine fits_bind_iff.mpr ⟨fits_atTypeStart, ?_⟩
  simp only [run_atTypeStart]
  split
  · refine fits_inner_comma reads ?_ (by simpa using Nat.le_of_lt heavy) _
    simpa [Construct.weight, Construct.rank] using heavy
  · exact fits_missing _

end Types

section Expressions

variable {read : Construct → ParseState → ParseState} {bound : Nat} {s : ParseState}

theorem fits_expression (reads : Reads read bound) (heavy : 32 * s.left + 1 < bound) (power : Nat) :
    (expression power).Fits read bound s := by
  have := reads.falls .unary s.trivia.opened
  simp [expression, Construct.weight, Construct.rank] at this ⊢
  omega

theorem fits_operators (reads : Reads read bound) (heavy : 32 * s.left ≤ bound) (power : Nat) :
    (operators power).Fits read bound s := by
  refine fits_bind_iff.mpr ⟨fits_current, ?_⟩
  simp only [run_current]
  split
  · next h =>
      have more : s.trivia.upcoming ≠ .eof := by
        intro none
        simp at none
        simp [none] at h
        contradiction
      split
      · exact fits_bind reads (by simpa using heavy)
          (fits_wrap_bump reads (by simpa using heavy) more) (moves_wrap_bump reads more)
      · exact fits_pure ()
  · split
    · exact fits_pure ()
    · next h =>
        have more : s.trivia.upcoming ≠ .eof := by
          intro none
          simp at none
          simp [none, bindingPower?] at h
        split
        · exact fits_bind reads (by simpa using heavy)
            (fits_wrap_bump reads (by simpa using heavy) more) (moves_wrap_bump reads more)
        · exact fits_pure ()

theorem fits_argumentList (reads : Reads read bound) (heavy : 32 * s.left ≤ bound)
    (h : s.upcoming = .lParen) : argumentList.Fits read bound s :=
  fits_node_require reads heavy h (by decide)

theorem fits_parameterList (reads : Reads read bound) (heavy : 32 * s.left ≤ bound)
    (h : s.upcoming = .lParen) : parameterList.Fits read bound s :=
  fits_node_require reads heavy h (by decide)

theorem fits_arguments (reads : Reads read bound) (heavy : 32 * s.left + 2 < bound) :
    arguments.Fits read bound s := by
  refine fits_bind_iff.mpr ⟨fits_atKind _, fits_bind_iff.mpr ⟨fits_atKind _, ?_⟩⟩
  simp only [run_atKind]
  split
  · have := reads.falls (.expression 0) s.trivia.trivia.trivia.opened
    refine fits_bind_iff.mpr ⟨?_, fits_comma reads ?_ _⟩
    · simp [Construct.weight, Construct.rank]
      omega
    · simp [node] at this ⊢
      omega
  · exact fits_pure ()

theorem fits_equalsValue (reads : Reads read bound) (heavy : 32 * s.left ≤ bound)
    (h : s.upcoming = .eq) : equalsValue.Fits read bound s :=
  fits_node_bump reads heavy (by simp [h])

theorem fits_parameter (reads : Reads read bound) (heavy : 32 * s.left < bound) :
    parameter.Fits read bound s := by
  refine fits_node.mpr ?_
  simp only [fits_bind_iff, run_atIdentifier, run_secondIs, fits_atIdentifier, fits_secondIs,
    true_and]
  split
  · exact fits_bump
  · refine fits_bind_iff.mpr ⟨fits_atTypeStart, ?_⟩
    simp only [run_atTypeStart]
    split
    · have typed := reads.falls .type s.trivia.opened.trivia.trivia
      simp only [ParseState.left_trivia, ParseState.left_opened] at typed
      have named := run_left_le reads.falls (require .identifier .parameterName)
        (read .type s.trivia.opened.trivia.trivia)
      simp only [fits_bind_iff, fits_inner, fits_require, fits_atKind, true_and, run_atKind,
        run_inner]
      constructor
      · simpa [Construct.weight, Construct.rank] using heavy
      · split
        · next h =>
            refine fits_equalsValue reads ?_ (by simpa using h)
            rw [ParseState.left_trivia]
            omega
        · exact fits_pure ()
    · exact fits_missing _

theorem fits_parameters (reads : Reads read bound) (heavy : 32 * s.left < bound) :
    parameters.Fits read bound s := by
  refine fits_bind_iff.mpr ⟨fits_atKind _, fits_bind_iff.mpr ⟨fits_atKind _, ?_⟩⟩
  simp only [run_atKind]
  split
  · have := run_left_le reads.falls parameter s.trivia.trivia
    simp only [ParseState.left_trivia] at this
    exact fits_bind_iff.mpr
      ⟨fits_parameter reads (by simpa using heavy), fits_comma reads (by omega) _⟩
  · exact fits_pure ()

theorem fits_operand (reads : Reads read bound) (heavy : 32 * s.left ≤ bound) :
    operand.Fits read bound s := by
  have heavy' : 32 * s.trivia.left ≤ bound := by simpa using heavy
  refine fits_bind_iff.mpr ⟨fits_current, ?_⟩
  simp only [run_current]
  split
  · simp
  split
  · simp
  split
  · simp
  · next h => exact fits_node_bump reads heavy' (by simp [h])
  · next h => exact fits_node_bump reads heavy' (by simp [h])
  · next h =>
      have name : s.trivia.upcoming = .identifier := by simpa using h
      refine fits_bind_iff.mpr ⟨fits_secondIs _, ?_⟩
      split
      · exact fits_node.mpr (fits_bind reads (by simpa using heavy) (by simp)
          (moves_leaf (by simp [h])))
      · exact fits_nameExpression reads heavy' name
  · next h =>
      have paren : s.trivia.trivia.opened.upcoming = .lParen := by simpa using h
      refine fits_bind_iff.mpr ⟨fits_ahead _, ?_⟩
      split
      · exact fits_node.mpr (fits_bind reads (by simpa using heavy)
          (fits_parameterList reads (by simpa using heavy) paren)
          (moves_parameterList reads paren))
      · exact fits_node_bump reads heavy' (by simp [h])
  · refine fits_node.mpr (fits_bind_iff.mpr ⟨fits_missing _, ?_⟩)
    split
    · exact fits_bump
    · exact fits_pure ()

theorem fits_unary (reads : Reads read bound) (heavy : 32 * s.left < bound) :
    unary.Fits read bound s := by
  refine fits_group.mpr (fits_bind_iff.mpr ⟨fits_current, ?_⟩)
  simp only [run_current, ParseState.upcoming_opened, ParseState.upcoming_trivia]
  have heavy' : 32 * s.trivia.opened.trivia.left ≤ bound := by simpa using Nat.le_of_lt heavy
  split
  · next h =>
      refine fits_node_bump reads heavy' ?_
      intro none
      simp at none
      simp [none] at h
      contradiction
  · refine fits_bind_iff.mpr ⟨fits_ahead _, ?_⟩
    split
    · next h => exact fits_node_bump reads heavy' (by simp_all)
    · have := run_left_le reads.falls operand s.trivia.opened.trivia
      refine fits_bind_iff.mpr ⟨fits_operand reads heavy', ?_⟩
      simp [Construct.weight, Construct.rank] at this ⊢
      omega

theorem fits_suffixes (reads : Reads read bound) (heavy : 32 * s.left ≤ bound) :
    suffixes.Fits read bound s := by
  have heavy' : 32 * s.trivia.left ≤ bound := by simpa using heavy
  refine fits_bind_iff.mpr ⟨fits_current, ?_⟩
  simp only [run_current]
  split
  · next h =>
      have more : s.trivia.upcoming ≠ .eof := by simp [h]
      exact fits_bind reads heavy' (fits_wrap_bump reads heavy' more) (moves_wrap_bump reads more)
  · next h =>
      have paren : s.trivia.upcoming = .lParen := by simpa using h
      exact fits_bind reads heavy' (fits_wrap.mpr (fits_argumentList reads heavy' paren))
        (moves_wrap (moves_argumentList reads paren))
  · next h => exact fits_bind reads heavy' (by simp) (moves_wrap (moves_bump (by simp [h])))
  · next h => exact fits_bind reads heavy' (by simp) (moves_wrap (moves_bump (by simp [h])))
  · exact fits_pure ()

end Expressions

end Parse
end SharpRefactor
