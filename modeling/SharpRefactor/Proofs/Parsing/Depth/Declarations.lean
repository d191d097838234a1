import SharpRefactor.Proofs.Parsing.Depth.Expressions

/-!
The rules for statements, for members and for declarations fit under the weights of their constructs.
-/

namespace SharpRefactor
namespace Parse

section Statements

variable {read : Construct → ParseState → ParseState} {bound : Nat} {s : ParseState}

/-- A block meets its statements only after its brace, or else counts for more than they do. -/
theorem fits_block (reads : Reads read bound) (heavy : Construct.block.weight s ≤ bound) :
    block.Fits read bound s := by
  by_cases brace : s.upcoming = .lBrace
  · refine fits_node_require reads ?_ brace (by decide)
    simp [Construct.weight, Construct.rank, brace] at heavy
    exact heavy
  · have := run_left_le reads.falls (require .lBrace .leftBrace) s.trivia.opened
    simp [block, Construct.weight, Construct.rank, brace] at this heavy ⊢
    omega

theorem fits_statements (reads : Reads read bound) (heavy : 32 * s.left + 3 < bound) :
    statements.Fits read bound s := by
  refine fits_bind_iff.mpr ⟨fits_atKind _, fits_bind_iff.mpr ⟨fits_atKind _, ?_⟩⟩
  simp only [run_atKind]
  split
  · next h =>
      have light : Construct.statement.weight s.trivia.trivia < bound := by
        simpa [Construct.weight, Construct.rank] using heavy
      have begins : Construct.statement.begins s.trivia.trivia.upcoming := by
        simpa [Construct.begins] using h
      exact fits_bind reads (by simp; omega) light (moves_inner reads light begins)
  · exact fits_pure ()

theorem fits_declarators (reads : Reads read bound) (heavy : 32 * s.left ≤ bound) :
    declarators.Fits read bound s := by
  have named := run_left_le reads.falls (require .identifier .variableName) s.trivia.opened
  simp only [ParseState.left_opened, ParseState.left_trivia] at named
  refine fits_bind_iff.mpr ⟨?_, ?_⟩
  · refine fits_node.mpr (fits_bind_iff.mpr ⟨fits_require _ _, ?_⟩)
    refine fits_bind_iff.mpr ⟨fits_atKind _, ?_⟩
    simp only [run_atKind]
    split
    · next h =>
        refine fits_equalsValue reads ?_ (by simpa using h)
        simp only [ParseState.left_trivia]
        omega
    · exact fits_pure ()
  · have declared := run_left_le reads.falls
      (node .variableDeclarator do
        require .identifier .variableName
        if ← atKind .eq then equalsValue) s
    exact fits_comma reads (by omega) _

theorem fits_localDeclaration (reads : Reads read bound) (heavy : 32 * s.left < bound) :
    localDeclaration.Fits read bound s := by
  have fewer := left_modifiers_le read s.trivia.opened
  refine fits_node.mpr (fits_bind_iff.mpr ⟨fits_modifiers, fits_bind_iff.mpr ⟨?_, fits_require _ _⟩⟩)
  generalize (modifiers.run read s.trivia.opened).2 = s' at fewer ⊢
  have typed := reads.falls .type s'.trivia.opened
  simp [Construct.weight, Construct.rank] at fewer typed ⊢
  omega

theorem fits_statement (reads : Reads read bound) (heavy : 32 * s.left + 2 < bound) :
    statement.Fits read bound s := by
  have heavy' : 32 * s.trivia.left ≤ bound := by
    simp
    omega
  refine fits_bind_iff.mpr ⟨fits_current, ?_⟩
  simp only [run_current]
  split
  · next h =>
      simp [Construct.weight, Construct.rank, h]
      omega
  · simp
  · next h => exact fits_node_bump reads heavy' (by simp [h])
  · next h => exact fits_node_bump reads heavy' (by simp [h])
  · refine fits_bind_iff.mpr ⟨fits_ahead _, ?_⟩
    split
    · exact fits_localDeclaration reads (by simp; omega)
    · split
      · simpa [expressionStatement, Construct.weight, Construct.rank] using heavy
      · simp [malformedStatement]

end Statements

section Declarations

variable {read : Construct → ParseState → ParseState} {bound : Nat} {s : ParseState}

theorem fits_typeParameters (reads : Reads read bound) (heavy : 32 * s.left ≤ bound) :
    typeParameters.Fits read bound s := by
  have named := run_left_le reads.falls
    (node .typeParameter (require .identifier .typeParameterName)) s
  exact fits_bind_iff.mpr ⟨by simp, fits_comma reads (by omega) _⟩

theorem fits_baseTypes (reads : Reads read bound) (heavy : 32 * s.left < bound) :
    baseTypes.Fits read bound s := by
  refine fits_bind_iff.mpr ⟨fits_atTypeStart, ?_⟩
  simp only [run_atTypeStart]
  split
  · refine fits_inner_comma reads ?_ (by simpa using Nat.le_of_lt heavy) _
    simpa [Construct.weight, Construct.rank] using heavy
  · exact fits_missing _

theorem fits_accessor (reads : Reads read bound) (heavy : 32 * s.left ≤ bound) :
    accessor.Fits read bound s := by
  refine fits_bind_iff.mpr ⟨fits_atIdentifier, fits_bind_iff.mpr ⟨fits_current, ?_⟩⟩
  simp only [run_atIdentifier, run_current]
  split
  · simp
  · next known =>
      refine fits_node.mpr ?_
      by_cases modified : s.upcoming.isModifier
      · exact fits_bind reads (by simpa using heavy) fits_modifiers
          (moves_modifiers (by simpa using modified))
      · have name : s.upcoming = .identifier := by simpa [modified] using known
        have stays := upcoming_modifiers read s.trivia.trivia.trivia.opened
          (by simpa using modified)
        have fewer := left_modifiers_le read s.trivia.trivia.trivia.opened
        simp only [ParseState.left_opened, ParseState.left_trivia] at fewer
        refine fits_bind_iff.mpr ⟨fits_modifiers, fits_bind reads (by omega) (fits_require _ _) ?_⟩
        exact moves_require (by simpa [stays] using name) (by decide)

theorem fits_accessors (reads : Reads read bound) (heavy : 32 * s.left ≤ bound) :
    accessors.Fits read bound s := by
  refine fits_bind_iff.mpr ⟨fits_atKind _, fits_bind_iff.mpr ⟨fits_atKind _, ?_⟩⟩
  simp only [run_atKind]
  split
  · next h =>
      have heavy' : 32 * s.trivia.trivia.left ≤ bound := by simpa using heavy
      have more : s.trivia.trivia.upcoming ≠ .eof := by simp_all
      exact fits_bind reads heavy' (fits_accessor reads heavy') (moves_accessor reads more)
  · exact fits_pure ()

theorem fits_typeDeclarationOf (reads : Reads read bound) (heavy : 32 * s.left ≤ bound)
    {declaration : Parse Unit} (h : typeDeclarationOf? s.upcoming = some declaration) :
    declaration.Fits read bound s := by
  have more : s.upcoming ≠ .eof := by
    intro none
    simp [typeDeclarationOf?, none] at h
  unfold typeDeclarationOf? at h
  split at h <;> cases h <;> exact fits_wrap_bump reads heavy more

theorem fits_typedMember (reads : Reads read bound) (heavy : 32 * s.left < bound)
    (begins : Construct.type.begins s.upcoming) : typedMember.Fits read bound s := by
  have light : Construct.type.weight s.trivia.opened < bound := by
    simpa [Construct.weight, Construct.rank] using heavy
  have typed : Moves read (inner .type) s.trivia.opened :=
    moves_inner reads light (by simpa using begins)
  refine fits_bind reads (by omega) (fits_group.mpr ?_) (moves_group (moves_first reads typed))
  exact fits_bind reads (by simp; omega) light typed

theorem fits_member (reads : Reads read bound) (heavy : 32 * s.left < bound) :
    member.Fits read bound s := by
  have fewer := left_modifiers_le read s.trivia.opened
  refine fits_group.mpr (fits_bind_iff.mpr ⟨fits_modifiers, ?_⟩)
  generalize (modifiers.run read s.trivia.opened).2 = s' at fewer ⊢
  simp only [ParseState.left_opened, ParseState.left_trivia] at fewer
  refine fits_bind_iff.mpr ⟨fits_current, ?_⟩
  simp only [run_current]
  have heavy' : 32 * s'.trivia.left < bound := by
    simp
    omega
  split
  · next declares =>
      exact fits_typeDeclarationOf reads (Nat.le_of_lt heavy') (by simpa using declares)
  split
  · next h =>
      exact fits_bind reads (Nat.le_of_lt heavy') fits_bump (moves_bump (by simp_all))
  refine fits_bind_iff.mpr ⟨fits_secondIs _, ?_⟩
  split
  · next h => exact fits_wrap_bump reads (Nat.le_of_lt heavy') (by simp_all)
  refine fits_bind_iff.mpr ⟨fits_atTypeStart, ?_⟩
  split
  · next starts =>
      simp only [run_atTypeStart, run_secondIs] at starts ⊢
      exact fits_typedMember reads (by simpa using heavy') (by simpa [Construct.begins] using starts)
  · refine fits_wrap.mpr (fits_bind_iff.mpr ⟨fits_missing _, fits_bind_iff.mpr ⟨fits_atKind _, ?_⟩⟩)
    split <;> simp

theorem fits_members (reads : Reads read bound) (heavy : 32 * s.left < bound) :
    members.Fits read bound s := by
  refine fits_bind_iff.mpr ⟨fits_atKind _, fits_bind_iff.mpr ⟨fits_atKind _, ?_⟩⟩
  simp only [run_atKind]
  split
  · next h =>
      have heavy' : 32 * s.trivia.trivia.left < bound := by simpa using heavy
      exact fits_bind reads (Nat.le_of_lt heavy') (fits_member reads heavy')
        (moves_member reads heavy' (by simp_all) (by simp_all))
  · exact fits_pure ()

theorem fits_usings (reads : Reads read bound) (heavy : 32 * s.left ≤ bound) :
    usings.Fits read bound s := by
  have heavy' : 32 * s.trivia.left ≤ bound := by simpa using heavy
  refine fits_bind_iff.mpr ⟨fits_atKind _, ?_⟩
  simp only [run_atKind]
  split
  · next h =>
      have keyword : s.trivia.upcoming = .usingKw := by simpa using h
      exact fits_bind reads heavy' (fits_node_require reads heavy' keyword (by decide))
        (moves_usingDirective reads keyword)
  · exact fits_pure ()

theorem fits_namespaceMember (reads : Reads read bound) (heavy : 32 * s.left ≤ bound) :
    namespaceMember.Fits read bound s := by
  refine fits_bind_iff.mpr ⟨fits_atKind _, ?_⟩
  simp only [run_atKind]
  split
  · next h =>
      have keyword : s.trivia.upcoming = .namespaceKw := by simpa using h
      exact fits_node_require reads (by simpa using heavy) keyword (by decide)
  refine fits_bind_iff.mpr ⟨by simp [atTypeDeclaration], ?_⟩
  simp only [atTypeDeclaration, run_bind, run_current, run_pure]
  split
  · have fewer := left_modifiers_le read s.trivia.trivia.trivia.opened
    refine fits_group.mpr (fits_bind_iff.mpr ⟨fits_modifiers, ?_⟩)
    generalize (modifiers.run read s.trivia.trivia.trivia.opened).2 = s' at fewer ⊢
    simp only [ParseState.left_opened, ParseState.left_trivia] at fewer
    refine fits_bind_iff.mpr ⟨fits_current, ?_⟩
    simp only [run_current]
    split
    · next declares =>
        exact fits_typeDeclarationOf reads (by simp; omega) (by simpa using declares)
    · simp
  · simp [malformedTopLevel, skipTo]

theorem fits_namespaceMembers (reads : Reads read bound) (heavy : 32 * s.left ≤ bound)
    (braced : Bool) : (namespaceMembers braced).Fits read bound s := by
  refine fits_bind_iff.mpr ⟨fits_atKind _, fits_bind_iff.mpr ⟨fits_atKind _, ?_⟩⟩
  simp only [run_atKind]
  split
  · next h =>
      have heavy' : 32 * s.trivia.trivia.left ≤ bound := by simpa using heavy
      exact fits_bind reads heavy' (fits_namespaceMember reads heavy')
        (moves_namespaceMember reads (by simp_all))
  · exact fits_pure ()

theorem fits_namespaceBody (reads : Reads read bound) (heavy : 32 * s.left < bound)
    (braced : Bool) : (namespaceBody braced).Fits read bound s := by
  have := reads.falls .usings s
  simp [namespaceBody, Construct.weight, Construct.rank]
  omega

end Declarations

end Parse
end SharpRefactor
