import SharpRefactor.Proofs.Lexing
import SharpRefactor.Proofs.Parsing.Builder

/-!
Nothing of a text is lost in its tree. The parts of a file are read until no significant token is
left, so the tree has all tokens of the text and no others, in their order and with their kinds; the
builder never fails on the way.
-/

namespace SharpRefactor

theorem tokensText_append (ts us : List Token) :
    tokensText (ts ++ us) = tokensText ts ++ tokensText us := by
  simp [tokensText, String.join_append]

/-- The size of a tree is the length of its text. -/
theorem Tree.size_eq (t : Tree) : t.size = t.text.utf8ByteSize := by
  induction t using Tree.induct with
  | leaf t => simp [Tree.text, tokensText, Token.size]
  | node k ts ih =>
      have side : ∀ us : Forest, (∀ u ∈ us, u.size = u.text.utf8ByteSize) →
          us.size = (tokensText us.tokens).utf8ByteSize := by
        intro us
        induction us with
        | nil => exact fun _ => rfl
        | cons u us ihs =>
            intro sizes
            have first := sizes u List.mem_cons_self
            have rest := ihs fun v hv => sizes v (List.mem_cons_of_mem u hv)
            rw [Forest.size_cons, Forest.tokens_cons, tokensText_append,
              String.utf8ByteSize_append, first, rest]
            rfl
      rw [Tree.size_node, Tree.text, Tree.tokens_node]
      exact side ts ih

namespace Parse

/-- The parts of a file that is not in braces end where the text ends. -/
theorem namespaceMembers_upcoming {depth : Nat} {s : ParseState}
    (deep : (Construct.namespaceMembers false).weight s < depth) :
    ((Construct.namespaceMembers false).read depth s).upcoming = .eof := by
  induction h : s.left using Nat.strongRecOn generalizing s with
  | ind left ih =>
      rw [Construct.read_rule deep]
      by_cases ended : s.upcoming = .eof
      · simp [Construct.rule, namespaceMembers, ended]
      · have reads := Construct.reads (32 * s.left) depth (by
          simp only [Construct.weight] at deep
          omega)
        have member := moves_namespaceMember (s := s.trivia.trivia) reads (by simpa using ended)
        simp only [Moves, ParseState.left_trivia] at member
        simp only [Construct.rule, namespaceMembers, run_bind, run_atKind]
        rw [if_pos (by simp [ended])]
        refine ih _ (h ▸ member) ?_ rfl
        simp only [Construct.weight, Construct.rank] at deep ⊢
        omega

end Parse

/-- The built parts and the tokens left after them are the tokens of the file. -/
theorem readFile_yield (ts : List Token) : (readFile ts).yield = ts := by
  have keeps := Construct.read_yield (nestingBound ts) (.namespaceBody false)
    (ParseState.start ts).trivia
  rw [readFile, ParseState.yield_trivia, keeps, ParseState.yield_trivia]
  rfl

/-- A file is read to its end. -/
theorem readFile_tokens {ts : List Token} (real : ∀ t ∈ ts, t.kind ≠ .eof) :
    (readFile ts).tokens = [] := by
  have ended : (readFile ts).upcoming = .eof := by
    have few : (ParseState.start ts).trivia.left = Lookahead.significant ts :=
      ParseState.left_trivia _
    have light : (Construct.namespaceBody false).weight (ParseState.start ts).trivia <
        nestingBound ts := by
      have := (Construct.namespaceBody false).weight_lt (ParseState.start ts).trivia
      rwa [few] at this
    have fewer := Construct.usings.read_left_le (nestingBound ts) (ParseState.start ts).trivia
    rw [few] at fewer
    rw [readFile, ParseState.upcoming_trivia, Construct.read_rule light]
    refine Parse.namespaceMembers_upcoming ?_
    simp only [Construct.weight, Construct.rank, Parse.run_inner]
    unfold nestingBound at fewer ⊢
    omega
  have rest : ∀ t ∈ (readFile ts).tokens, t.kind ≠ .eof := by
    intro t ht
    refine real t ?_
    rw [← readFile_yield ts]
    exact List.mem_append_right _ ht
  have none : (readFile ts).left = 0 := Lookahead.significant_of_nextKind rest ended
  rw [readFile, ParseState.left_trivia] at none
  exact Lookahead.dropTrivia_of_significant none

/-- The tree of a text has exactly the tokens of the text. -/
theorem parse_tokens (text : String) :
    (parse text).root.tokens = (lex text).map Lexeme.token := by
  have real : ∀ t ∈ (lex text).map Lexeme.token, t.kind ≠ .eof := fun _ ht => lex_kind_ne_eof ht
  have read := readFile_tokens real
  have spelled := readFile_yield ((lex text).map Lexeme.token)
  rw [ParseState.yield, read, List.append_nil] at spelled
  rw [parse, Tree.tokens_node, spelled]

/-- Every text has a tree, a compilation unit with exactly the tokens of the text, and the builder
reaches it without a failing step, to whatever depth beyond the bound constructs are read. -/
theorem parse_lossless (text : String) :
    (∀ depth, nestingBound ((lex text).map Lexeme.token) ≤ depth →
      buildFile depth ((lex text).map Lexeme.token) = some (parse text).root) ∧
    (parse text).root.kind = .compilationUnit ∧
    (parse text).root.tokens = (lex text).map Lexeme.token ∧
    (parse text).root.text = text ∧
    (parse text).root.size = text.utf8ByteSize := by
  have spelled : (parse text).root.text = text := by
    rw [Tree.text, parse_tokens, tokensText_lex]
  refine ⟨fun depth deep => buildFile_eq deep, rfl, parse_tokens text, spelled, ?_⟩
  rw [Tree.size_eq, spelled]

end SharpRefactor
