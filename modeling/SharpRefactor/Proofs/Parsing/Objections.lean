import SharpRefactor.Proofs.Lexing.Tiling
import SharpRefactor.Proofs.Parsing.Contract
import SharpRefactor.Proofs.Parsing.Levels
import SharpRefactor.Proofs.Parsing.Makes

/-!
The objections to a text. Wherever the parser builds an error it objects first, so that a tree to
which nobody objects has no error in it. An objection is made to the token that is next, or to the
end of the text if none is left, and no token comes back, so the objections of the parser stand in
the order of the text.
-/

namespace SharpRefactor

namespace Parse

/-! ### No error without an objection -/

def Objects : {α : Type} → Parse α → Prop
  | _, andThen p f => p.Objects ∨ ∀ a, (f a).Objects
  | _, fail _ => True
  | _, group p => p.Objects
  | _, wrap _ p => p.Objects
  | _, _ => False

/-- Whether a program objects wherever it builds an error. -/
def Admits : {α : Type} → Parse α → Prop
  | _, andThen p f => p.Admits ∧ ∀ a, (f a).Admits
  | _, group p => p.Admits
  | _, wrap k p => (k = .error → p.Objects) ∧ p.Admits
  | _, _ => True

section Runs

variable {α : Type} {p : Parse α} {s s' : ParseState} {a : α}

theorem Runs.errors_ne_nil (h : Runs p s a s') (objects : p.Objects) : s'.errors ≠ [] := by
  induction h with
  | andThen _ rest ihp ihf =>
      rcases objects with first | second
      · exact fun none => ihp first (List.suffix_nil.mp (none ▸ rest.errors_suffix))
      · exact ihf (second _)
  | fail e s => exact List.cons_ne_nil _ _
  | group _ ih => exact ih objects
  | wrap k _ ih => exact ih objects
  | _ => exact objects.elim

def Known (k : Kind) (_ : Forest) : Prop := k ≠ .error

/-- A run to which nothing is objected builds no errors, if the rules object to theirs. -/
theorem Runs.known (rules : ∀ c : Construct, c.rule.Admits) (h : Runs p s a s') (admits : p.Admits)
    (clean : s'.errors = []) (known : s.Every Known) : s'.Every Known := by
  induction h with
  | done | nth? | ahead => exact known
  | andThen _ rest ihp ihf =>
      have before : _ = [] := List.suffix_nil.mp (clean ▸ rest.errors_suffix)
      exact ihf (admits.2 _) clean (ihp admits.1 before known)
  | current | skip => exact known.takeWhile _
  | bump s => exact known.trivia.takeOne
  | fail e s => cases clean
  | group _ ih => exact (ih admits clean (ParseState.every_opened _)).closed known.trivia
  | wrap k run ih =>
      exact (ih admits.2 clean known).wrapped fun error => run.errors_ne_nil (admits.1 error) clean
  | @inner c _ _ _ ih => exact ih (rules c) clean known

end Runs

section Rules

variable {α : Type} {p : Parse α} {met : Construct → Prop}

theorem admits_of_makes (makes : p.Makes (· ≠ .error) met) : p.Admits := by
  induction p with
  | andThen p f ihp ihf => exact ⟨ihp makes.1, fun a => ihf a (makes.2 a)⟩
  | group p ih => exact ih makes
  | wrap k p ih => exact ⟨fun error => absurd error makes.1, ih makes.2⟩
  | _ => trivial

theorem admits_bind {β : Type} {f : α → Parse β} : (p >>= f).Admits ↔ p.Admits ∧ ∀ a, (f a).Admits :=
  Iff.rfl

theorem admits_group : (group p).Admits ↔ p.Admits := Iff.rfl

theorem admits_ite {c : Prop} [Decidable c] {q : Parse α} (yes : c → p.Admits) (no : ¬ c → q.Admits) :
    (if c then p else q).Admits := by
  split
  · exact yes ‹_›
  · exact no ‹_›

abbrev Sound (p : Parse α) : Prop := p.Makes (· ≠ .error) fun _ => True

theorem admits_of_sound (sound : p.Sound) : p.Admits := admits_of_makes sound

theorem admits_error (objects : p.Objects) (sound : p.Sound) : (wrap .error p).Admits :=
  ⟨fun _ => objects, admits_of_makes sound⟩

theorem admits_statement : statement.Admits := by
  refine admits_bind.mpr ⟨trivial, fun k => ?_⟩
  split
  · trivial
  · exact admits_of_sound (by simp)
  · exact admits_of_sound (by simp [returnStatement])
  · exact admits_of_sound (by simp [ifStatement, elseClause])
  · refine admits_bind.mpr ⟨trivial, fun declares => ?_⟩
    refine admits_ite (fun _ => ?_) fun _ => admits_ite (fun _ => ?_) fun _ => ?_
    · exact admits_of_sound (by simp [localDeclaration])
    · exact admits_of_sound (by simp [expressionStatement])
    · exact admits_error (.inl trivial) (by simp)

theorem admits_operand : operand.Admits := by
  refine admits_bind.mpr ⟨trivial, fun k => ?_⟩
  refine admits_ite (fun _ => ?_) fun _ => admits_ite (fun _ => ?_) fun _ => ?_
  · exact admits_of_sound (by simp)
  · exact admits_of_sound (by simp)
  split
  · exact admits_of_sound (by simp)
  · exact admits_of_sound (by simp [objectCreation])
  · exact admits_of_sound (by simp [anonymousMethod])
  · exact admits_of_sound (by simp [simpleLambda, makes_nameExpression])
  · exact admits_of_sound (by simp [parenthesizedLambda, parenthesized])
  · exact admits_error (.inl trivial) (by simp)

theorem admits_accessor : accessor.Admits := by
  refine admits_bind.mpr ⟨admits_of_sound (by simp), fun named =>
    admits_bind.mpr ⟨trivial, fun k => ?_⟩⟩
  refine admits_ite (fun _ => ?_) fun _ => ?_
  · exact admits_error (.inl trivial) (by simp)
  · exact admits_of_sound (by simp [makes_body])

theorem admits_typeDeclarationOf {k : Kind} {declaration : Parse Unit}
    (found : typeDeclarationOf? k = some declaration) : declaration.Admits :=
  admits_of_sound (Construct.makes_typeDeclarationOf found (by simp) (by simp))

theorem admits_typedMember : typedMember.Admits := by
  refine admits_bind.mpr ⟨admits_of_sound (makes_typedHead trivial (by simp)), fun found => ?_⟩
  split
  · exact admits_error (.inl trivial) (by simp)
  · exact admits_of_sound (makes_method (by simp) trivial (by simp) (by simp) (by simp))
  · exact admits_of_sound (by simp [property])
  · exact admits_of_sound (by simp)

theorem admits_member : member.Admits := by
  refine admits_group.mpr (admits_bind.mpr ⟨trivial, fun _ => admits_bind.mpr ⟨trivial, fun k => ?_⟩⟩)
  split
  · next found => exact admits_typeDeclarationOf found
  refine admits_ite (fun _ => ?_) fun _ => ?_
  · exact admits_of_sound (by simp [event, eventHead, interfaceSpecifier])
  have constructor : constructor.Admits :=
    admits_of_sound (makes_constructor (by simp) trivial (by simp) (by simp))
  refine admits_bind.mpr ⟨admits_of_sound (by simp), fun constructs => ?_⟩
  refine admits_ite (fun _ => constructor) fun _ => ?_
  refine admits_bind.mpr ⟨admits_of_sound (by simp), fun typed => ?_⟩
  exact admits_ite (fun _ => admits_typedMember) fun _ => admits_error (.inl trivial) (by simp)

theorem admits_namespaceMember : namespaceMember.Admits := by
  refine admits_bind.mpr ⟨admits_of_sound (by simp), fun namespaced => ?_⟩
  refine admits_ite (fun _ => admits_of_sound (by simp [namespaceDeclaration])) fun _ => ?_
  refine admits_bind.mpr ⟨admits_of_sound (by simp [atTypeDeclaration]), fun declares => ?_⟩
  refine admits_ite (fun _ => ?_) fun _ => admits_error (.inl trivial) (by simp [skipTo])
  refine admits_group.mpr (admits_bind.mpr ⟨trivial, fun _ => admits_bind.mpr ⟨trivial, fun k => ?_⟩⟩)
  split
  · next found => exact admits_typeDeclarationOf found
  · exact admits_error (.inl trivial) (by simp)

/-- The items of a list in braces. -/
theorem admits_list {item : Parse Unit} {c : Construct} (admits : item.Admits) :
    (do if !(← atKind .rBrace) && !(← atKind .eof) then item; inner c : Parse Unit).Admits := by
  refine admits_bind.mpr ⟨admits_of_sound (by simp), fun closes => ?_⟩
  refine admits_bind.mpr ⟨admits_of_sound (by simp), fun ends => ?_⟩
  refine admits_ite (fun _ => ?_) fun _ => trivial
  exact admits_bind.mpr ⟨admits, fun _ => trivial⟩

theorem rules_admit (c : Construct) : c.rule.Admits := by
  cases c
  case statement => exact admits_statement
  case unary =>
    refine admits_group.mpr (admits_bind.mpr ⟨trivial, fun k => ?_⟩)
    refine admits_ite (fun _ => admits_of_sound (by simp [prefixed])) fun _ => ?_
    refine admits_bind.mpr ⟨admits_of_sound (by simp), fun casts => ?_⟩
    refine admits_ite (fun _ => admits_of_sound (by simp [Parse.cast])) fun _ => ?_
    exact admits_bind.mpr ⟨admits_operand, fun _ => trivial⟩
  case members => exact admits_list admits_member
  case accessors => exact admits_list admits_accessor
  case namespaceMembers =>
    refine admits_bind.mpr ⟨admits_of_sound (by simp), fun ends => ?_⟩
    refine admits_bind.mpr ⟨admits_of_sound (by simp), fun closes => ?_⟩
    refine admits_ite (fun _ => ?_) fun _ => trivial
    exact admits_bind.mpr ⟨admits_namespaceMember, fun _ => trivial⟩
  all_goals
    exact admits_of_sound
      (Construct.rule_makes _ (by simp [Construct.builds]) fun _ _ => trivial)

end Rules

end Parse

/-! ### Where objections stand -/

namespace ParseState

/-- Moving tokens as long as a test holds is moving one after the other. -/
theorem takeWhile_of_takeOne {Q : ParseState → Prop} (move : ∀ s, Q s → Q s.takeOne)
    (p : Kind → Bool) {s : ParseState} (own : Q s) : Q (s.takeWhile p) := by
  obtain ⟨tokens, level, offset, errors⟩ := s
  induction tokens generalizing level offset with
  | nil => exact own
  | cons t ts ih =>
      cases goesOn : p t.kind with
      | false => simpa [takeWhile, goesOn] using own
      | true =>
          have later := ih _ _ (move _ own)
          simpa [takeWhile, goesOn, takeOne, Nat.add_assoc] using later

end ParseState

/-- What holds of a state whatever stands on its level, and is kept when a token is moved or
objected to, is kept in every run. -/
theorem Parse.Runs.keeps {Q : ParseState → Prop} (levels : ∀ s level, Q s → Q { s with level := level })
    (move : ∀ s, Q s → Q s.takeOne) (object : ∀ e s, Q s → Q (s.object e)) {α : Type} {p : Parse α}
    {s s' : ParseState} {a : α} (h : Runs p s a s') (own : Q s) : Q s' := by
  induction h with
  | done | nth? | ahead => exact own
  | andThen _ _ ihp ihf => exact ihf (ihp own)
  | current | skip => exact ParseState.takeWhile_of_takeOne move _ own
  | bump s => exact move _ (ParseState.takeWhile_of_takeOne move _ own)
  | fail e s => exact object e _ (ParseState.takeWhile_of_takeOne move _ own)
  | group _ ih => exact levels _ _ (ih (levels _ _ (ParseState.takeWhile_of_takeOne move _ own)))
  | wrap k _ ih => exact levels _ _ (ih own)
  | inner _ ih => exact ih own

/-- The tokens that are left are the last of those side by side up to the end, every objection is at
one of them or at the end, and none of two that are in order stands behind the other. -/
structure ParseState.Located (ranges : List TextRange) (stop : Nat) (s : ParseState) : Prop where
  rest : (placeTokens s.offset s.tokens).map Prod.snd <:+ ranges
  tiles : Tiles s.offset stop ((placeTokens s.offset s.tokens).map Prod.snd)
  placed : ∀ d ∈ s.errors, d.range ∈ ranges ∨ d.range = .empty stop
  passed : ∀ d ∈ s.errors, d.range.start ≤ s.offset
  ordered : s.errors.Pairwise fun d e => e.range.start ≤ d.range.start

namespace ParseState

variable {ranges : List TextRange} {stop : Nat} {s : ParseState}

theorem Located.takeOne (located : s.Located ranges stop) : s.takeOne.Located ranges stop := by
  obtain ⟨tokens, level, offset, errors⟩ := s
  obtain ⟨rest, tiles, placed, passed, ordered⟩ := located
  cases tokens with
  | nil => exact ⟨rest, tiles, placed, passed, ordered⟩
  | cons t ts =>
      refine ⟨(List.suffix_cons _ _).trans rest, tiles.later, placed, fun d made => ?_, ordered⟩
      exact Nat.le_add_right_of_le (passed d made)

theorem Located.object (e : SyntaxError) (located : s.Located ranges stop) :
    (s.object e).Located ranges stop := by
  obtain ⟨tokens, level, offset, errors⟩ := s
  obtain ⟨rest, tiles, placed, passed, ordered⟩ := located
  have own : (ParseState.mk tokens level offset errors).here.start = offset := by cases tokens <;> rfl
  refine ⟨rest, tiles, List.forall_mem_cons.mpr ⟨?_, placed⟩,
    List.forall_mem_cons.mpr ⟨Nat.le_of_eq own, passed⟩, List.pairwise_cons.mpr ⟨?_, ordered⟩⟩
  · cases tokens with
    | nil => cases tiles; exact .inr rfl
    | cons t ts => exact .inl (rest.subset List.mem_cons_self)
  · intro d made
    rw [own]
    exact passed d made

theorem Located.run {α : Type} {p : Parse α} {a : α} {s' : ParseState} (h : Parse.Runs p s a s')
    (located : s.Located ranges stop) : s'.Located ranges stop := by
  refine h.keeps (Q := Located ranges stop) (fun s level located => ?_) (fun s => Located.takeOne)
    (fun e s => Located.object e) located
  exact ⟨located.rest, located.tiles, located.placed, located.passed, located.ordered⟩

end ParseState

theorem forall_fault_of_lexFaults {ls : List Lexeme} {offset : Nat} (clean : lexFaults offset ls = []) :
    ∀ l ∈ ls, l.fault = none := by
  induction ls generalizing offset with
  | nil => exact List.forall_mem_nil _
  | cons l ls ih =>
      rw [lexFaults] at clean
      cases fault : l.fault with
      | some e => rw [fault] at clean; cases clean
      | none =>
          rw [fault] at clean
          exact List.forall_mem_cons.mpr ⟨fault, ih clean⟩

/-- A text without objections has neither a node nor a token that is an error. -/
theorem parse_known {text : String} (ok : (parse text).ok) :
    (∀ n ∈ (Node.root (parse text).root).descendants, n.kind ≠ .error) ∧
      ∀ t ∈ (parse text).root.tokens, t.kind ≠ .error := by
  let ts := (lex text).map Lexeme.token
  obtain ⟨lexed, read⟩ : lexicalErrors (lex text) = [] ∧ (readFile ts).errors.reverse = [] := by
    have none : (parse text).errors = [] := by simpa [ParseResult.ok] using ok
    exact List.append_eq_nil_iff.mp none
  constructor
  · intro n inside
    have file : Parse.file.Admits := Parse.admits_of_sound (by simp [Parse.file])
    have known := (Parse.runs_file ts).known Parse.rules_admit file (List.reverse_eq_nil_iff.mp read)
      (ParseState.every_start ts)
    exact Node.own_of_mem_descendants (every_parse known fun _ => Kind.noConfusion) inside
  · have clean := forall_fault_of_lexFaults (List.map_eq_nil_iff.mp lexed)
    rw [parse_tokens]
    refine List.forall_mem_map.mpr fun l member error => ?_
    exact lexChars_fault_of_error text.toList l member error (clean l member)

/-- The objections to a text are faithful. If there are none, nothing in the tree is an error; each
is at a token of the text or at its end; and those of the parser, which come after those of the
lexer, stand in the order of the text. -/
theorem parse_objects (text : String) :
    let ranges := (placeTokens 0 ((lex text).map Lexeme.token)).map Prod.snd
    let read := (readFile ((lex text).map Lexeme.token)).errors.reverse
    ((parse text).ok → (∀ n ∈ (Node.root (parse text).root).descendants, n.kind ≠ .error) ∧
      ∀ t ∈ (parse text).root.tokens, t.kind ≠ .error) ∧
    (∀ d ∈ (parse text).errors, d.range ∈ ranges ∨ d.range = .empty text.utf8ByteSize) ∧
    (parse text).errors = lexicalErrors (lex text) ++ read ∧
    read.Pairwise fun d e => d.range.start ≤ e.range.start := by
  intro ranges read
  have start : (ParseState.start ((lex text).map Lexeme.token)).Located ranges text.utf8ByteSize :=
    ⟨List.suffix_rfl, (lex_tiles text).1, List.forall_mem_nil _, List.forall_mem_nil _, .nil⟩
  have located := start.run (Parse.runs_file _)
  refine ⟨parse_known, List.forall_mem_append.mpr ⟨?_, fun d made => ?_⟩, rfl, ?_⟩
  · refine List.forall_mem_map.mpr fun fault listed => .inl ?_
    exact (lexFaults_sublist (lex text) 0).subset (List.mem_map_of_mem listed)
  · exact located.placed d (List.mem_reverse.mp made)
  · exact List.pairwise_reverse.mpr located.ordered

/-- A value that is missing, a character that begins no token, and a type whose end is missing. -/
theorem parse_objects_unexpected :
    let good := "class C { int F = 1; }"
    let bad := "class C \x7b int F = ; # "
    let ranges := (placeTokens 0 ((lex bad).map Lexeme.token)).map Prod.snd
    (parse good).ok ∧ (∀ n ∈ (Node.root (parse good).root).descendants, n.kind ≠ .error) ∧
      (parse bad).errors.map Diagnostic.range = [.ofSize 20 1, .ofSize 18 1, .ofSize 20 1, .empty 22] ∧
      ∀ d ∈ (parse bad).errors, d.range ∈ ranges ∨ d.range = .empty 22 := by
  intro good bad ranges
  obtain ⟨ok, places⟩ : (parse good).ok ∧
      (parse bad).errors.map Diagnostic.range =
        [.ofSize 20 1, .ofSize 18 1, .ofSize 20 1, .empty 22] := by
    decide +kernel
  exact ⟨ok, ((parse_objects good).1 ok).1, places, (parse_objects bad).2.1⟩

end SharpRefactor
