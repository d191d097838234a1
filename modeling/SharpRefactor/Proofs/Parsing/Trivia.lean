import SharpRefactor.Proofs.Parsing.Depth

/-!
Trivia does not change how a text is read. The scans over the tokens ahead give on the bare tokens
what they give on all of them, and two readings that agree but for trivia and places go on agreeing
whatever program runs, so the parser makes the same nodes and the same objections.
-/

namespace SharpRefactor

def bareTokens (ts : List Token) : List Token := ts.filter (!·.isTrivia)

theorem bareTokens_cons_trivia {t : Token} (h : t.isTrivia) (ts : List Token) :
    bareTokens (t :: ts) = bareTokens ts := by
  simp [bareTokens, h]

theorem bareTokens_cons {t : Token} (h : t.isTrivia = false) (ts : List Token) :
    bareTokens (t :: ts) = t :: bareTokens ts := by
  simp [bareTokens, h]

namespace Lookahead

variable (n : Nat) (ts : List Token)

theorem next_bare : next (bareTokens ts) = ((next ts).1, bareTokens (next ts).2) := by
  induction ts with
  | nil => rfl
  | cons t ts ih =>
      cases ht : t.isTrivia with
      | true => rw [bareTokens_cons_trivia ht, ih, next, if_pos ht]
      | false => simp [bareTokens_cons ht, next, ht]

theorem nextKind_bare : nextKind (bareTokens ts) = nextKind ts := by
  rw [nextKind, next_bare, nextKind]

theorem nth?_bare : nth? n (bareTokens ts) = nth? n ts := by
  induction ts generalizing n with
  | nil => rfl
  | cons t ts ih =>
      cases ht : t.isTrivia with
      | true => simp [bareTokens_cons_trivia ht, ih, nth?, ht]
      | false =>
          rw [bareTokens_cons ht]
          cases n with
          | zero => simp [nth?, ht]
          | succ n => simp [nth?, ht, ih]

theorem significant_bare : significant (bareTokens ts) = significant ts := by
  simp [significant, bareTokens, List.countP_filter]

theorem skipRanks_bare : skipRanks n (bareTokens ts) = bareTokens (skipRanks n ts) := by
  induction n generalizing ts with
  | zero => rfl
  | succ n ih =>
      rw [skipRanks, skipRanks, next_bare]
      obtain ⟨k, rest⟩ := next ts
      cases k <;> try rfl
      simp only [next_bare]
      obtain ⟨k, rest⟩ := next rest
      cases k <;> try rfl
      exact ih rest

/-- The scans of types see no trivia. -/
theorem scans_bare :
    scanType n (bareTokens ts) = (scanType n ts).map bareTokens ∧
    scanArgumentsOf n (bareTokens ts) = bareTokens (scanArgumentsOf n ts) ∧
    scanQualifiers n (bareTokens ts) = bareTokens (scanQualifiers n ts) ∧
    scanArguments n (bareTokens ts) = (scanArguments n ts).map bareTokens := by
  induction n generalizing ts with
  | zero => exact ⟨rfl, rfl, rfl, rfl⟩
  | succ n ih =>
      refine ⟨?_, ?_, ?_, ?_⟩
      · rw [scanType, scanType, next_bare]
        obtain ⟨k, rest⟩ := next ts
        cases k
        case identifier => simp only [(ih _).2.1, (ih _).2.2.1, skipRanks_bare, Option.map_some]
        all_goals
          simp only [skipRanks_bare]
          split <;> rfl
      · rw [scanArgumentsOf, scanArgumentsOf, next_bare]
        obtain ⟨k, rest⟩ := next ts
        cases k <;> try rfl
        simp only [(ih rest).2.2.2]
        cases scanArguments n rest <;> rfl
      · rw [scanQualifiers, scanQualifiers, next_bare]
        obtain ⟨k, rest⟩ := next ts
        cases k <;> try rfl
        simp only [next_bare]
        obtain ⟨k, rest⟩ := next rest
        cases k <;> try rfl
        simp only [(ih rest).2.1, (ih _).2.2.1]
      · rw [scanArguments, scanArguments, (ih ts).1]
        cases scanType n ts with
        | none => rfl
        | some rest =>
            simp only [Option.map_some, next_bare]
            obtain ⟨k, rest⟩ := next rest
            cases k <;> try rfl
            exact (ih rest).2.2.2

theorem afterTypeArguments?_bare :
    afterTypeArguments? (bareTokens ts) = (afterTypeArguments? ts).map bareTokens := by
  rw [afterTypeArguments?, afterTypeArguments?, next_bare, next_bare]
  obtain ⟨k, rest⟩ := next (next ts).2
  cases k <;> try rfl
  simp only [steps, significant_bare]
  exact (scans_bare _ rest).2.2.2

theorem afterType?_bare : afterType? (bareTokens ts) = (afterType? ts).map bareTokens := by
  simp only [afterType?, steps, significant_bare]
  exact (scans_bare _ ts).1

theorem afterClosing?_bare (depth : Nat) :
    afterClosing? depth (bareTokens ts) = (afterClosing? depth ts).map bareTokens := by
  induction ts generalizing depth with
  | nil => cases depth <;> rfl
  | cons t ts ih =>
      obtain ⟨k, text⟩ := t
      cases ht : (Token.mk k text).isTrivia with
      | true =>
          rw [bareTokens_cons_trivia ht, ih]
          cases k <;> first | rfl | cases ht
      | false =>
          rw [bareTokens_cons ht]
          cases k
          case rParen =>
            match depth with
            | 0 => rfl
            | 1 => rfl
            | depth + 2 => exact ih (depth + 1)
          all_goals first | exact ih _ | rfl

theorem dropWhile_bare (p : Token → Bool) :
    (bareTokens ts).dropWhile (fun t => t.isTrivia || p t) =
      bareTokens (ts.dropWhile fun t => t.isTrivia || p t) := by
  induction ts with
  | nil => rfl
  | cons t ts ih =>
      cases ht : t.isTrivia with
      | true => simp [bareTokens_cons_trivia ht, ih, ht]
      | false =>
          rw [bareTokens_cons ht, List.dropWhile_cons, List.dropWhile_cons]
          split
          · exact ih
          · rw [bareTokens_cons ht]

theorem atLocalDeclaration_bare : atLocalDeclaration (bareTokens ts) = atLocalDeclaration ts := by
  rw [atLocalDeclaration, dropWhile_bare, afterType?_bare, atLocalDeclaration]
  cases afterType? (ts.dropWhile fun t => t.isTrivia || t.kind == .constKw) with
  | none => rfl
  | some rest =>
      simp only [Option.map_some, next_bare]
      obtain ⟨k, rest⟩ := next rest
      cases k <;> try rfl
      simp only [nextKind_bare]

theorem atCast_bare : atCast (bareTokens ts) = atCast ts := by
  rw [atCast, next_bare, afterType?_bare, atCast]
  cases afterType? (next ts).2 with
  | none => rfl
  | some rest =>
      simp only [Option.map_some, next_bare]
      obtain ⟨k, rest⟩ := next rest
      cases k <;> try rfl
      simp only [nextKind_bare]

theorem atParenthesizedLambda_bare :
    atParenthesizedLambda (bareTokens ts) = atParenthesizedLambda ts := by
  rw [atParenthesizedLambda, afterClosing?_bare, atParenthesizedLambda]
  cases afterClosing? 0 ts with
  | none => rfl
  | some rest => simp only [Option.map_some, nextKind_bare]

theorem atGenericExpression_bare : atGenericExpression (bareTokens ts) = atGenericExpression ts := by
  rw [atGenericExpression, afterTypeArguments?_bare, atGenericExpression]
  cases afterTypeArguments? ts with
  | none => rfl
  | some rest => simp only [Option.map_some, nextKind_bare]

theorem atGenericType_bare : atGenericType (bareTokens ts) = atGenericType ts := by
  rw [atGenericType, afterTypeArguments?_bare, atGenericType, Option.isSome_map]

/-- Whatever the grammar asks about the tokens ahead, trivia has no say in the answer. -/
theorem ask_bare (question : Question) : question.ask (bareTokens ts) = question.ask ts := by
  cases question with
  | localDeclaration => exact atLocalDeclaration_bare ts
  | cast => exact atCast_bare ts
  | parenthesizedLambda => exact atParenthesizedLambda_bare ts
  | genericExpression => exact atGenericExpression_bare ts
  | genericType => exact atGenericType_bare ts

end Lookahead

mutual

/-- A tree without its trivia: nothing for a leaf of trivia, one tree for any other. -/
def Tree.bare : Tree → Forest
  | .leaf t => if t.isTrivia then [] else [.leaf t]
  | .node k ts => [.node k (Forest.bare ts)]

def Forest.bare : Forest → Forest
  | [] => []
  | t :: ts => t.bare ++ Forest.bare ts

end

namespace Forest

theorem bare_append (ts us : Forest) :
    Forest.bare (ts ++ us) = Forest.bare ts ++ Forest.bare us := by
  induction ts with
  | nil => rfl
  | cons t ts ih => simp only [List.cons_append, Forest.bare, ih, List.append_assoc]

theorem bare_reverse (ts : Forest) : Forest.bare ts.reverse = (Forest.bare ts).reverse := by
  induction ts with
  | nil => rfl
  | cons t ts ih =>
      have single : t.bare.reverse = t.bare := by
        cases t with
        | leaf t => simp only [Tree.bare]; split <;> rfl
        | node k ts => rfl
      rw [List.reverse_cons, bare_append, ih]
      simp only [Forest.bare, List.append_nil, List.reverse_append, single]

theorem bare_leaves (ts : List Token) :
    Forest.bare (ts.map Tree.leaf) = (bareTokens ts).map Tree.leaf := by
  induction ts with
  | nil => rfl
  | cons t ts ih =>
      cases ht : t.isTrivia with
      | true => simp [Forest.bare, Tree.bare, ht, ih, bareTokens_cons_trivia ht]
      | false => simp [Forest.bare, Tree.bare, ht, ih, bareTokens_cons ht]

end Forest

theorem dropWhile_bareTokens (p : Kind → Bool) (ts : List Token) :
    bareTokens (ts.dropWhile fun t => t.kind.isTrivia || p t.kind) =
      (bareTokens ts).dropWhile (p ·.kind) := by
  induction ts with
  | nil => rfl
  | cons t ts ih =>
      rw [List.dropWhile_cons]
      cases ht : t.kind.isTrivia with
      | true =>
          rw [bareTokens_cons_trivia ht]
          exact ih
      | false =>
          rw [bareTokens_cons ht, List.dropWhile_cons, Bool.false_or]
          split
          · exact ih
          · exact bareTokens_cons ht ts

theorem takeWhile_bareTokens (p : Kind → Bool) (ts : List Token) :
    bareTokens (ts.takeWhile fun t => t.kind.isTrivia || p t.kind) =
      (bareTokens ts).takeWhile (p ·.kind) := by
  induction ts with
  | nil => rfl
  | cons t ts ih =>
      rw [List.takeWhile_cons]
      cases ht : t.kind.isTrivia with
      | true =>
          rw [bareTokens_cons_trivia ht]
          exact (bareTokens_cons_trivia ht _).trans ih
      | false =>
          rw [bareTokens_cons ht, List.takeWhile_cons, Bool.false_or]
          split
          · rw [bareTokens_cons ht, ih]
          · rfl

structure BareState where
  tokens : List Token
  level : Forest
  errors : List SyntaxError

namespace BareState

def takeWhile (p : Kind → Bool) (b : BareState) : BareState :=
  { b with
    tokens := b.tokens.dropWhile (p ·.kind)
    level := ((b.tokens.takeWhile (p ·.kind)).map Tree.leaf).reverse ++ b.level }

def takeOne (b : BareState) : BareState :=
  match b.tokens with
  | [] => b
  | t :: ts => { b with tokens := ts, level := .leaf t :: b.level }

end BareState

namespace ParseState

def bare (s : ParseState) : BareState :=
  ⟨bareTokens s.tokens, Forest.bare s.level, s.errors.map Diagnostic.error⟩

theorem bare_skip (s : ParseState) (p : Kind → Bool) :
    (s.takeWhile fun k => k.isTrivia || p k).bare = s.bare.takeWhile p := by
  simp only [bare, takeWhile, BareState.takeWhile, Forest.bare_append, Forest.bare_reverse,
    Forest.bare_leaves, dropWhile_bareTokens, takeWhile_bareTokens]

theorem bare_trivia (s : ParseState) : s.trivia.bare = s.bare := by
  have skips := s.bare_skip fun _ => false
  simp only [Bool.or_false] at skips
  refine skips.trans ?_
  have stays : ∀ ts : List Token, ts.dropWhile (fun _ => false) = ts ∧
      ts.takeWhile (fun _ => false) = [] := by
    intro ts
    cases ts <;> exact ⟨rfl, rfl⟩
  simp only [BareState.takeWhile, (stays _).1, (stays _).2]
  rfl

theorem bare_takeOne {s : ParseState} (front : ∀ t ∈ s.tokens.head?, t.isTrivia = false) :
    s.takeOne.bare = s.bare.takeOne := by
  obtain ⟨tokens, level, offset, errors⟩ := s
  cases tokens with
  | nil => rfl
  | cons t ts =>
      have real := front t rfl
      simp [bare, takeOne, BareState.takeOne, bareTokens_cons real, Forest.bare, Tree.bare, real]

theorem bare_bump (s : ParseState) : s.trivia.takeOne.bare = s.bare.takeOne := by
  rw [bare_takeOne, s.bare_trivia]
  intro t front
  have stops := List.head?_dropWhile_not (·.kind.isTrivia) s.tokens
  rw [show (s.tokens.dropWhile (·.kind.isTrivia)).head? = some t from front] at stops
  exact stops

theorem bare_closed (s : ParseState) (siblings : List Tree) :
    (s.closed siblings).bare =
      { s.bare with level := s.bare.level ++ Forest.bare siblings } := by
  simp only [bare, closed, Forest.bare_append]

theorem bare_opened (s : ParseState) : s.opened.bare = { s.bare with level := [] } := rfl

theorem bare_wrapped (s : ParseState) (k : Kind) :
    (s.wrapped k).bare = { s.bare with level := [.node k s.bare.level.reverse] } := by
  simp only [bare, wrapped, Forest.bare, Tree.bare, Forest.bare_reverse, List.append_nil]

theorem bare_object (s : ParseState) (e : SyntaxError) :
    (s.object e).bare = { s.bare with errors := e :: s.bare.errors } := rfl

theorem upcoming_bare (s : ParseState) : s.upcoming = Lookahead.nextKind s.bare.tokens :=
  (Lookahead.nextKind_bare s.tokens).symm

end ParseState

namespace Parse

/-- Readings that agree but for trivia and places go on agreeing. -/
theorem run_bare {read : Construct → ParseState → ParseState}
    (inside : ∀ c {s s'}, s.bare = s'.bare → (read c s).bare = (read c s').bare) {α : Type}
    (p : Parse α) {s s' : ParseState} (h : s.bare = s'.bare) :
    (p.run read s).1 = (p.run read s').1 ∧ (p.run read s).2.bare = (p.run read s').2.bare := by
  have tokens : bareTokens s.tokens = bareTokens s'.tokens := congrArg BareState.tokens h
  have past : s.trivia.bare = s'.trivia.bare := by rw [s.bare_trivia, s'.bare_trivia, h]
  induction p generalizing s s' with
  | done a => exact ⟨rfl, h⟩
  | andThen p f ihp ihf =>
      obtain ⟨value, state⟩ := ihp h tokens past
      simp only [run, ← value]
      exact ihf _ state (congrArg BareState.tokens state)
        (by rw [ParseState.bare_trivia, ParseState.bare_trivia, state])
  | current =>
      refine ⟨?_, past⟩
      rw [run_current, run_current, s.upcoming_bare, s'.upcoming_bare, h]
  | nth? n =>
      refine ⟨?_, h⟩
      rw [run_nth?, run_nth?, ← Lookahead.nth?_bare, tokens, Lookahead.nth?_bare]
  | ahead question =>
      refine ⟨?_, h⟩
      rw [run_ahead, run_ahead, ← Lookahead.ask_bare, tokens, Lookahead.ask_bare]
  | bump => exact ⟨rfl, by rw [run_bump, run_bump, s.bare_bump, s'.bare_bump, h]⟩
  | skip p => exact ⟨rfl, by rw [run_skip, run_skip, s.bare_skip, s'.bare_skip, h]⟩
  | fail e =>
      refine ⟨rfl, ?_⟩
      rw [run_fail, run_fail, ParseState.bare_object, ParseState.bare_object, past]
  | group p ih =>
      have opened : s.trivia.opened.bare = s'.trivia.opened.bare := by
        rw [ParseState.bare_opened, ParseState.bare_opened, past]
      obtain ⟨value, state⟩ := ih opened (congrArg BareState.tokens opened)
        (by rw [ParseState.bare_trivia, ParseState.bare_trivia, opened])
      have siblings : Forest.bare s.trivia.level = Forest.bare s'.trivia.level :=
        congrArg BareState.level past
      refine ⟨value, ?_⟩
      rw [run_group, run_group, ParseState.bare_closed, ParseState.bare_closed, state, siblings]
  | wrap k p ih =>
      obtain ⟨value, state⟩ := ih h tokens past
      refine ⟨value, ?_⟩
      rw [run_wrap, run_wrap, ParseState.bare_wrapped, ParseState.bare_wrapped, state]
  | inner c => exact ⟨rfl, inside c h⟩

end Parse

theorem Construct.read_bare (depth : Nat) (c : Construct) {s s' : ParseState}
    (h : s.bare = s'.bare) : (c.read depth s).bare = (c.read depth s').bare := by
  induction depth generalizing c s s' with
  | zero => exact h
  | succ depth ih => exact (Parse.run_bare (fun c _ _ h => ih c h) c.rule h).2

theorem readFile_bare {ts us : List Token} (h : bareTokens ts = bareTokens us) :
    (readFile ts).bare = (readFile us).bare := by
  have bound : nestingBound ts = nestingBound us := by
    rw [nestingBound, nestingBound, ← Lookahead.significant_bare, h, Lookahead.significant_bare]
  have start : (ParseState.start ts).trivia.bare = (ParseState.start us).trivia.bare := by
    rw [ParseState.bare_trivia, ParseState.bare_trivia]
    simp only [ParseState.bare, ParseState.start, h]
  rw [readFile, readFile, ParseState.bare_trivia, ParseState.bare_trivia, bound]
  exact Construct.read_bare _ _ start

/-- The objections of the parser itself, which come after those to single tokens. -/
def parserErrors (text : String) : List Diagnostic :=
  (parse text).errors.drop (lexicalErrors (lex text)).length

/-- Texts that differ in trivia only have trees that differ in trivia only, and the parser objects
to both in the same words. -/
theorem parse_bare {text text' : String}
    (h : bareTokens ((lex text).map Lexeme.token) = bareTokens ((lex text').map Lexeme.token)) :
    (parse text).root.bare = (parse text').root.bare ∧
    (parserErrors text).map (·.error.message) = (parserErrors text').map (·.error.message) := by
  have read := readFile_bare h
  have level := congrArg BareState.level read
  have errors := congrArg (fun b => b.errors.reverse.map SyntaxError.message) read
  constructor
  · simp only [ParseState.bare] at level
    simp only [parse, Tree.bare, Forest.bare_reverse, level]
  · simpa [parserErrors, parse, ParseState.bare, Function.comp_def] using errors

/-- A comment and a line end where a blank could be, and the trees are alike. -/
theorem parse_bare_comment :
    bareTokens ((lex "class C;").map Lexeme.token) =
      bareTokens ((lex "class/**/C\n;").map Lexeme.token) ∧
    (parse "class C;").root.bare = (parse "class/**/C\n;").root.bare ∧
    (parserErrors "class C;").map (·.error.message) =
      (parserErrors "class/**/C\n;").map (·.error.message) := by
  have same : bareTokens ((lex "class C;").map Lexeme.token) =
      bareTokens ((lex "class/**/C\n;").map Lexeme.token) := by
    decide +kernel
  exact ⟨same, parse_bare same⟩

end SharpRefactor
