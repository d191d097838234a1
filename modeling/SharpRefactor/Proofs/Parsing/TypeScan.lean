import SharpRefactor.Proofs.Parsing.TypeScan.Commitments

/-!
The grammar of types is written twice, once as a scan over the tokens ahead and once as rules that
read. Both go equally far: where the scan passes a type, reading passes the same tokens, objects to
nothing and leaves a node that spells a type with them. What a scan has promised, a cast or the
declaration of a local, is therefore read up to its operand or its name without objections.
-/

namespace SharpRefactor

open Lookahead BareState Relation

/-- The scan of a type and the reading of one agree. The scan fails exactly where no type begins;
where it does not, reading takes the tokens that the scan passed and the trivia behind them, objects
to nothing and adds one node of a type. So what a scan has announced is read without objections: a
cast up to its operand, and the declaration of a local up to what follows its first name. -/
theorem typeScan_agrees (s : ParseState) :
    (afterType? s.tokens = none ↔
      s.upcoming ≠ .identifier ∧ s.upcoming.isPredefinedType = false) ∧
    (∀ rest, afterType? s.tokens = some rest →
      rest <:+ s.tokens ∧ ∃ s', Parse.type.Runs s () s' ∧ ReadsType s rest s') ∧
    (s.upcoming = .lParen → atCast s.tokens = true →
      ∃ c m : ParseState, TransGen Begins ⟨.inner .unary, s⟩ ⟨Parse.cast, c⟩ ∧
        TransGen Begins ⟨Parse.cast, c⟩ ⟨.inner .unary, m⟩ ∧ m.errors = s.errors ∧
        ∃ (o close : Token) (T : Tree), o.kind = .lParen ∧ Spells .whole [T] ∧ close.kind = .rParen ∧
          Forest.bare m.level.reverse = [.leaf o, T, .leaf close]) ∧
    (atLocalDeclaration s.tokens = true →
      ∃ d t m : ParseState, TransGen Begins ⟨.inner .statement, s⟩ ⟨Parse.localDeclaration, d⟩ ∧
        TransGen Begins ⟨Parse.localDeclaration, d⟩ ⟨.inner .declarators, t⟩ ∧
        TransGen Begins ⟨.inner .declarators, t⟩
          ⟨do if ← Parse.atKind .eq then Parse.equalsValue, m⟩ ∧
        m.upcoming ∈ [Kind.eq, .semicolon, .comma] ∧ m.errors = s.errors ∧
        (∃ T, Spells .whole [T] ∧ Forest.bare t.level = [T]) ∧
        ∃ name : Token, name.kind = .identifier ∧ Forest.bare m.level = [.leaf name]) := by
  refine ⟨afterType?_eq_none_iff, ?type, ?cast, ?declaration⟩
  case type =>
    intro rest scan
    have runs := Parse.runs_run Parse.type s
    refine ⟨afterType?_suffix scan, _, runs, ?_⟩
    have read := Construct.readsType_of_scan scan
    rwa [Construct.readAll_eq] at read
  case cast =>
    intro opens cast
    have shape := cast
    rw [atCast, next_eq] at shape
    cases scan : afterType? (past s.tokens) with
    | none => simp [scan] at shape
    | some rest =>
        simp only [scan, next_eq] at shape
        split at shape
        case h_2 => cases shape
        case h_1 closed =>
          have closes : nextKind rest = .rParen := congrArg Prod.fst closed
          let c := s.trivia.opened.trivia
          have same : past c.tokens = past s.tokens := by simp [c]
          have front : c.upcoming = .lParen := by simp [c, opens]
          obtain ⟨m, chain, -, errors, o, close, T, first, whole, last, level⟩ :=
            begins_castOperand (s := c) (by rw [same]; exact scan) closes (by simp [front])
          exact ⟨c, m, begins_cast opens cast, chain, errors, o, close, T, first.trans front, whole,
            last, level⟩
  case declaration =>
    intro declares
    have inside : atLocalDeclaration s.trivia.tokens = true := by
      rwa [← atLocalDeclaration_bare, bareTokens_trivia, atLocalDeclaration_bare]
    obtain ⟨t, m, declared, named, follows, errors, type, name⟩ := begins_declared inside
    exact ⟨s.trivia, t, m, begins_localDeclaration declares, declared, named, follows, errors, type,
      name⟩

/-- A cast to a list of numbers and the declaration of an array of them. -/
theorem typeScan_agrees_list :
    let list : List Token := [⟨.identifier, "List"⟩, ⟨.less, "<"⟩, ⟨.intKw, "int"⟩, ⟨.greater, ">"⟩]
    let x : Token := ⟨.identifier, "x"⟩
    let cast := ParseState.start (⟨.lParen, "("⟩ :: list ++ [⟨.rParen, ")"⟩, x])
    let declaration := ParseState.start
      (⟨.constKw, "const"⟩ :: list ++ [⟨.lBracket, "["⟩, ⟨.rBracket, "]"⟩, ⟨.whitespace, " "⟩, x,
        ⟨.semicolon, ";"⟩])
    let type := ParseState.start (list ++ [⟨.whitespace, " "⟩, x])
    (∃ s', Parse.type.Runs type () s' ∧ s'.tokens = [x] ∧ s'.errors = []) ∧
    (∃ c m : ParseState, TransGen Begins ⟨.inner .unary, cast⟩ ⟨Parse.cast, c⟩ ∧
      TransGen Begins ⟨Parse.cast, c⟩ ⟨.inner .unary, m⟩ ∧ m.errors = []) ∧
    ∃ d t : ParseState, TransGen Begins ⟨.inner .statement, declaration⟩ ⟨Parse.localDeclaration, d⟩ ∧
      TransGen Begins ⟨Parse.localDeclaration, d⟩ ⟨.inner .declarators, t⟩ := by
  intro list x cast declaration type
  obtain ⟨-, scanned, -, -⟩ := typeScan_agrees type
  obtain ⟨-, s', runs, read⟩ := scanned [⟨.whitespace, " "⟩, x] (by decide +kernel)
  obtain ⟨-, -, casts, -⟩ := typeScan_agrees cast
  obtain ⟨c, m, opened, operand, errors, -⟩ := casts (by decide +kernel) (by decide +kernel)
  obtain ⟨-, -, -, declares⟩ := typeScan_agrees declaration
  obtain ⟨d, t, -, statement, declared, -⟩ := declares (by decide +kernel)
  exact ⟨⟨s', runs, read.tokens, read.errors⟩, ⟨c, m, opened, operand, errors⟩, d, t, statement,
    declared⟩

end SharpRefactor
