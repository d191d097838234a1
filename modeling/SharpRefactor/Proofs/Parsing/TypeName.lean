import SharpRefactor.Proofs.Syntax.Names
import SharpRefactor.Proofs.Parsing.TypeGrammar.Sound

/-!
Reading a text as a type. A text without faults is accepted exactly if its tokens, trivia apart, are
those of a tree that spells a type, and that tree is the result. Only a comment can stand beside the
type, since white space around a text is cut off before it is read.
-/

namespace SharpRefactor

open Unicode

mutual

theorem Tree.tokens_bare : ∀ t : Tree, Forest.tokens t.bare = bareTokens t.tokens
  | .leaf t => by
      rw [Tree.bare, Tree.tokens_leaf]
      cases trivia : t.isTrivia with
      | true => simp [bareTokens, trivia]
      | false => simp [bareTokens, trivia]
  | .node k ts => by
      rw [Tree.bare, Forest.tokens_cons, Tree.tokens_node, Tree.tokens_node, Forest.tokens_nil,
        List.append_nil, Forest.tokens_bare ts]

theorem Forest.tokens_bare :
    ∀ ts : Forest, Forest.tokens (Forest.bare ts) = bareTokens (Forest.tokens ts)
  | [] => by simp [Forest.bare, bareTokens]
  | t :: ts => by
      rw [Forest.bare, Forest.tokens_append, Forest.tokens_cons, Tree.tokens_bare t,
        Forest.tokens_bare ts]
      simp [bareTokens]

end

/-! ### Texts without comments -/

/-- Tokens that neither begin nor end with trivia. -/
structure Tight (ts : List Token) : Prop where
  first : ∀ t ∈ ts.head?, t.isTrivia = false
  last : ∀ t ∈ ts.getLast?, t.isTrivia = false

namespace Tight

variable {ts us : List Token}

theorem suffix_nil (h : Tight (ts ++ us)) (trivia : bareTokens us = []) : us = [] := by
  cases split : us.getLast? with
  | none => exact List.getLast?_eq_none_iff.mp split
  | some t =>
      have solid := h.last t (by rw [List.getLast?_append, split]; rfl)
      have member : t ∈ bareTokens us :=
        List.mem_filter.mpr ⟨List.mem_of_getLast? split, by simp [solid]⟩
      rw [trivia] at member
      cases member

/-- A node with nothing but trivia beside it stands alone. -/
theorem alone {l : Forest} {T : Tree} (h : Tight (Forest.tokens l)) (bare : Forest.bare l = [T]) :
    ∃ n, l = [n] ∧ n.bare = [T] := by
  cases l with
  | nil => cases bare
  | cons n ts =>
      have single : n.bare = [] ∨ ∃ u, n.bare = [u] := by
        cases n with
        | leaf t =>
            rw [Tree.bare]
            split
            · exact .inl rfl
            · exact .inr ⟨_, rfl⟩
        | node k us => exact .inr ⟨_, rfl⟩
      rcases single with gone | ⟨u, kept⟩
      · cases n with
        | leaf t =>
            have solid := h.first t (by simp)
            simp [Tree.bare, solid] at gone
        | node k us => cases gone
      · rw [Forest.bare, kept, List.singleton_append, List.cons.injEq] at bare
        obtain ⟨rfl, rest⟩ := bare
        rw [Forest.tokens_cons] at h
        have none := h.suffix_nil (by rw [← Forest.tokens_bare, rest, Forest.tokens_nil])
        refine ⟨n, ?_, kept⟩
        cases ts with
        | nil => rfl
        | cons t ts =>
            cases t with
            | leaf t => simp at none
            | node k us => cases rest

end Tight

def Kind.isComment (k : Kind) : Bool := k == .lineComment || k == .blockComment

/-- Trivia that is no comment is a run of white space. -/
theorem Lexer.cut_trivia {c : Char} {cs : List Char} : (cut c cs).kind.isTrivia = true →
    (c = '/' ∧ (cut c cs).kind.isComment = true) ∨
      (isWhiteSpace c = true ∧ (cut c cs).more = run isWhiteSpace cs) := by
  apply cut_cases (P := fun found => found.kind.isTrivia = true →
    (c = '/' ∧ found.kind.isComment = true) ∨
      (isWhiteSpace c = true ∧ found.more = run isWhiteSpace cs))
  case white => exact fun white _ => .inr ⟨white, rfl⟩
  case line => exact fun slash _ _ => .inl ⟨slash, rfl⟩
  case block => exact fun slash _ _ _ => .inl ⟨slash, rfl⟩
  case keyword =>
    have solid : ∀ k ∈ Kind.keywords, k.isTrivia = false := by decide
    intro k word trivia
    rw [solid k (List.mem_of_find?_eq_some word)] at trivia
    cases trivia
  case numeral => rcases number_kind (c :: cs) with h | h <;> simp [h, Kind.isTrivia]
  case mark =>
    have solid : ∀ k ∈ Kind.marks, k.isTrivia = false := by decide
    intro k found trivia
    rw [solid k (List.mem_of_find?_eq_some found)] at trivia
    cases trivia
  all_goals simp [Kind.isTrivia]

theorem lexChars_trivia (cs : List Char) : ∀ t ∈ (lexChars cs).map Lexeme.token, t.text.toList ≠ [] ∧
    (t.isTrivia = true → (t.kind.isComment = true ∧ '/' ∈ t.text.toList) ∨
      ∀ d ∈ t.text.toList, isWhiteSpace d = true) := by
  refine forall_lexChars (fun c cs => ⟨by simp, fun trivia => ?_⟩) cs
  rw [String.toList_ofList]
  rcases Lexer.cut_trivia trivia with ⟨rfl, comment⟩ | ⟨white, length⟩
  · exact .inl ⟨comment, List.mem_cons_self⟩
  · rw [length, Lexer.take_run]
    refine .inr (List.forall_mem_cons.mpr ⟨white, fun d member => ?_⟩)
    exact List.all_eq_true.mp (List.all_takeWhile (p := isWhiteSpace)) d member

/-- Tokens of a text that has no white space at its ends are tight if no comment is among the two
tokens there. -/
theorem tight_lexChars {cs : List Char} (first : ∀ c ∈ cs.head?, isWhiteSpace c = false)
    (last : ∀ c ∈ cs.getLast?, isWhiteSpace c = false)
    (front : ∀ t ∈ ((lexChars cs).map Lexeme.token).head?, t.kind.isComment = false ∨ '/' ∉ cs)
    (back : ∀ t ∈ ((lexChars cs).map Lexeme.token).getLast?, t.kind.isComment = false ∨ '/' ∉ cs) :
    Tight ((lexChars cs).map Lexeme.token) := by
  have own := lexChars_trivia cs
  have spelled := spelledChars_lexChars cs
  generalize (lexChars cs).map Lexeme.token = ts at own spelled front back
  subst spelled
  have white : ∀ t ∈ ts, (t.kind.isComment = false ∨ '/' ∉ spelledChars ts) → t.isTrivia = true →
      ∀ d ∈ t.text.toList, isWhiteSpace d = true := by
    intro t member plain trivia
    refine ((own t member).2 trivia).resolve_left fun ⟨comment, slash⟩ => ?_
    rcases plain with other | plain
    · simp [comment] at other
    · exact plain (List.mem_flatMap.mpr ⟨t, member, slash⟩)
  constructor
  · intro t here
    obtain ⟨us, rfl⟩ := List.head?_eq_some_iff.mp here
    have some := (own t List.mem_cons_self).1
    obtain ⟨c, cs, split⟩ := List.exists_cons_of_ne_nil some
    refine Bool.of_not_eq_true fun trivia => ?_
    have blank := white t List.mem_cons_self (front t rfl) trivia c (by simp [split])
    rw [first c (by simp [spelledChars, split])] at blank
    cases blank
  · intro t here
    obtain ⟨us, rfl⟩ := List.getLast?_eq_some_iff.mp here
    have member : t ∈ us ++ [t] := by simp
    have some := (own t member).1
    refine Bool.of_not_eq_true fun trivia => ?_
    have blank := white t member (back t here) trivia _ (List.getLast_mem some)
    rw [last _ (by simp [spelledChars, List.getLast?_append,
      List.getLast?_eq_some_getLast some])] at blank
    cases blank

/-- A trimmed text has white space at neither end. -/
theorem trimmed_ends (text : String) :
    (∀ c ∈ (trimmed text).toList.head?, isWhiteSpace c = false) ∧
      ∀ c ∈ (trimmed text).toList.getLast?, isWhiteSpace c = false := by
  have stripped : ∀ cs : List Char,
      ∀ c ∈ (cs.dropWhile isWhiteSpace).head?, isWhiteSpace c = false := by
    intro cs c here
    have := List.head?_dropWhile_not isWhiteSpace cs
    rw [Option.mem_def.mp here] at this
    simpa using this
  rw [trimmed, String.toList_ofList]
  constructor
  · intro c here
    have suffix := List.dropWhile_suffix isWhiteSpace
      (l := (text.toList.dropWhile isWhiteSpace).reverse)
    obtain ⟨rest, whole⟩ := List.reverse_prefix.mpr suffix
    rw [List.reverse_reverse] at whole
    exact stripped text.toList c (by rw [← whole, List.head?_append, Option.mem_def.mp here]; rfl)
  · intro c here
    rw [List.getLast?_reverse] at here
    exact stripped _ c here

theorem tight_lex_trimmed {text : String}
    (front : ∀ t ∈ ((lex (trimmed text)).map Lexeme.token).head?, t.kind.isComment = false)
    (back : ∀ t ∈ ((lex (trimmed text)).map Lexeme.token).getLast?, t.kind.isComment = false) :
    Tight ((lex (trimmed text)).map Lexeme.token) := by
  obtain ⟨first, last⟩ := trimmed_ends text
  exact tight_lexChars first last (fun t here => .inl (front t here)) fun t here => .inl (back t here)

theorem tight_lex_plain {text : String} (plain : '/' ∉ text.toList) :
    Tight ((lex (trimmed text)).map Lexeme.token) := by
  obtain ⟨first, last⟩ := trimmed_ends text
  have none : '/' ∉ (trimmed text).toList := by
    intro slash
    rw [trimmed, String.toList_ofList] at slash
    have inside := List.mem_reverse.mp
      ((List.dropWhile_sublist _).mem (List.mem_reverse.mp slash))
    exact plain ((List.dropWhile_sublist _).mem inside)
  exact tight_lexChars first last (fun _ _ => .inr none) fun _ _ => .inr none

/-! ### Reading -/

/-- The tokens of a text read as a type: whether they begin like one, and where the reading ends. -/
def readTypeName (ts : List Token) : Bool × ParseState :=
  Parse.typeName.run (Construct.read (nestingBound ts)) (ParseState.start ts)

section Reading

open BareState

variable {ts : List Token} {T : Tree}

theorem readTypeName_yield (ts : List Token) : (readTypeName ts).2.yield = ts :=
  Parse.run_yield (Construct.read_yield _) Parse.typeName (ParseState.start ts)

/-- Tokens begin like a type, or nothing is read. -/
theorem readTypeName_bare (ts : List Token) :
    let b : BareState := ⟨bareTokens ts, [], []⟩
    let begins := b.front == .identifier || b.front.isPredefinedType
    (readTypeName ts).1 = begins ∧ (readTypeName ts).2.bare =
      if begins then Construct.readBare (nestingBound ts) .type b else b := by
  obtain ⟨begins, state⟩ :=
    Parse.run_eq_runBare (Construct.bare_read (nestingBound ts)) Parse.typeName (ParseState.start ts)
  have run : ∀ b : BareState, Parse.typeName.runBare (Construct.readBare (nestingBound ts)) b =
      (b.front == .identifier || b.front.isPredefinedType,
        if b.front == .identifier || b.front.isPredefinedType then
          Construct.readBare (nestingBound ts) .type b else b) := by
    intro b
    rw [Parse.typeName, Parse.runBare_bind, Parse.runBare_atTypeStart]
    split <;> simp_all
  exact ⟨begins.trans (congrArg Prod.fst (run _)), state.trans (congrArg Prod.snd (run _))⟩

theorem ready_start (ts : List Token) : Ready (nestingBound ts) ⟨bareTokens ts, [], []⟩ where
  solid := ⟨fun _ => isTrivia_of_mem_bareTokens, by simp⟩
  room := Nat.le_of_eq (by
    rw [nestingBound, ← Lookahead.significant_bare,
      Lookahead.significant_of_solid fun _ => isTrivia_of_mem_bareTokens])

/-- What is read to its end without objections spells a type. -/
theorem readTypeName_sound (started : (readTypeName ts).1 = true)
    (fine : (readTypeName ts).2.errors = []) (done : (readTypeName ts).2.tokens = []) :
    ∃ T, Spells .whole [T] ∧ Forest.bare (readTypeName ts).2.level.reverse = [T] ∧
      T.tokens = bareTokens ts := by
  obtain ⟨begins, state⟩ := readTypeName_bare ts
  rw [started] at begins
  rw [← begins, if_pos rfl] at state
  have errors : (readTypeName ts).2.bare.errors = [] := by simp [ParseState.bare, fine]
  obtain ⟨T, whole, level⟩ := Construct.sound (ready_start ts) .type (by rw [← state, errors])
  rw [← state] at level
  have bare : Forest.bare (readTypeName ts).2.level.reverse = [T] := by
    rw [Forest.bare_reverse, show Forest.bare (readTypeName ts).2.level = [T] from level]
    rfl
  refine ⟨T, whole, bare, ?_⟩
  have yield := readTypeName_yield ts
  rw [ParseState.yield, done, List.append_nil] at yield
  rw [← yield, ← Forest.tokens_bare, bare]
  simp

/-- The tokens of a tree that spells a type are read to its end, without objections. -/
theorem readTypeName_complete (whole : Spells .whole [T]) (tokens : T.tokens = bareTokens ts) :
    (readTypeName ts).1 = true ∧ (readTypeName ts).2.bare = ⟨[], [T], []⟩ := by
  obtain ⟨begins, state⟩ := readTypeName_bare ts
  have all : Forest.tokens [T] ++ [] = bareTokens ts := by simp [tokens]
  have front := whole.begins_front [] (l := []) (e := [])
  have ready := ready_start ts
  rw [← all] at begins state ready
  rw [front] at begins state
  refine ⟨begins, ?_⟩
  rw [if_pos rfl, whole.readBack [] [] [] ready ⟨by decide, by decide, by decide⟩] at state
  simpa using state

end Reading

/-- What `parseTypeName` makes of a text is what it makes of its tokens. -/
theorem parseTypeName_eq (text : String) :
    parseTypeName text =
      let ls := lex (trimmed text)
      let s := (readTypeName (ls.map Lexeme.token)).2
      if !(readTypeName (ls.map Lexeme.token)).1 then
        .error (.malformed ⟨.notATypeName (trimmed text), .ofSize 0 (trimmed text).utf8ByteSize⟩)
      else match lexicalErrors ls ++ s.errors.reverse, s.tokens, s.level with
        | d :: _, _, _ => .error (.malformed d)
        | [], _ :: _, _ => .error (.malformed ⟨.trailingTokens, s.here⟩)
        | [], [], [.node k ts] => .ok (.node k ts)
        | [], [], _ => .error .surrounded :=
  rfl

/-- A text is accepted as a tree, if reading it to its end leaves that node alone and nothing was
wrong with its characters or its tokens. -/
theorem parseTypeName_eq_ok_iff {text : String} {tree : Tree} :
    parseTypeName text = .ok tree ↔
      let ls := lex (trimmed text)
      let read := readTypeName (ls.map Lexeme.token)
      lexicalErrors ls = [] ∧ read.1 = true ∧ read.2.errors = [] ∧ read.2.tokens = [] ∧
        read.2.level = [tree] ∧ tree.isNode = true := by
  rw [parseTypeName_eq]
  generalize lex (trimmed text) = ls
  simp only
  generalize readTypeName (ls.map Lexeme.token) = read
  obtain ⟨started, tokens, level, offset, errors⟩ := read
  cases started with
  | false => simp
  | true =>
      simp only [Bool.not_true, Bool.false_eq_true, if_false, true_and]
      constructor
      · intro accepted
        split at accepted
        · cases accepted
        · cases accepted
        · next fine =>
          cases accepted
          obtain ⟨lexical, read⟩ := List.append_eq_nil_iff.mp fine
          exact ⟨lexical, List.reverse_eq_nil_iff.mp read, rfl, rfl, rfl⟩
        · cases accepted
      · rintro ⟨lexical, rfl, rfl, rfl, isNode⟩
        cases tree with
        | leaf t => cases isNode
        | node k us => simp [lexical]

/-- A tree that is accepted spells a type, with the tokens of the text. -/
theorem parseTypeName_sound {text : String} {tree : Tree} (accepted : parseTypeName text = .ok tree) :
    ∃ T, tree.bare = [T] ∧ Spells .whole [T] ∧
      T.tokens = bareTokens ((lex (trimmed text)).map Lexeme.token) := by
  obtain ⟨-, started, fine, done, level, -⟩ := parseTypeName_eq_ok_iff.mp accepted
  obtain ⟨T, whole, bare, tokens⟩ := readTypeName_sound started fine done
  rw [level] at bare
  exact ⟨T, by simpa [Forest.bare] using bare, whole, tokens⟩

/-- A tree that is accepted has the tokens of the text, trivia included. -/
theorem parseTypeName_tokens {text : String} {tree : Tree} (accepted : parseTypeName text = .ok tree) :
    tree.tokens = (lex (trimmed text)).map Lexeme.token := by
  obtain ⟨-, -, -, done, level, -⟩ := parseTypeName_eq_ok_iff.mp accepted
  have yield := readTypeName_yield ((lex (trimmed text)).map Lexeme.token)
  rw [ParseState.yield, done, level] at yield
  simpa using yield

theorem parseTypeName_text {text : String} {tree : Tree} (accepted : parseTypeName text = .ok tree) :
    tree.text = trimmed text := by
  rw [Tree.text, parseTypeName_tokens accepted, tokensText_lex]

theorem Spells.isNode {part : TypePart} {ts : Forest} (h : Spells part ts) (one : part ≠ .arguments) :
    ∃ k us, ts = [.node k us] := by
  induction h with
  | undotted _ ih | named _ ih | plain _ ih => exact ih (by simp)
  | last | more => exact absurd rfl one
  | _ => exact ⟨_, _, rfl⟩

theorem Spells.isType {part : TypePart} {ts : Forest} (h : Spells part ts) (one : part ≠ .arguments) :
    ∀ T ∈ ts, (T.isNode && T.kind.isType) = true := by
  induction h with
  | last | more => exact absurd rfl one
  | undotted _ ih | named _ ih | plain _ ih => exact ih (by simp)
  | _ => simp [Tree.isNode, Tree.kind, Kind.isType]

theorem parseTypeName_isType {text : String} {tree : Tree} (accepted : parseTypeName text = .ok tree) :
    tree.isNode ∧ tree.kind.isType := by
  obtain ⟨T, bare, whole, -⟩ := parseTypeName_sound accepted
  obtain ⟨-, -, -, -, -, isNode⟩ := parseTypeName_eq_ok_iff.mp accepted
  have type := whole.isType (by simp) T List.mem_cons_self
  cases tree with
  | leaf t => cases isNode
  | node k us =>
      cases bare
      exact ⟨rfl, (Bool.and_eq_true_iff.mp type).2⟩

/-- A type without comments around it is not taken for one that has them. -/
theorem parseTypeName_ne_surrounded {text : String}
    (tight : Tight ((lex (trimmed text)).map Lexeme.token)) :
    parseTypeName text ≠ .error .surrounded := by
  rw [parseTypeName_eq]
  generalize lex (trimmed text) = ls at tight ⊢
  simp only
  split
  · simp
  next started =>
  have sound := readTypeName_sound (by simpa using started)
  split
  · simp
  · simp
  · simp
  · next fine done other =>
    obtain ⟨T, whole, bare, tokens⟩ :=
      sound (List.reverse_eq_nil_iff.mp (List.append_eq_nil_iff.mp fine).2) done
    have yield := readTypeName_yield (ls.map Lexeme.token)
    rw [ParseState.yield, done, List.append_nil] at yield
    obtain ⟨n, alone, inside⟩ := Tight.alone (by rwa [yield]) bare
    obtain ⟨k, us, node⟩ := whole.isNode (by simp)
    rw [List.singleton_inj] at node
    subst node
    cases n with
    | leaf t =>
        rw [Tree.bare] at inside
        split at inside
        · cases inside
        · cases inside
    | node k us => exact (other k us (List.reverse_eq_iff.mp alone)).elim

/-- A text that has the tokens of a tree that spells a type is accepted. -/
theorem parseTypeName_complete {text : String} {T : Tree}
    (tight : Tight ((lex (trimmed text)).map Lexeme.token))
    (fine : lexicalErrors (lex (trimmed text)) = []) (whole : Spells .whole [T])
    (tokens : T.tokens = bareTokens ((lex (trimmed text)).map Lexeme.token)) :
    ∃ tree, parseTypeName text = .ok tree ∧ tree.bare = [T] := by
  obtain ⟨started, state⟩ := readTypeName_complete whole tokens
  obtain ⟨left, level, errors⟩ := BareState.mk.inj state
  have yield := readTypeName_yield ((lex (trimmed text)).map Lexeme.token)
  have done : (readTypeName ((lex (trimmed text)).map Lexeme.token)).2.tokens = [] := by
    rw [← yield] at tight
    exact tight.suffix_nil left
  rw [ParseState.yield, done, List.append_nil] at yield
  have bare : Forest.bare (readTypeName ((lex (trimmed text)).map Lexeme.token)).2.level.reverse =
      [T] := by
    rw [Forest.bare_reverse, level]
    rfl
  obtain ⟨n, alone, same⟩ := Tight.alone (by rwa [yield]) bare
  obtain ⟨k, us, node⟩ := whole.isNode (by simp)
  refine ⟨n, parseTypeName_eq_ok_iff.mpr ⟨fine, started, List.map_eq_nil_iff.mp errors, done,
    List.reverse_eq_iff.mp alone, ?_⟩, same⟩
  cases n with
  | node k us => rfl
  | leaf t =>
      rw [List.singleton_inj.mp node, Tree.bare] at same
      split at same <;> cases same

end SharpRefactor
