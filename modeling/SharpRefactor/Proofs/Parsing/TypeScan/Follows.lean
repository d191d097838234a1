import SharpRefactor.Proofs.Parsing.Scanning
import SharpRefactor.Proofs.Parsing.TypeName

/-!
Without trivia, types are read as far as they are scanned: what a scan over the tokens ahead passes is
read without objections, and what is left is what the scan has left.
-/

namespace SharpRefactor

open Lookahead BareState

namespace Lookahead

theorem past_solid {t : Token} (solid : t.isTrivia = false) (ts : List Token) :
    past (t :: ts) = ts :=
  past_cons (by simp [solid]) ts

/-- The kind of the token after the next one. -/
theorem nth?_one_beq (ts : List Token) {k : Kind} (real : k ≠ .eof) :
    (nth? 1 ts == some k) = (nextKind (past ts) == k) := by
  have zero : ∀ ts : List Token, (nth? 0 ts == some k) = (nextKind ts == k) := by
    intro ts
    induction ts with
    | nil => simp [nth?, Ne.symm real]
    | cons t ts ih =>
        cases h : t.isTrivia with
        | true => simpa [nth?, h, nextKind_cons_trivia h] using ih
        | false => simp [nth?, h, nextKind_cons (by simp [h] : ¬ t.isTrivia)]
  induction ts with
  | nil => simp [nth?, Ne.symm real]
  | cons t ts ih =>
      cases h : t.isTrivia with
      | true => simpa [nth?, h, past_cons_trivia h] using ih
      | false => simpa [nth?, h, past_cons (by simp [h] : ¬ t.isTrivia)] using zero ts

end Lookahead

namespace Construct

open Parse

variable {depth : Nat}

/-- Where fewer than `n` tokens are left, types and lists of arguments are read as far as they are
scanned. -/
structure Follows (depth n : Nat) : Prop where
  type : ∀ {ts l e rest}, ts.length < n → Ready depth ⟨ts, l, e⟩ → afterType? ts = some rest →
    ∃ T, Spells .whole [T] ∧ ts = T.tokens ++ rest ∧
      readBare depth .type ⟨ts, l, e⟩ = ⟨rest, T :: l, e⟩
  arguments : ∀ {ts l e rest}, ts.length < n → Ready depth ⟨ts, l, e⟩ →
    afterArguments? ts = some rest →
    ∃ args g, Spells .arguments args ∧ g.kind = .greater ∧ ts = Forest.tokens args ++ g :: rest ∧
      readBare depth .typeArguments ⟨ts, l, e⟩ = ⟨g :: rest, args.reverse ++ l, e⟩

variable {l : Forest} {e : List SyntaxError}

theorem simpleTypeName_follows {t : Token} {ts : List Token} (follows : Follows depth ts.length)
    (name : t.kind = .identifier) (ready : Ready depth ⟨t :: ts, l, e⟩) :
    ∃ T, Spells .simple [T] ∧ t :: ts = T.tokens ++ afterArgumentsOf ts ∧
      (simpleTypeName.runBare (readBare depth) ⟨t :: ts, l, e⟩).2 =
        ⟨afterArgumentsOf ts, T :: l, e⟩ := by
  have solid := ready.solid.tokens
  rw [List.forall_mem_cons] at solid
  have scan : atGenericType (t :: ts) =
      (if nextKind ts = .less then afterArguments? (past ts) else none).isSome := by
    rw [atGenericType, afterTypeArguments?_eq, past_solid solid.1]
  -- A list of arguments that is not complete does not belong to the name.
  have plain : atGenericType (t :: ts) = false → afterArgumentsOf ts = ts →
      ∃ T, Spells .simple [T] ∧ t :: ts = T.tokens ++ afterArgumentsOf ts ∧
        (simpleTypeName.runBare (readBare depth) ⟨t :: ts, l, e⟩).2 =
          ⟨afterArgumentsOf ts, T :: l, e⟩ := by
    intro plain stops
    refine ⟨_, .identifier name, by simp [stops], ?_⟩
    rw [simpleTypeName_plain plain, stops]
    simp [identifierName, runBare_node, runBare_require_found (front_cons name rfl)]
  by_cases less : nextKind ts = .less
  case neg => exact plain (by rw [scan, if_neg less]; rfl) (afterArgumentsOf_of_ne less)
  obtain ⟨o, ts, rfl, left⟩ := exists_of_front (b := ⟨ts, l, e⟩)
    (ready.later [t] ready.solid.level).solid less (by simp)
  rw [List.forall_mem_cons] at solid
  have opened : Ready depth ⟨ts, [.leaf o], e⟩ :=
    ready.later [t, o] (by simp [bare_leaf solid.2.1])
  have stops := afterArgumentsOf_less less
  rw [if_pos less, past_solid solid.2.1] at scan
  rw [past_solid solid.2.1] at stops
  cases listed : afterArguments? ts with
  | none =>
      rw [listed] at scan stops
      exact plain scan stops
  | some rest =>
      rw [listed] at scan stops
      obtain ⟨args, g, inside, right, tokens, read⟩ :=
        follows.arguments (by simp) opened listed
      rw [Option.getD_some] at stops
      rw [stops]
      refine ⟨_, .generic name left inside right, by simp [tokens, Forest.tokens_append], ?_⟩
      rw [simpleTypeName_generic scan]
      simp [genericName, runBare_node, read, runBare_require_found (front_cons right rfl)]

theorem qualifiers_follows {n : Nat} (follows : Follows depth n) {ts : List Token} {L : Tree}
    (few : ts.length ≤ n) (dotted : Spells .dotted [L]) (ready : Ready depth ⟨ts, [L], e⟩) :
    ∃ T, Spells .dotted [T] ∧ L.tokens ++ ts = T.tokens ++ afterQualifiers ts ∧
      readBare depth .qualifiers ⟨ts, [L], e⟩ = ⟨afterQualifiers ts, [T], e⟩ := by
  induction length : ts.length using Nat.strongRecOn generalizing ts L with
  | ind length ih =>
  subst length
  rw [readBare_rule ready.solid ready.room, rule, Parse.qualifiers, runBare_bind]
  rw [runBare_if, runBare_atKind, runBare_secondIs]
  by_cases continues : nextKind ts = .dot ∧ nextKind (past ts) = .identifier
  case neg =>
    have stop : nextKind ts = .dot → nextKind (past ts) ≠ .identifier :=
      fun dot name => continues ⟨dot, name⟩
    refine ⟨L, dotted, by rw [afterQualifiers_of_ne stop], ?_⟩
    rw [if_neg (by simpa [BareState.front, nth?_one_beq] using stop), afterQualifiers_of_ne stop]
    rfl
  obtain ⟨dot, name⟩ := continues
  rw [afterQualifiers_dot dot name]
  obtain ⟨d, ts, rfl, dot'⟩ := exists_of_front ready.solid dot (by simp)
  have solid : d.isTrivia = false := ready.solid.tokens d List.mem_cons_self
  rw [past_solid solid] at name ⊢
  have next : Ready depth ⟨ts, [.leaf d, L], e⟩ := ready.later [d]
    (List.forall_mem_cons.mpr ⟨bare_leaf solid, ready.solid.level⟩)
  obtain ⟨t, ts, rfl, name'⟩ := exists_of_front next.solid name (by simp)
  rw [past_solid (next.solid.tokens t List.mem_cons_self)]
  simp only [List.length_cons] at few
  have fewer := (afterArgumentsOf_suffix ts).length_le
  obtain ⟨R, simple, tokens, named⟩ := simpleTypeName_follows (l := [.leaf d, L]) (e := e)
    ⟨fun short => follows.type (by omega), fun short => follows.arguments (by omega)⟩ name' next
  have whole : Spells .dotted [.node .qualifiedName [L, .leaf d, R]] := .qualified dotted dot' simple
  have again : Ready depth ⟨afterArgumentsOf ts, [.node .qualifiedName [L, .leaf d, R]], e⟩ :=
    (tokens ▸ next).later R.tokens whole.bare_eq
  obtain ⟨T, dotted', tokens', read⟩ := ih _ (by simp only [List.length_cons]; omega)
    (by omega) whole again rfl
  refine ⟨T, dotted', ?_, ?_⟩
  · rw [tokens, ← tokens']
    simp
  · have second : nth? 1 (d :: t :: ts) == some .identifier := by
      rw [nth?_one_beq _ (by simp), past_solid solid, name]
      rfl
    simp [front_cons dot' rfl, second, named, read]

theorem ranks_follows {ts : List Token} (ready : Ready depth ⟨ts, l, e⟩) :
    ∃ rs, (∀ r ∈ rs, IsRank r) ∧ ts = Forest.tokens rs ++ afterRanks ts ∧
      readBare depth .ranks ⟨ts, l, e⟩ = ⟨afterRanks ts, rs.reverse ++ l, e⟩ := by
  induction length : ts.length using Nat.strongRecOn generalizing ts l with
  | ind length ih =>
  subst length
  rw [readBare_rule ready.solid ready.room, rule, Parse.ranks, runBare_if, runBare_atRank]
  by_cases rank : nextKind ts = .lBracket ∧ nextKind (past ts) = .rBracket
  case neg =>
    have stop : nextKind ts = .lBracket → nextKind (past ts) ≠ .rBracket :=
      fun left right => rank ⟨left, right⟩
    refine ⟨[], by simp, by rw [afterRanks_of_ne stop]; rfl, ?_⟩
    rw [if_neg (by simpa [BareState.front, nth?_one_beq] using stop), afterRanks_of_ne stop]
    rfl
  obtain ⟨left, right⟩ := rank
  rw [afterRanks_rank left right]
  obtain ⟨o, ts, rfl, left'⟩ := exists_of_front ready.solid left (by simp)
  have solid : o.isTrivia = false := ready.solid.tokens o List.mem_cons_self
  rw [past_solid solid] at right ⊢
  have next : Ready depth ⟨ts, l, e⟩ := ready.later [o] ready.solid.level
  obtain ⟨c, ts, rfl, right'⟩ := exists_of_front next.solid right (by simp)
  rw [past_solid (next.solid.tokens c List.mem_cons_self)]
  have own : IsRank (.node .arrayRankSpecifier [.leaf o, .leaf c]) := .intro left' right'
  have again : Ready depth ⟨ts, .node .arrayRankSpecifier [.leaf o, .leaf c] :: l, e⟩ :=
    ready.later [o, c] (List.forall_mem_cons.mpr ⟨own.bare_eq, ready.solid.level⟩)
  obtain ⟨rs, ranks, tokens, read⟩ := ih _ (by simp only [List.length_cons]; omega) again rfl
  refine ⟨_ :: rs, List.forall_mem_cons.mpr ⟨own, ranks⟩, ?_, ?_⟩
  · rw [Forest.tokens_cons, List.append_assoc, ← tokens]
    simp
  · have second : nth? 1 (o :: c :: ts) == some .rBracket := by
      rw [nth?_one_beq _ (by simp), past_solid solid, right]
      rfl
    simp [front_cons left' rfl, second, runBare_node, read]

theorem arrayOf_follows {ts : List Token} {T : Tree} (element : Spells .element [T])
    (ready : Ready depth ⟨ts, [T], e⟩) :
    ∃ W, Spells .whole [W] ∧ T.tokens ++ ts = W.tokens ++ afterRanks ts ∧
      (arrayOf.runBare (readBare depth) ⟨ts, [T], e⟩).2 = ⟨afterRanks ts, [W], e⟩ := by
  rw [arrayOf, runBare_if, runBare_atRank]
  by_cases rank : nextKind ts = .lBracket ∧ nextKind (past ts) = .rBracket
  case neg =>
    have stop : nextKind ts = .lBracket → nextKind (past ts) ≠ .rBracket :=
      fun left right => rank ⟨left, right⟩
    refine ⟨T, .plain element, by rw [afterRanks_of_ne stop], ?_⟩
    rw [if_neg (by simpa [BareState.front, nth?_one_beq] using stop), afterRanks_of_ne stop]
    rfl
  obtain ⟨rs, ranks, tokens, read⟩ := ranks_follows ready
  -- The scan has passed the rank in front, so not to have read one would be to stop before it.
  have some : rs ≠ [] := by
    rintro rfl
    have fewer := afterRanks_suffix (past (past ts))
    rw [← afterRanks_rank rank.1 rank.2, ← show ts = afterRanks ts from tokens] at fewer
    have := significant_le_of_suffix fewer
    have := significant_past ts
    have := significant_past (past ts)
    have : 0 < significant ts := significant_pos (by simp [rank.1])
    omega
  refine ⟨_, .array element some ranks, ?_, ?_⟩
  · rw [Tree.tokens_node, Forest.tokens_cons, List.append_assoc, ← tokens]
  · rw [if_pos (by simp [BareState.front, nth?_one_beq, rank]), runBare_wrap, runBare_inner, read]
    simp

theorem type_follows {ts rest : List Token} (follows : Follows depth ts.length)
    (ready : Ready depth ⟨ts, l, e⟩) (scan : afterType? ts = some rest) :
    ∃ T, Spells .whole [T] ∧ ts = T.tokens ++ rest ∧
      readBare depth .type ⟨ts, l, e⟩ = ⟨rest, T :: l, e⟩ := by
  have inside : Ready depth ⟨ts, [], e⟩ := ready.later [] (by simp)
  rw [readBare_rule ready.solid ready.room, rule, Parse.type, runBare_group, runBare_if,
    runBare_current, opened_mk]
  by_cases keyword : (nextKind ts).isPredefinedType
  · have real : nextKind ts ≠ .eof := by
      intro eof
      rw [eof] at keyword
      cases keyword
    rw [afterType?_keyword keyword] at scan
    cases scan
    rw [if_pos (by exact keyword)]
    obtain ⟨t, ts, rfl, kind⟩ := exists_of_front inside.solid rfl real
    rw [past_solid (inside.solid.tokens t List.mem_cons_self)]
    have own : t.kind.isPredefinedType := by rwa [kind]
    obtain ⟨W, whole, tokens, read⟩ := arrayOf_follows (e := e) (.predefined own)
      (inside.later [t] (Spells.predefined own).bare_eq)
    refine ⟨W, whole, by simpa using tokens, ?_⟩
    simp [runBare_node, read]
  by_cases name : nextKind ts = .identifier
  · rw [afterType?_name name] at scan
    cases scan
    rw [if_neg (by exact keyword), runBare_if, runBare_atIdentifier,
      if_pos (by exact beq_iff_eq.mpr name)]
    obtain ⟨t, ts, rfl, kind⟩ := exists_of_front inside.solid name (by simp)
    rw [past_solid (inside.solid.tokens t List.mem_cons_self)]
    have fewer := (afterArgumentsOf_suffix ts).length_le
    obtain ⟨S, simple, first, named⟩ := simpleTypeName_follows (l := []) (e := e)
      ⟨fun short => follows.type (by simp; omega), fun short => follows.arguments (by simp; omega)⟩
      kind inside
    obtain ⟨T, dotted, second, qualified⟩ := qualifiers_follows (e := e) follows
      (by simp; omega) (.undotted simple) ((first ▸ inside).later S.tokens simple.bare_eq)
    obtain ⟨W, whole, third, read⟩ := arrayOf_follows (e := e) (.named dotted)
      (((first.trans second) ▸ inside).later T.tokens dotted.bare_eq)
    refine ⟨W, whole, first.trans (second.trans third), ?_⟩
    simp [named, qualified, read]
  · rw [afterType?_of_ne name (Bool.eq_false_iff.mpr keyword)] at scan
    cases scan

theorem typeArguments_follows {ts rest : List Token} (follows : Follows depth ts.length)
    (ready : Ready depth ⟨ts, l, e⟩) (scan : afterArguments? ts = some rest) :
    ∃ args g, Spells .arguments args ∧ g.kind = .greater ∧ ts = Forest.tokens args ++ g :: rest ∧
      readBare depth .typeArguments ⟨ts, l, e⟩ = ⟨g :: rest, args.reverse ++ l, e⟩ := by
  obtain ⟨after, type, goes⟩ := afterArguments?_eq_some_iff.mp scan
  obtain ⟨T, whole, tokens, read⟩ := type_follows follows ready type
  have begins := whole.begins_front after (l := l) (e := e)
  rw [Forest.tokens_cons, Forest.tokens_nil, List.append_nil, ← tokens] at begins
  rw [readBare_rule ready.solid ready.room, rule, Parse.typeArguments, runBare_if,
    runBare_atTypeStart, if_pos begins, runBare_bind, runBare_inner, read, runBare_if, runBare_atKind]
  have next : Ready depth ⟨after, T :: l, e⟩ := (tokens ▸ ready).later T.tokens
    (List.forall_mem_append.mpr ⟨whole.bare_eq, ready.solid.level⟩)
  rcases goes with ⟨comma, more⟩ | ⟨greater, rfl⟩
  · rw [if_pos (by exact beq_iff_eq.mpr comma)]
    obtain ⟨c, after, rfl, comma'⟩ := exists_of_front next.solid comma (by simp)
    have solid : c.isTrivia = false := next.solid.tokens c List.mem_cons_self
    rw [past_solid solid] at more
    have inner : Ready depth ⟨after, .leaf c :: T :: l, e⟩ :=
      next.later [c] (List.forall_mem_cons.mpr ⟨bare_leaf solid, next.solid.level⟩)
    obtain ⟨args, g, inside, right, tokens', read'⟩ := follows.arguments
      (by rw [tokens]; simp; omega) inner more
    refine ⟨_, g, .more whole comma' inside, right, ?_, ?_⟩
    · rw [tokens, tokens']
      simp
    · simp [read']
  · rw [if_neg (by simp [BareState.front, greater])]
    obtain ⟨g, after, rfl, right⟩ := exists_of_front next.solid greater (by simp)
    rw [past_solid (next.solid.tokens g List.mem_cons_self)]
    exact ⟨[T], g, .last whole, right, by simpa using tokens, rfl⟩

theorem follows (depth n : Nat) : Follows depth n := by
  induction n with
  | zero => exact ⟨by omega, by omega⟩
  | succ n ih =>
      have below : ∀ {ts : List Token}, ts.length < n + 1 → Follows depth ts.length := fun few =>
        ⟨fun short => ih.type (by omega), fun short => ih.arguments (by omega)⟩
      exact ⟨fun few => type_follows (below few), fun few => typeArguments_follows (below few)⟩

end Construct

end SharpRefactor
