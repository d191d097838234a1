import SharpRefactor.Proofs.Parsing.TypeGrammar.Scanned

/-!
What is spelt is read: the tokens of a tree that spells a type are read to that very tree wherever
what comes after them cannot go on with a type.
-/

namespace SharpRefactor

/-- A state without trivia, and with room for its tokens at a depth. -/
structure BareState.Ready (depth : Nat) (b : BareState) : Prop where
  solid : b.Solid
  room : 32 * (b.tokens.length + 1) ≤ depth

theorem BareState.Ready.later {depth : Nat} (front : List Token) {ts : List Token} {l l' : Forest}
    {e e' : List SyntaxError} (h : Ready depth ⟨front ++ ts, l, e⟩)
    (level : ∀ t ∈ l', t.bare = [t]) : Ready depth ⟨ts, l', e'⟩ where
  solid := ⟨fun t member => h.solid.tokens t (List.mem_append_right front member), level⟩
  room := by
    have := h.room
    simp only [List.length_append] at this ⊢
    omega

theorem Lookahead.significant_of_solid {ts : List Token} (solid : ∀ t ∈ ts, t.isTrivia = false) :
    significant ts = ts.length := by
  rw [significant, List.countP_eq_length]
  simpa using solid

theorem bare_leaf {t : Token} (solid : t.isTrivia = false) : (Tree.leaf t).bare = [.leaf t] := by
  simp [Tree.bare, solid]

namespace BareState

variable {t : Token} {ts : List Token} {l m : Forest} {e : List SyntaxError}

@[simp] theorem takeOne_cons : takeOne ⟨t :: ts, l, e⟩ = ⟨ts, .leaf t :: l, e⟩ := rfl

@[simp] theorem opened_mk : opened ⟨ts, l, e⟩ = ⟨ts, [], e⟩ := rfl

@[simp] theorem closed_mk : closed ⟨ts, l, e⟩ m = ⟨ts, l ++ m, e⟩ := rfl

@[simp] theorem wrapped_mk (k : Kind) : wrapped k ⟨ts, l, e⟩ = ⟨ts, [.node k l.reverse], e⟩ := rfl

theorem front_cons {k : Kind} (kind : t.kind = k) (real : k.isTrivia = false) :
    front ⟨t :: ts, l, e⟩ = k :=
  congrArg Prod.fst (Lookahead.next_of_kind kind real ts)

end BareState

namespace Spells

open Parse Lookahead BareState

variable {depth : Nat}

def ReadBack (depth : Nat) (ts : Forest) : TypePart → Prop
  | .simple => ∀ l e rest, Ready depth ⟨Forest.tokens ts ++ rest, l, e⟩ → nextKind rest ≠ .less →
      simpleTypeName.runBare (Construct.readBare depth) ⟨Forest.tokens ts ++ rest, l, e⟩ =
        ((), ⟨rest, ts ++ l, e⟩)
  | .dotted => ∀ e rest, Ready depth ⟨Forest.tokens ts ++ rest, [], e⟩ → nextKind rest ≠ .less →
      (simpleTypeName >>= fun _ => inner .qualifiers).runBare (Construct.readBare depth)
        ⟨Forest.tokens ts ++ rest, [], e⟩ = ((), Construct.readBare depth .qualifiers ⟨rest, ts, e⟩)
  | .element => ∀ l e rest, Ready depth ⟨Forest.tokens ts ++ rest, l, e⟩ → nextKind rest ≠ .less →
      nextKind rest ≠ .dot → Construct.readBare depth .type ⟨Forest.tokens ts ++ rest, l, e⟩ =
        (arrayOf.runBare (Construct.readBare depth) ⟨rest, ts, e⟩).2.closed l
  | .whole => ∀ l e rest, Ready depth ⟨Forest.tokens ts ++ rest, l, e⟩ → Ends rest →
      Construct.readBare depth .type ⟨Forest.tokens ts ++ rest, l, e⟩ = ⟨rest, ts ++ l, e⟩
  | .arguments => ∀ l e g rest, Ready depth ⟨Forest.tokens ts ++ g :: rest, l, e⟩ →
      g.kind = .greater →
      Construct.readBare depth .typeArguments ⟨Forest.tokens ts ++ g :: rest, l, e⟩ =
        ⟨g :: rest, ts.reverse ++ l, e⟩

theorem readBack_generic {t l r : Token} {args : Forest}
    (left : l.kind = .less) (inside : Spells .arguments args) (right : r.kind = .greater)
    (ih : ReadBack depth args .arguments) :
    ReadBack depth
      [.node .genericName [.leaf t, .node .typeArgumentList (.leaf l :: (args ++ [.leaf r]))]]
      .simple := by
  intro lv e rest ready less
  have tokens : Forest.tokens
      [.node .genericName [.leaf t, .node .typeArgumentList (.leaf l :: (args ++ [.leaf r]))]] ++
        rest = t :: l :: (Forest.tokens args ++ r :: rest) := by
    simp [Forest.tokens_append]
  rw [tokens] at ready ⊢
  have solid := ready.solid.tokens
  simp only [List.forall_mem_cons] at solid
  have scan : atGenericType (t :: l :: (Forest.tokens args ++ r :: rest)) := by
    rw [atGenericType, afterTypeArguments?_less solid.1 left, steps,
      significant_of_solid solid.2.2]
    rw [inside.scanned _ r rest (by simp only [List.length_append]; omega) right]
    rfl
  have args := ih [.leaf l] e r rest (ready.later [t, l] (by simp [bare_leaf solid.2.1])) right
  simp [simpleTypeName, Question.ask, scan, genericName, runBare_node, args,
    runBare_require_found (front_cons right rfl)]

theorem qualifiers_stop {l : Forest} {e : List SyntaxError} {rest : List Token}
    (ready : Ready depth ⟨rest, l, e⟩) (dot : nextKind rest ≠ .dot) :
    Construct.readBare depth .qualifiers ⟨rest, l, e⟩ = ⟨rest, l, e⟩ := by
  have front : front ⟨rest, l, e⟩ ≠ .dot := dot
  rw [Construct.readBare_rule ready.solid ready.room]
  simp [Construct.rule, Parse.qualifiers, front]

theorem arrayOf_stop {l : Forest} {e : List SyntaxError} {rest : List Token}
    (bracket : nextKind rest ≠ .lBracket) :
    arrayOf.runBare (Construct.readBare depth) ⟨rest, l, e⟩ = ((), ⟨rest, l, e⟩) := by
  have front : front ⟨rest, l, e⟩ ≠ .lBracket := bracket
  simp [arrayOf, front]

/-- A rank at the front of some tokens. -/
theorem atRank_cons {r : Tree} (rank : IsRank r) {l : Forest} {e : List SyntaxError}
    (rest : List Token) :
    front ⟨r.tokens ++ rest, l, e⟩ = .lBracket ∧
      Lookahead.nth? 1 (r.tokens ++ rest) = some .rBracket := by
  cases rank with
  | @intro a b left right =>
      simp only [Tree.tokens_node, Forest.tokens_cons, Tree.tokens_leaf, Forest.tokens_nil,
        List.cons_append, List.nil_append]
      refine ⟨front_cons left rfl, ?_⟩
      simp [Lookahead.nth?, Token.isTrivia, left, right, Kind.isTrivia]

theorem ranks_readBack {rs : Forest} (ranks : ∀ r ∈ rs, IsRank r) {l : Forest}
    {e : List SyntaxError} {rest : List Token} (ready : Ready depth ⟨Forest.tokens rs ++ rest, l, e⟩)
    (bracket : nextKind rest ≠ .lBracket) :
    Construct.readBare depth .ranks ⟨Forest.tokens rs ++ rest, l, e⟩ = ⟨rest, rs.reverse ++ l, e⟩ := by
  induction rs generalizing l with
  | nil =>
      have front : front ⟨rest, l, e⟩ ≠ .lBracket := bracket
      rw [Construct.readBare_rule ready.solid ready.room]
      simp [Construct.rule, Parse.ranks, front]
  | cons r rs ih =>
      rw [List.forall_mem_cons] at ranks
      have solid := ready.solid.level
      have rank := ranks.1
      obtain ⟨front, second⟩ := atRank_cons (e := e) (l := l) rank (Forest.tokens rs ++ rest)
      rw [Forest.tokens_cons, List.append_assoc] at ready ⊢
      have next : Ready depth ⟨Forest.tokens rs ++ rest, r :: l, e⟩ :=
        ready.later _ (List.forall_mem_cons.mpr ⟨rank.bare_eq, solid⟩)
      have rest_ := ih ranks.2 next
      rw [Construct.readBare_rule ready.solid ready.room]
      cases rank with
      | intro left right =>
          simp only [Tree.tokens_node, Forest.tokens_cons, Tree.tokens_leaf, Forest.tokens_nil,
            List.cons_append, List.nil_append] at front second ⊢
          simp [Construct.rule, Parse.ranks, front, second, runBare_node, rest_]

theorem begins_front {part : TypePart} {ts : Forest} (h : Spells part ts) (rest : List Token)
    {l : Forest} {e : List SyntaxError} :
    (front ⟨Forest.tokens ts ++ rest, l, e⟩ == .identifier ||
      (front ⟨Forest.tokens ts ++ rest, l, e⟩).isPredefinedType) = true := by
  obtain ⟨t, more, split, kind⟩ := h.begins
  have solid : t.kind.isTrivia = false := by
    rcases kind with name | keyword
    · rw [name]
      rfl
    · exact Kind.isTrivia_of_isPredefinedType keyword
  rw [split, List.cons_append, front_cons rfl solid]
  simpa using kind

theorem readBack_identifier {t : Token} (name : t.kind = .identifier) :
    ReadBack depth [.node .identifierName [.leaf t]] .simple := by
  intro l e rest ready less
  have solid := ready.solid.tokens
  simp only [Forest.tokens_cons, Tree.tokens_node, Tree.tokens_leaf, Forest.tokens_nil,
    List.append_nil, List.singleton_append, List.forall_mem_cons] at solid ⊢
  have plain : atGenericType (t :: rest) = false := by
    rw [atGenericType, afterTypeArguments?_plain solid.1 less]
    rfl
  simp [simpleTypeName, Question.ask, plain, identifierName, runBare_node,
    runBare_require_found (front_cons name rfl)]

theorem readBack_qualified {L R : Tree} {d : Token} (left : Spells .dotted [L]) (dot : d.kind = .dot)
    (right : Spells .simple [R]) (ihl : ReadBack depth [L] .dotted)
    (ihr : ReadBack depth [R] .simple) :
    ReadBack depth [.node .qualifiedName [L, .leaf d, R]] .dotted := by
  intro e rest ready less
  obtain ⟨u, further, split, kind, -⟩ := right.scanned
  have tokens : Forest.tokens [.node .qualifiedName [L, .leaf d, R]] ++ rest =
      Forest.tokens [L] ++ d :: (Forest.tokens [R] ++ rest) := by simp
  rw [tokens] at ready ⊢
  have dotted : nextKind (d :: (Forest.tokens [R] ++ rest)) = .dot :=
    congrArg Prod.fst (next_of_kind dot rfl _)
  have next : Ready depth ⟨d :: (Forest.tokens [R] ++ rest), [L], e⟩ := ready.later _ left.bare_eq
  have solid : d.isTrivia = false := next.solid.tokens d List.mem_cons_self
  rw [ihl e _ ready (by rw [dotted]; simp), Construct.readBare_rule next.solid next.room]
  have second : Lookahead.nth? 1 (d :: (Forest.tokens [R] ++ rest)) = some .identifier := by
    have word : u.isTrivia = false := by rw [Token.isTrivia, kind]; rfl
    rw [split, List.cons_append]
    simp [Lookahead.nth?, solid, word, kind]
  have name := ihr [.leaf d, L] e rest
    (next.later [d] (by simp [bare_leaf solid, left.bare_eq])) less
  simp only [Forest.tokens_cons, Forest.tokens_nil, List.append_nil] at second name ⊢
  simp [Construct.rule, Parse.qualifiers, front_cons dot rfl, second, name]

theorem readBack_predefined {t : Token} (keyword : t.kind.isPredefinedType) :
    ReadBack depth [.node .predefinedType [.leaf t]] .element := by
  intro l e rest ready less dot
  have solid := Kind.isTrivia_of_isPredefinedType keyword
  simp only [Forest.tokens_cons, Tree.tokens_node, Tree.tokens_leaf, Forest.tokens_nil,
    List.append_nil, List.singleton_append] at ready ⊢
  rw [Construct.readBare_rule ready.solid ready.room]
  simp [Construct.rule, Parse.type, front_cons rfl solid, keyword, runBare_node]

theorem readBack_named {T : Tree} (name : Spells .dotted [T]) (ih : ReadBack depth [T] .dotted) :
    ReadBack depth [T] .element := by
  intro l e rest ready less dot
  obtain ⟨t, more, split, kind, -⟩ := name.scanned
  have front : front ⟨Forest.tokens [T] ++ rest, [], e⟩ = .identifier := by
    rw [split]
    exact front_cons kind rfl
  have read := ih e rest (ready.later [] (by simp)) less
  rw [qualifiers_stop (ready.later _ name.bare_eq) dot] at read
  simp only [runBare_bind, runBare_inner, Prod.mk.injEq, true_and] at read
  rw [Construct.readBare_rule ready.solid ready.room]
  simp only [Construct.rule, Parse.type, runBare_group, runBare_bind, runBare_current, opened_mk,
    front, Kind.isPredefinedType, Bool.false_eq_true, if_false, runBare_atIdentifier,
    beq_self_eq_true, if_true, runBare_inner, read]

theorem readBack_array {T : Tree} {rs : Forest} (element : Spells .element [T]) (some : rs ≠ [])
    (ranks : ∀ r ∈ rs, IsRank r) (ih : ReadBack depth [T] .element) :
    ReadBack depth [.node .arrayType (T :: rs)] .whole := by
  intro l e rest ready ends
  have tokens : Forest.tokens [.node .arrayType (T :: rs)] ++ rest =
      Forest.tokens [T] ++ (Forest.tokens rs ++ rest) := by simp
  rw [tokens] at ready ⊢
  obtain ⟨r, rs, rfl⟩ := List.exists_cons_of_ne_nil some
  obtain ⟨front, second⟩ := atRank_cons (e := e) (l := [T]) (ranks r List.mem_cons_self)
    (Forest.tokens rs ++ rest)
  rw [← List.append_assoc, ← Forest.tokens_cons] at front second
  have next : Ready depth ⟨Forest.tokens (r :: rs) ++ rest, [T], e⟩ := ready.later _ element.bare_eq
  have read := ranks_readBack ranks next ends.bracket
  have bracket : nextKind (Forest.tokens (r :: rs) ++ rest) = .lBracket := front
  rw [ih l e _ ready (by rw [bracket]; simp) (by rw [bracket]; simp)]
  simp only [arrayOf, runBare_bind, runBare_atRank, front, second, beq_self_eq_true, Bool.and_self,
    if_true, runBare_wrap, runBare_inner, read]
  simp

theorem readBack_last {T : Tree} (type : Spells .whole [T]) (ih : ReadBack depth [T] .whole) :
    ReadBack depth [T] .arguments := by
  intro l e g rest ready greater
  have front : front ⟨g :: rest, [T] ++ l, e⟩ = .greater := front_cons greater rfl
  rw [Construct.readBare_rule ready.solid ready.room]
  simp only [Construct.rule, Parse.typeArguments, runBare_bind, runBare_atTypeStart,
    type.begins_front, if_true, runBare_inner, ih l e (g :: rest) ready (.of_kind (.inr greater)),
    runBare_atKind, front]
  rfl

theorem readBack_more {T : Tree} {c : Token} {args : Forest} (type : Spells .whole [T])
    (comma : c.kind = .comma) (iht : ReadBack depth [T] .whole)
    (ihr : ReadBack depth args .arguments) : ReadBack depth (T :: .leaf c :: args) .arguments := by
  intro l e g further ready greater
  have tokens : Forest.tokens (T :: .leaf c :: args) ++ g :: further =
      Forest.tokens [T] ++ c :: (Forest.tokens args ++ g :: further) := by simp
  rw [tokens] at ready ⊢
  have front : front ⟨c :: (Forest.tokens args ++ g :: further), [T] ++ l, e⟩ = .comma :=
    front_cons comma rfl
  have next : Ready depth ⟨c :: (Forest.tokens args ++ g :: further), [T] ++ l, e⟩ :=
    ready.later _ (List.forall_mem_append.mpr ⟨type.bare_eq, ready.solid.level⟩)
  have solid : c.isTrivia = false := next.solid.tokens c List.mem_cons_self
  have read := ihr (.leaf c :: ([T] ++ l)) e g further (next.later [c]
    (List.forall_mem_cons.mpr ⟨bare_leaf solid, next.solid.level⟩)) greater
  rw [Construct.readBare_rule ready.solid ready.room]
  simp only [Construct.rule, Parse.typeArguments, runBare_bind, runBare_atTypeStart,
    type.begins_front, if_true, runBare_inner, iht l e _ ready (.of_kind (.inl comma)),
    runBare_atKind, front, beq_self_eq_true, runBare_bump, takeOne_cons, read]
  simp

/-- The tokens of a tree that spells a type are read to that tree. -/
theorem readBack {part : TypePart} {ts : Forest} (h : Spells part ts) : ReadBack depth ts part := by
  induction h with
  | identifier name => exact readBack_identifier name
  | generic name left inside right ih => exact readBack_generic left inside right ih
  | undotted name ih =>
      intro e rest ready less
      rw [runBare_bind, ih [] e rest ready less]
      simp
  | qualified left dot right ihl ihr => exact readBack_qualified left dot right ihl ihr
  | predefined keyword => exact readBack_predefined keyword
  | named name ih => exact readBack_named name ih
  | plain element ih =>
      intro l e rest ready ends
      rw [ih l e rest ready ends.less ends.dot, arrayOf_stop ends.bracket]
      rfl
  | array element some ranks ih => exact readBack_array element some ranks ih
  | last type ih => exact readBack_last type ih
  | more type comma _ iht ihr => exact readBack_more type comma iht ihr

end Spells

end SharpRefactor
