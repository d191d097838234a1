import SharpRefactor.Proofs.Parsing.TypeGrammar.Complete

/-!
What is read is spelt: a type that is read without objection leaves a tree that spells it.
-/

namespace SharpRefactor

namespace BareState

theorem exists_of_front {b : BareState} {k : Kind} (solid : b.Solid) (front : b.front = k)
    (real : k ≠ .eof) : ∃ t ts, b.tokens = t :: ts ∧ t.kind = k := by
  obtain ⟨tokens, level, errors⟩ := b
  cases tokens with
  | nil => exact absurd front.symm real
  | cons t ts =>
      have own := solid.tokens t List.mem_cons_self
      exact ⟨t, ts, rfl, (front_cons rfl own).symm.trans front⟩

theorem exists_of_second {t : Token} {ts : List Token} {k : Kind} {l : Forest}
    {e : List SyntaxError} (solid : (⟨ts, l, e⟩ : BareState).Solid) (first : t.isTrivia = false)
    (second : Lookahead.nth? 1 (t :: ts) = some k) : ∃ u us, ts = u :: us ∧ u.kind = k := by
  cases ts with
  | nil => simp [Lookahead.nth?, first] at second
  | cons u us =>
      have own := solid.tokens u List.mem_cons_self
      simp only [Lookahead.nth?, first, own, Bool.false_eq_true, if_false, Option.some.injEq] at second
      exact ⟨u, us, rfl, second⟩

end BareState

namespace Construct

open Parse Lookahead BareState

/-- What reading a construct leaves on the level if it ends without objections. -/
def Sound (depth : Nat) (b : BareState) (c : Construct) : Prop :=
  let b' := c.readBare depth b
  b'.errors = [] → match c with
    | .type => ∃ T, Spells .whole [T] ∧ b'.level = T :: b.level
    | .qualifiers => ∀ L, b.level = [L] → Spells .dotted [L] → ∃ T, Spells .dotted [T] ∧ b'.level = [T]
    | .ranks => ∃ rs, (∀ r ∈ rs, IsRank r) ∧ b'.level = rs.reverse ++ b.level ∧
        (b.front = .lBracket → Lookahead.nth? 1 b.tokens = some .rBracket → rs ≠ [])
    | .typeArguments => ∃ args, Spells .arguments args ∧ b'.level = args.reverse ++ b.level
    | _ => True

variable {depth : Nat} {b : BareState}

theorem simpleTypeName_generic {read : Construct → BareState → BareState}
    (generic : atGenericType b.tokens = true) :
    simpleTypeName.runBare read b = genericName.runBare read b := by
  simp [simpleTypeName, Question.ask, generic]

theorem simpleTypeName_plain {read : Construct → BareState → BareState}
    (plain : atGenericType b.tokens = false) :
    simpleTypeName.runBare read b = identifierName.runBare read b := by
  simp [simpleTypeName, Question.ask, plain]

theorem simpleTypeName_sound {t : Token} {ts : List Token} {l : Forest} {e : List SyntaxError}
    (name : t.kind = .identifier) (ready : Ready depth ⟨t :: ts, l, e⟩)
    (arguments : ∀ b : BareState, b.tokens.length < (t :: ts).length → Ready depth b →
      Sound depth b .typeArguments)
    (none : (simpleTypeName.runBare (readBare depth) ⟨t :: ts, l, e⟩).2.errors = []) :
    ∃ T, Spells .simple [T] ∧
      ∃ rest, rest.length ≤ ts.length ∧ (∀ t ∈ rest, t.isTrivia = false) ∧
        (simpleTypeName.runBare (readBare depth) ⟨t :: ts, l, e⟩).2 = ⟨rest, T :: l, []⟩ := by
  have solid := ready.solid.tokens
  rw [List.forall_mem_cons] at solid
  by_cases generic : atGenericType (t :: ts) = true
  case neg =>
    rw [simpleTypeName_plain (Bool.of_not_eq_true generic)] at none ⊢
    simp only [identifierName, runBare_node, opened_mk, takeOne_cons, wrapped_mk, closed_mk,
      runBare_require_found (front_cons name rfl)] at none ⊢
    obtain rfl : e = [] := none
    exact ⟨_, .identifier name, ts, Nat.le_refl _, solid.2, rfl⟩
  rw [simpleTypeName_generic generic] at none ⊢
  obtain ⟨o, ts', rfl, left⟩ : ∃ o ts', ts = o :: ts' ∧ o.kind = .less := by
    have next : Ready depth ⟨ts, l, e⟩ := ready.later [t] ready.solid.level
    refine exists_of_front next.solid (Decidable.byContradiction fun less => ?_) (by decide)
    rw [atGenericType, afterTypeArguments?_plain solid.1 less] at generic
    cases generic
  rw [List.forall_mem_cons] at solid
  have opened : Ready depth ⟨ts', [.leaf o], e⟩ :=
    ready.later [t, o] (by simp [bare_leaf solid.2.1])
  simp only [genericName, runBare_node, runBare_bind, opened_mk, runBare_bump, takeOne_cons,
    runBare_inner] at none ⊢
  have fewer : ts'.length < (t :: o :: ts').length := Nat.lt_add_of_pos_right Nat.two_pos
  have inside := arguments ⟨ts', [.leaf o], e⟩ fewer opened
  have short := readBare_length_le depth .typeArguments ⟨ts', [.leaf o], e⟩
  have solid' := readBare_solid depth .typeArguments ⟨ts', [.leaf o], e⟩
  unfold Sound at inside
  generalize readBare depth .typeArguments ⟨ts', [.leaf o], e⟩ = b at none inside short solid' ⊢
  by_cases closes : b.front = .greater
  case neg =>
    rw [runBare_require_absent closes] at none
    cases none
  obtain ⟨g, rest, tokens, right⟩ := exists_of_front solid' closes (by decide)
  obtain ⟨tokens', level, errors⟩ := b
  obtain rfl : tokens' = g :: rest := tokens
  rw [runBare_require_found closes] at none ⊢
  obtain rfl : errors = [] := none
  obtain ⟨args, spells, level_⟩ := inside rfl
  obtain rfl : level = args.reverse ++ [.leaf o] := level_
  refine ⟨_, .generic name left spells right, rest, ?_, ?_, ?_⟩
  · simp only [List.length_cons] at short ⊢
    omega
  · exact fun u member => solid'.tokens u (List.mem_cons_of_mem g member)
  · simp

def SoundBelow (depth n : Nat) : Prop :=
  ∀ b : BareState, b.tokens.length < n → Ready depth b → ∀ c, Sound depth b c

theorem qualifiers_sound (ready : Ready depth b) (below : SoundBelow depth b.tokens.length) :
    Sound depth b .qualifiers := by
  unfold Sound
  dsimp only
  rw [readBare_rule ready.solid ready.room]
  rw [rule, Parse.qualifiers, runBare_bind, runBare_if, runBare_atKind, runBare_secondIs]
  intro none L level dotted
  obtain ⟨tokens, l, e⟩ := b
  obtain rfl : l = [L] := level
  split at none
  case isFalse continues =>
    rw [if_neg continues]
    exact ⟨L, dotted, rfl⟩
  case isTrue continues =>
    rw [if_pos continues]
    simp only [Bool.and_eq_true, beq_iff_eq] at continues
    obtain ⟨d, ts, split, dot⟩ := exists_of_front ready.solid continues.1 (by decide)
    obtain rfl : tokens = d :: ts := split
    have solid : d.isTrivia = false := ready.solid.tokens d List.mem_cons_self
    have next : Ready depth ⟨ts, [.leaf d, L], e⟩ := ready.later [d]
      (List.forall_mem_cons.mpr ⟨bare_leaf solid, ready.solid.level⟩)
    obtain ⟨t, ts', split, name⟩ := exists_of_second next.solid solid continues.2
    obtain rfl : ts = t :: ts' := split
    simp only [runBare_bind, runBare_wrap, runBare_bump, takeOne_cons, runBare_inner] at none ⊢
    have named : (simpleTypeName.runBare (readBare depth) ⟨t :: ts', [.leaf d, L], e⟩).2.errors =
        [] := by
      have before := readBare_errors none
      exact before
    obtain ⟨R, simple, rest, short, solid', same⟩ := simpleTypeName_sound name next
      (fun b fewer ready => below b (by simp at fewer ⊢; omega) ready .typeArguments) named
    rw [same] at none ⊢
    have whole : Spells .dotted [.node .qualifiedName [L, .leaf d, R]] := .qualified dotted dot simple
    have again : Ready depth ⟨rest, [.node .qualifiedName [L, .leaf d, R]], []⟩ := by
      refine ⟨⟨solid', whole.bare_eq⟩, Nat.le_trans ?_ ready.room⟩
      simp only [List.length_cons]
      omega
    exact below _ (by simp only [List.length_cons]; omega) again .qualifiers none _ rfl whole

theorem ranks_sound (ready : Ready depth b) (below : SoundBelow depth b.tokens.length) :
    Sound depth b .ranks := by
  unfold Sound
  dsimp only
  rw [readBare_rule ready.solid ready.room]
  rw [rule, Parse.ranks, runBare_if, runBare_atRank]
  obtain ⟨tokens, l, e⟩ := b
  intro none
  split at none
  case isFalse ends =>
    rw [if_neg ends]
    refine ⟨[], by simp, rfl, fun front second => ?_⟩
    exact absurd (by simp [front, second]) ends
  case isTrue rank =>
    rw [if_pos rank]
    simp only [Bool.and_eq_true, beq_iff_eq] at rank
    obtain ⟨o, ts, split, left⟩ := exists_of_front ready.solid rank.1 (by decide)
    obtain rfl : tokens = o :: ts := split
    have solid : o.isTrivia = false := ready.solid.tokens o List.mem_cons_self
    have next : Ready depth ⟨ts, l, e⟩ := ready.later [o] ready.solid.level
    obtain ⟨c, ts', split, right⟩ := exists_of_second next.solid solid rank.2
    obtain rfl : ts = c :: ts' := split
    have own : IsRank (.node .arrayRankSpecifier [.leaf o, .leaf c]) := .intro left right
    have again : Ready depth ⟨ts', .node .arrayRankSpecifier [.leaf o, .leaf c] :: l, e⟩ :=
      ready.later [o, c] (List.forall_mem_cons.mpr ⟨own.bare_eq, ready.solid.level⟩)
    simp only [runBare_bind, runBare_node, opened_mk, runBare_bump, takeOne_cons, wrapped_mk,
      closed_mk, runBare_inner, List.reverse_cons, List.reverse_nil, List.nil_append,
      List.singleton_append] at none ⊢
    obtain ⟨rs, ranks, level, -⟩ := below _ (by simp only [List.length_cons]; omega) again .ranks none
    refine ⟨_ :: rs, List.forall_mem_cons.mpr ⟨own, ranks⟩, ?_, by simp⟩
    rw [level]
    simp

theorem arrayOf_sound {T : Tree} {rest : List Token} {e : List SyntaxError}
    (element : Spells .element [T])
    (ranks : Sound depth ⟨rest, [T], e⟩ .ranks)
    (none : (arrayOf.runBare (readBare depth) ⟨rest, [T], e⟩).2.errors = []) :
    ∃ W, Spells .whole [W] ∧ (arrayOf.runBare (readBare depth) ⟨rest, [T], e⟩).2.level = [W] := by
  rw [arrayOf, runBare_if, runBare_atRank] at none ⊢
  split at none
  case isFalse ends =>
    rw [if_neg ends]
    exact ⟨T, .plain element, rfl⟩
  case isTrue rank =>
    rw [if_pos rank]
    simp only [Bool.and_eq_true, beq_iff_eq] at rank
    obtain ⟨rs, each, level, some⟩ := ranks none
    refine ⟨_, .array element (some rank.1 rank.2) each, ?_⟩
    simp only [runBare_wrap, runBare_inner, BareState.wrapped, level]
    simp

theorem type_sound (ready : Ready depth b) (below : SoundBelow depth b.tokens.length) :
    Sound depth b .type := by
  unfold Sound
  dsimp only
  rw [readBare_rule ready.solid ready.room]
  obtain ⟨tokens, l, e⟩ := b
  intro none
  have inside : Ready depth ⟨tokens, [], e⟩ := ready.later [] (by simp)
  -- Whatever the element is, its node is what the ranks are put around.
  have ends : ∀ {T : Tree} {rest : List Token} (e' : List SyntaxError), Spells .element [T] →
      rest.length < tokens.length → (∀ t ∈ rest, t.isTrivia = false) →
      (rule .type).runBare (readBare depth) ⟨tokens, l, e⟩ =
        ((), (arrayOf.runBare (readBare depth) ⟨rest, [T], e'⟩).2.closed l) →
      ∃ W, Spells .whole [W] ∧
        ((rule .type).runBare (readBare depth) ⟨tokens, l, e⟩).2.level = W :: l := by
    intro T rest e' element short solid run
    rw [run] at none ⊢
    have again : Ready depth ⟨rest, [T], e'⟩ :=
      ⟨⟨solid, element.bare_eq⟩, Nat.le_trans (by simp only; omega) ready.room⟩
    obtain ⟨W, whole, level⟩ := arrayOf_sound element (below _ short again .ranks) none
    exact ⟨W, whole, by simp [BareState.closed, level]⟩
  by_cases keyword : (front ⟨tokens, [], e⟩).isPredefinedType = true
  · have real : front ⟨tokens, [], e⟩ ≠ .eof := by
      intro eof
      rw [eof] at keyword
      cases keyword
    obtain ⟨t, ts, split, kind⟩ := exists_of_front inside.solid rfl real
    obtain rfl : tokens = t :: ts := split
    rw [← kind] at keyword
    refine ends e (.predefined keyword) (Nat.lt_succ_self _)
      (fun u member => ready.solid.tokens u (List.mem_cons_of_mem t member)) ?_
    rw [kind] at keyword
    simp [rule, Parse.type, keyword, runBare_node]
  by_cases name : front ⟨tokens, [], e⟩ = .identifier
  · obtain ⟨t, ts, split, kind⟩ := exists_of_front inside.solid name (by decide)
    obtain rfl : tokens = t :: ts := split
    have run : (rule .type).runBare (readBare depth) ⟨t :: ts, l, e⟩ =
        ((), (arrayOf.runBare (readBare depth) (readBare depth .qualifiers
          (simpleTypeName.runBare (readBare depth) ⟨t :: ts, [], e⟩).2)).2.closed l) := by
      simp [rule, Parse.type, name, Kind.isPredefinedType]
    have kept := none
    rw [run] at kept
    have qualified := runBare_errors (b := readBare depth .qualifiers _) kept
    obtain ⟨S, simple, rest, short, solid, same⟩ := simpleTypeName_sound kind inside
      (fun b fewer ready => below b (by simpa using fewer) ready .typeArguments)
      (readBare_errors qualified)
    rw [same] at run qualified
    have next : Ready depth ⟨rest, [S], []⟩ := by
      refine ⟨⟨solid, simple.bare_eq⟩, Nat.le_trans ?_ ready.room⟩
      simp only [List.length_cons]
      omega
    obtain ⟨T, dotted, level⟩ :=
      below ⟨rest, [S], []⟩ (by simp only [List.length_cons]; omega) next .qualifiers qualified S rfl
        (.undotted simple)
    have fewer := readBare_length_le depth .qualifiers ⟨rest, [S], []⟩
    have solid' := readBare_solid depth .qualifiers ⟨rest, [S], []⟩
    generalize readBare depth .qualifiers ⟨rest, [S], []⟩ = q at run level fewer solid'
    obtain ⟨rest', level', e'⟩ := q
    obtain rfl : level' = [T] := level
    exact ends e' (.named dotted) (by simp only [List.length_cons] at fewer ⊢; omega) solid'.tokens run
  · have run : (rule .type).runBare (readBare depth) ⟨tokens, l, e⟩ =
        ((), ⟨tokens, l, .expected .type :: e⟩) := by
      simp [rule, Parse.type, keyword, name, BareState.object]
    rw [run] at none
    cases none

theorem typeArguments_sound (ready : Ready depth b) (below : SoundBelow depth b.tokens.length)
    (type : Sound depth b .type) : Sound depth b .typeArguments := by
  unfold Sound at type ⊢
  dsimp only at type ⊢
  rw [readBare_rule (c := .typeArguments) ready.solid ready.room]
  rw [rule, Parse.typeArguments, runBare_if, runBare_atTypeStart]
  intro none
  split at none
  case isFalse absent => cases none
  case isTrue begins =>
    rw [if_pos begins]
    rw [runBare_bind, runBare_inner, runBare_if, runBare_atKind] at none ⊢
    have typed : (readBare depth .type b).errors = [] := by
      split at none
      · exact runBare_errors none
      · exact none
    obtain ⟨T, whole, level⟩ := type typed
    split at none
    case isFalse ends =>
      rw [if_neg ends]
      exact ⟨[T], .last whole, level⟩
    case isTrue continues =>
      rw [if_pos continues]
      have fewer := readBare_length_le depth .type b
      have solid := readBare_solid depth .type b
      generalize readBare depth .type b = b' at none typed level continues fewer solid ⊢
      obtain ⟨tokens, level', e⟩ := b'
      obtain rfl : level' = T :: b.level := level
      obtain ⟨c, ts, split, comma⟩ := exists_of_front solid (beq_iff_eq.mp continues) (by decide)
      obtain rfl : tokens = c :: ts := split
      have room := ready.room
      simp only [List.length_cons] at fewer
      have next : Ready depth ⟨ts, .leaf c :: T :: b.level, e⟩ := by
        refine ⟨⟨fun t member => solid.tokens t (List.mem_cons_of_mem c member), ?_⟩, ?_⟩
        · exact List.forall_mem_cons.mpr ⟨bare_leaf (solid.tokens c List.mem_cons_self), solid.level⟩
        · simp only
          omega
      rw [runBare_bind, runBare_bump, takeOne_cons, runBare_inner] at none ⊢
      obtain ⟨args, inside, level⟩ := below _ (by simp only; omega) next .typeArguments none
      refine ⟨T :: .leaf c :: args, .more whole comma inside, ?_⟩
      rw [level]
      simp

/-- A construct that is read without objections leaves trees that spell its part of a type. -/
theorem sound (ready : Ready depth b) (c : Construct) : Sound depth b c := by
  generalize length : b.tokens.length = n
  induction n using Nat.strongRecOn generalizing b c with
  | ind n ih =>
      subst length
      have below : SoundBelow depth b.tokens.length := fun b' fewer ready' c' =>
        ih _ fewer ready' c' rfl
      have type := type_sound ready below
      cases c with
      | type => exact type
      | qualifiers => exact qualifiers_sound ready below
      | ranks => exact ranks_sound ready below
      | typeArguments => exact typeArguments_sound ready below type
      | _ => exact fun _ => trivial

end Construct
end SharpRefactor
