import SharpRefactor.Proofs.Types.Canonical.Orderly

/-!
What the trees mean that are written for types. Trivia has no part in what a tree says, and a name
with type arguments means the type of that name if each argument means its own type.
-/

namespace SharpRefactor

/-! ### Trees without trivia -/

namespace Forest

theorem ownTokens_bare (ts : Forest) :
    (bare ts).filterMap Tree.token? = bareTokens (ts.filterMap Tree.token?) := by
  induction ts with
  | nil => rfl
  | cons t ts ih =>
      rw [bare, List.filterMap_append, ih]
      cases t with
      | leaf token =>
          cases trivia : token.isTrivia with
          | true => simp [Tree.bare, Tree.token?, bareTokens, trivia]
          | false => simp [Tree.bare, Tree.token?, bareTokens, trivia]
      | node k us =>
          rw [Tree.bare, List.filterMap_cons_none rfl, List.filterMap_cons_none rfl,
            List.filterMap_nil, List.nil_append]

theorem tokenWhere?_bare {p : Kind → Bool} (solid : ∀ k, p k = true → k.isTrivia = false)
    (ts : Forest) : tokenWhere? p (bare ts) = tokenWhere? p ts := by
  rw [tokenWhere?, ownTokens_bare, bareTokens, List.find?_filter, tokenWhere?]
  congr 1
  funext token
  cases kind : p token.kind with
  | false => simp
  | true => simp [Token.isTrivia, solid _ kind]

theorem nameText_bare (ts : Forest) : nameText (bare ts) = nameText ts := by
  rw [nameText, tokenWhere?_bare, nameText]
  intro k name
  obtain rfl := beq_iff_eq.mp name
  rfl

theorem countRanks_bare (ts : Forest) :
    (bare ts).countP (fun t => t.isNode && t.kind == .arrayRankSpecifier) =
      ts.countP fun t => t.isNode && t.kind == .arrayRankSpecifier := by
  induction ts with
  | nil => rfl
  | cons t ts ih =>
      rw [bare, List.countP_append, ih, List.countP_cons]
      cases t with
      | leaf token =>
          cases trivia : token.isTrivia with
          | true => simp [Tree.bare, Tree.isNode, trivia]
          | false => simp [Tree.bare, Tree.isNode, trivia]
      | node k us => simp [Tree.bare, Tree.isNode, Tree.kind, Nat.add_comm]

end Forest

mutual

theorem Tree.typeSyntax_bare : ∀ (t T : Tree), t.bare = [T] → T.typeSyntax = t.typeSyntax
  | .leaf token, T, bare => by
      rw [Tree.bare] at bare
      split at bare
      · cases bare
      · rw [← List.singleton_inj.mp bare]
  | .node k ts, T, bare => by
      obtain rfl := List.singleton_inj.mp bare
      rw [Tree.typeSyntax.eq_def, Tree.typeSyntax.eq_def]
      dsimp only
      rw [Forest.tokenWhere?_bare (fun k keyword => Kind.isTrivia_of_isPredefinedType keyword),
        Forest.nameText_bare, Forest.typeSyntax_bare ts, Forest.argumentSyntax_bare ts,
        Forest.countRanks_bare]

theorem Forest.typeSyntax_bare : ∀ ts : Forest,
    Forest.typeSyntax (Forest.bare ts) = Forest.typeSyntax ts
  | [] => rfl
  | .leaf token :: ts => by
      have rest := Forest.typeSyntax_bare ts
      rw [Forest.bare, Tree.bare]
      split <;> simpa [Forest.typeSyntax, Tree.isNode] using rest
  | .node k us :: ts => by
      have own := Tree.typeSyntax_bare (.node k us) _ (Tree.bare.eq_2 k us)
      rw [Forest.bare, Tree.bare, List.singleton_append, Forest.typeSyntax, Forest.typeSyntax,
        Forest.typeSyntax_bare ts, own]
      rfl

theorem Forest.argumentSyntax_bare : ∀ ts : Forest,
    Forest.argumentSyntax (Forest.bare ts) = Forest.argumentSyntax ts
  | [] => rfl
  | .leaf token :: ts => by
      have rest := Forest.argumentSyntax_bare ts
      rw [Forest.bare, Tree.bare]
      split <;> simpa [Forest.argumentSyntax] using rest
  | .node k us :: ts => by
      rw [Forest.bare, Tree.bare, List.singleton_append, Forest.argumentSyntax,
        Forest.argumentSyntax, Forest.typeSyntax_bare us, Forest.argumentSyntax_bare ts]

end

/-! ### What the trees mean -/

theorem Forest.typeSyntax_append (ts us : Forest) :
    Forest.typeSyntax (ts ++ us) = Forest.typeSyntax ts ++ Forest.typeSyntax us := by
  induction ts with
  | nil => rfl
  | cons t ts ih =>
      rw [List.cons_append, typeSyntax, typeSyntax, ih]
      split <;> rfl

theorem Forest.typeSyntax_separated {Ts : Forest}
    (each : ∀ T ∈ Ts, (T.isNode && T.kind.isType) = true) :
    Forest.typeSyntax Ts.separated = Ts.map Tree.typeSyntax := by
  induction Ts with
  | nil => rfl
  | cons T Ts ih =>
      rw [List.forall_mem_cons] at each
      have rest := ih each.2
      cases Ts with
      | nil => simp [separated, typeSyntax, each.1]
      | cons U Us =>
          rw [separated] at rest
          simp only [separated, List.intersperse_cons_cons, typeSyntax, each.1, if_true, rest]
          simp [Tree.isNode]

theorem IsPlain.nameText {w : String} (plain : IsPlain w) (ts : Forest) :
    Forest.nameText (.leaf (.word w) :: ts) = Node.plainName w := by
  have kind : (Token.word w).kind = .identifier := plain
  have text : (Token.word w).text = w := rfl
  simp [Forest.nameText, Forest.tokenWhere?, Tree.token?, kind, text]

theorem Tree.typeSyntax_ofWord {w : String} (plain : IsPlain w) (name : IsName w) :
    (ofWord w).typeSyntax = .simple w := by
  have kind : (Token.word w).kind = .identifier := plain
  rw [ofWord, kind, typeSyntax.eq_def]
  simp [Kind.isPredefinedType, plain.nameText, name.plainName_eq]

theorem Tree.typeSyntax_simpleName {name : String} (plain : IsPlain name) (own : IsName name)
    {Ts : Forest} (some : Ts ≠ []) (each : ∀ T ∈ Ts, (T.isNode && T.kind.isType) = true) :
    (simpleName name Ts).typeSyntax = .generic name (Ts.map Tree.typeSyntax) := by
  have args := Forest.typeSyntax_separated each
  rw [simpleName, if_neg (by simpa using some), typeSyntax.eq_def]
  simp [plain.nameText, own.plainName_eq, argumentList, Forest.argumentSyntax, Forest.typeSyntax,
    Forest.typeSyntax_append, args, Tree.isNode]

theorem Tree.typeSyntax_dotted {L R : Tree} (left : (L.isNode && L.kind.isType) = true)
    (right : (R.isNode && R.kind.isType) = true) :
    (dotted L R).typeSyntax = .qualified L.typeSyntax R.typeSyntax := by
  have dot : (Tree.leaf (.fixed .dot)).isNode = false := rfl
  rw [dotted, typeSyntax.eq_def]
  simp [Forest.typeSyntax, left, right, dot]

namespace Table

variable {t : Table} {s : Scope}

theorem instance?_args {space name : String} {args : List Ty} {type : Ty}
    (found : t.instance? space name args = some type) : type.args = args := by
  unfold instance? at found
  dsimp only at found
  split at found
  · rw [← Option.some.inj found]
    rfl
  · cases found

def lookupBehind (t : Table) (s : Scope) (names : List String) (name : String) (args : List Ty) :
    Option Ty :=
  match names with
  | [] => t.lookup s name args
  | w :: names =>
    let left := ((Tree.ofWord w).extended names).typeSyntax
    t.lookupAfter (t.resolve s left) (t.namespaceWith (t.expandNamespace s.namespaces.length) s left)
      name args

theorem lookupOutward_args {expand : Expand Ty} {name : String} {args : List Ty} (given : args ≠ [])
    {spaces : List NamespaceScope} {i : Nat} {type : Ty}
    (found : t.lookupOutward expand s name args i spaces = some type) : type.args = args := by
  induction spaces generalizing i with
  | nil => cases found
  | cons space spaces ih =>
      rw [lookupOutward] at found
      split at found
      · next own =>
        subst found
        unfold lookupIn at own
        split at own
        · next declared =>
          obtain rfl := Option.some.inj (Option.some.inj own)
          exact instance?_args declared
        · rw [if_neg (by simpa using given)] at own
          obtain ⟨_, imported, same⟩ := Option.map_eq_some_iff.mp own
          obtain rfl := Option.some.inj same
          obtain ⟨_, _, found⟩ := List.exists_of_findSome?_eq_some imported
          exact instance?_args found
      · exact ih found

/-- A name with type arguments means a type with just these. -/
theorem lookupBehind_args {names : List String} {name : String} {args : List Ty} (given : args ≠ [])
    {type : Ty} (found : t.lookupBehind s names name args = some type) : type.args = args := by
  have kept : args.isEmpty = false := by simpa using given
  cases names with
  | nil =>
      rw [lookupBehind, lookup, lookupWith, kept, Bool.false_and, if_neg (by simp)] at found
      split at found
      · next nested =>
        obtain ⟨_, _, declared⟩ := List.exists_of_findSome?_eq_some nested
        rw [← Option.some.inj found]
        exact instance?_args declared
      · exact lookupOutward_args given found
  | cons w names =>
      rw [lookupBehind] at found
      unfold lookupAfter at found
      split at found
      · obtain ⟨_, -, declared⟩ := Option.bind_eq_some_iff.mp found
        exact instance?_args declared
      · obtain ⟨_, -, declared⟩ := Option.bind_eq_some_iff.mp found
        exact instance?_args declared

theorem resolveAllWith_eq_some {expand : Expand Ty} {expandSpace : Expand String}
    {args : List TypeSyntax}
    {types : List Ty} :
    TypeSyntax.resolveAllWith t expand expandSpace s args = some types ↔
      List.Forall₂ (fun a type => a.resolveWith t expand expandSpace s = some type) args types := by
  induction args generalizing types with
  | nil => simp [TypeSyntax.resolveAllWith, eq_comm]
  | cons a args ih =>
      rw [TypeSyntax.resolveAllWith, List.forall₂_cons_left_iff]
      cases own : a.resolveWith t expand expandSpace s with
      | none => simp
      | some type => simp [ih, @eq_comm _ _ types]

/-- A name with type arguments means what it means with the types that these mean. -/
theorem resolve_behind {space name : String} {Ts : Forest} (own : IsName name) (plain : IsPlain name)
    (path : ∀ w ∈ Dotted.segments space, IsPlain w) (given : Ts ≠ [])
    (each : ∀ T ∈ Ts, Spells .whole [T]) {type : Ty} :
    t.resolve s (Tree.named space name Ts).typeSyntax = some type ↔
      ∃ args, List.Forall₂ (fun T a => t.resolve s T.typeSyntax = some a) Ts args ∧
        t.lookupBehind s (Dotted.segments space) name args = some type := by
  have typed : ∀ T ∈ Ts, (T.isNode && T.kind.isType) = true := fun T member =>
    (each T member).isType (by simp) T List.mem_cons_self
  have right := Tree.typeSyntax_simpleName plain own given typed
  rw [Tree.named]
  cases names : Dotted.segments space with
  | nil =>
      rw [Tree.qualified, right, resolve, expandType, TypeSyntax.resolveWith]
      simp [resolveAllWith_eq_some, Option.bind_eq_some_iff, lookupBehind, lookup, resolve, expandType]
  | cons w names' =>
      rw [names, List.forall_mem_cons] at path
      have left := (Spells.extended (.undotted (.ofWord path.1)) path.2).isType (by simp) _
        List.mem_cons_self
      have simple := (Spells.simpleName plain each).isType (by simp) _ List.mem_cons_self
      rw [Tree.qualified, Tree.typeSyntax_dotted left simple, right, resolve, expandType,
        TypeSyntax.resolveWith]
      simp [resolveAllWith_eq_some, Option.bind_eq_some_iff, lookupBehind, resolve, expandType]

theorem resolve_array {T : Tree} {rs : Forest} (element : Spells .element [T])
    (ranks : ∀ r ∈ rs, IsRank r) :
    t.resolve s (Tree.node .arrayType (T :: rs)).typeSyntax =
      (t.resolve s T.typeSyntax).map (Nat.repeat .array (max rs.length 1)) := by
  have typed := element.isType (by simp) T List.mem_cons_self
  have plain : (T.isNode && T.kind == .arrayRankSpecifier) = false := by
    rw [Bool.and_eq_true] at typed
    cases kind : T.kind == .arrayRankSpecifier with
    | false => simp
    | true =>
        rw [beq_iff_eq.mp kind] at typed
        cases typed.2
  have count : rs.countP (fun r => r.isNode && r.kind == .arrayRankSpecifier) = rs.length := by
    rw [List.countP_eq_length]
    intro r member
    cases ranks r member with
    | intro _ _ => rfl
  have spelt : (Tree.node .arrayType (T :: rs)).typeSyntax = .array T.typeSyntax rs.length := by
    rw [Tree.typeSyntax.eq_def]
    simp [Forest.typeSyntax, typed, plain, count]
  rw [spelt, resolve, expandType, TypeSyntax.resolveWith]
  rfl

/-- Brackets behind a type mean its array. -/
theorem resolve_ranked {T : Tree} (whole : Spells .whole [T]) :
    t.resolve s T.ranked.typeSyntax = (t.resolve s T.typeSyntax).map .array := by
  unfold Tree.ranked
  split
  · next ts =>
    obtain ⟨U, rs, rfl, element, some, ranks⟩ := whole.of_array
    have more : ∀ r ∈ rs ++ [.rank], IsRank r := by
      simpa [or_imp, forall_and] using ⟨ranks, Spells.isRank_rank⟩
    have length : max (rs ++ [Tree.rank]).length 1 = max rs.length 1 + 1 := by
      have := List.length_pos_iff.mpr some
      simp only [List.length_append, List.length_singleton]
      omega
    rw [List.cons_append, resolve_array element more, resolve_array element ranks, length,
      Option.map_map]
    rfl
  · next other =>
    rw [resolve_array (whole.of_other other) (by simpa using Spells.isRank_rank)]
    rfl

end Table
end SharpRefactor
