import SharpRefactor.Proofs.Parsing.Lossless
import SharpRefactor.Proofs.Syntax.Names
import SharpRefactor.Proofs.Types.Scoped

/-!
Names between dots. A path is put together from names and read off again in one way, and the paths
that a file spells consist of identifiers of its text.
-/

namespace SharpRefactor

/-! ### Paths -/

theorem IsName.dot_not_mem {w : String} (h : IsName w) : '.' ∉ w.toList := fun member =>
  absurd (h.all '.' member) (by decide)

theorem IsName.ne_empty {w : String} (h : IsName w) : w ≠ "" := by
  obtain ⟨c, cs, split, -⟩ := h
  rintro rfl
  cases split

namespace Dotted

theorem pieces_plain {cs : List Char} (plain : '.' ∉ cs) : pieces cs = [cs] := by
  induction cs with
  | nil => rfl
  | cons c cs ih =>
      rw [List.mem_cons, not_or] at plain
      rw [pieces, if_neg (Ne.symm plain.1), ih plain.2]

theorem pieces_ne_nil (cs : List Char) : pieces cs ≠ [] := by
  cases cs with
  | nil => simp [pieces]
  | cons c cs =>
      rw [pieces]
      split
      · simp
      · split <;> simp

theorem pieces_dot (cs ds : List Char) : pieces (cs ++ '.' :: ds) = pieces cs ++ pieces ds := by
  induction cs with
  | nil => simp [pieces]
  | cons c cs ih =>
      rw [List.cons_append, pieces, pieces, ih]
      split
      · rfl
      · obtain ⟨p, ps, split⟩ := List.exists_cons_of_ne_nil (pieces_ne_nil cs)
        rw [split]
        rfl

theorem ofSegments_cons {w : String} {names : List String} (some : names ≠ []) :
    (ofSegments (w :: names)).toList = w.toList ++ '.' :: (ofSegments names).toList := by
  obtain ⟨v, names, rfl⟩ := List.exists_cons_of_ne_nil some
  rw [ofSegments, String.intercalate_cons_cons]
  simp [ofSegments]

theorem ofSegments_singleton (w : String) : ofSegments [w] = w := by
  simp [ofSegments]

/-- The names in a path are read off it again. -/
theorem segments_ofSegments {names : List String} (each : ∀ w ∈ names, IsName w) :
    segments (ofSegments names) = names := by
  have kept : ∀ w, IsName w → w.toList.isEmpty = false := by
    rintro w ⟨c, cs, split, -⟩
    rw [split]
    rfl
  induction names with
  | nil => rfl
  | cons w names ih =>
      rw [List.forall_mem_cons] at each
      have first := kept w each.1
      cases names with
      | nil =>
          rw [ofSegments_singleton, segments, pieces_plain each.1.dot_not_mem]
          simp [first]
      | cons v names =>
          have rest := ih each.2
          rw [segments] at rest ⊢
          rw [ofSegments_cons (by simp), pieces_dot, pieces_plain each.1.dot_not_mem]
          simp [first, rest]

theorem ofSegments_eq_empty {names : List String} (each : ∀ w ∈ names, w ≠ "") :
    ofSegments names = "" ↔ names = [] := by
  refine ⟨fun empty => ?_, fun none => by rw [none]; rfl⟩
  cases names with
  | nil => rfl
  | cons w names =>
      cases names with
      | nil => exact absurd empty (ofSegments_singleton w ▸ each w List.mem_cons_self)
      | cons v names =>
          have text := @ofSegments_cons w (v :: names) (by simp)
          rw [empty] at text
          simp at text

theorem ofSegments_concat {names : List String} (some : names ≠ []) (w : String) :
    ofSegments (names ++ [w]) = s!"{ofSegments names}.{w}" := by
  rw [← String.toList_inj]
  have text : (s!"{ofSegments names}.{w}").toList = (ofSegments names).toList ++ '.' :: w.toList := by
    simp [toString]
  rw [text]
  induction names with
  | nil => exact absurd rfl some
  | cons v names ih =>
      cases names with
      | nil =>
          rw [ofSegments_singleton, List.singleton_append, ofSegments_cons (by simp),
            ofSegments_singleton]
      | cons u names =>
          rw [List.cons_append, ofSegments_cons (by simp), ofSegments_cons (by simp),
            ih (by simp) (by simp [toString])]
          simp

theorem join_ofSegments {names : List String} (each : ∀ w ∈ names, w ≠ "") (w : String) :
    join (ofSegments names) w = ofSegments (names ++ [w]) := by
  rw [join]
  split
  · next empty => rw [(ofSegments_eq_empty each).mp empty, List.nil_append, ofSegments_singleton]
  · next some =>
    rw [ofSegments_concat fun none => some ((ofSegments_eq_empty each).mpr none)]

theorem segments_ne_empty (path : String) : ∀ w ∈ segments path, w ≠ "" := by
  intro w member
  obtain ⟨cs, piece, rfl⟩ := List.mem_map.mp member
  have some : cs ≠ [] := by simpa using (List.mem_filter.mp piece).2
  exact fun empty => some (String.ofList_eq_empty_iff.mp empty)

end Dotted

/-- A dotted path of names; the empty one has none. -/
def IsPath (path : String) : Prop :=
  ∃ names, (∀ w ∈ names, IsName w) ∧ path = Dotted.ofSegments names

/-! ### The words of a file -/

def Tree.Lexed (t : Tree) : Prop :=
  ∀ token ∈ t.tokens, token.kind = .identifier → IsWord token.text ∧ Token.word token.text = token

theorem parse_lexed (text : String) : (parse text).root.Lexed := fun token member =>
  lex_identifier (by rwa [parse_tokens] at member)

theorem Forest.tokens_subset {t : Tree} {ts : Forest} (member : t ∈ ts) :
    ∀ token ∈ t.tokens, token ∈ Forest.tokens ts := by
  obtain ⟨front, rest, rfl⟩ := List.append_of_mem member
  intro token inside
  rw [Forest.tokens_append, Forest.tokens_cons]
  exact List.mem_append_right _ (List.mem_append_left _ inside)

namespace Node

theorem token_mem_tree {n : Node} {t : PlacedToken} (member : t ∈ n.tokens) :
    t.token ∈ n.tree.tokens := by
  obtain ⟨p, placed, made⟩ := List.mem_filterMap.mp member
  obtain ⟨token, leaf, rfl⟩ := Option.map_eq_some_iff.mp made
  have child := mem_elements placed
  obtain ⟨⟨tree, start, index⟩, above⟩ := n
  cases tree with
  | leaf _ => cases child
  | node k ts =>
      refine (Tree.tokens_node k ts).symm ▸ Forest.tokens_subset child token ?_
      generalize p.tree = u at leaf
      cases u with
      | leaf _ =>
          cases leaf
          simp
      | node k ts => cases leaf

theorem tokens_subset {t : Tree} {n : Node} (inside : n ∈ (root t).descendants) :
    ∀ token ∈ n.tree.tokens, token ∈ t.tokens := by
  obtain ⟨-, is, led⟩ := mem_descendants.mp inside
  obtain ⟨front, rest, cut, -⟩ := Tree.tokens_splice led
  intro token member
  change token ∈ (root t).tree.tokens
  rw [cut]
  exact List.mem_append_left _ (List.mem_append_right _ member)

variable {t : Tree} {n : Node}

theorem isWord_of_mem_tokens (lexed : t.Lexed) (inside : n ∈ (root t).descendants) {token : PlacedToken}
    (member : token ∈ n.tokens) (kind : token.kind = .identifier) : IsWord token.text :=
  (lexed token.token (tokens_subset inside _ (token_mem_tree member)) kind).1

theorem firstIdentifier?_eq_some {token : PlacedToken} (found : n.firstIdentifier? = some token) :
    token ∈ n.tokens ∧ token.kind = .identifier :=
  ⟨List.mem_of_find?_eq_some found, by simpa using List.find?_some found⟩

theorem declaredName?_eq_some {token : PlacedToken} (found : n.declaredName? = some token) :
    token ∈ n.tokens ∧ token.kind = .identifier := by
  unfold declaredName? at found
  split at found
  · exact firstIdentifier?_eq_some found
  · simpa using List.mem_of_getLast? found

theorem declaredName?_name (lexed : t.Lexed) (inside : n ∈ (root t).descendants) {token : PlacedToken}
    (found : n.declaredName? = some token) : IsName (plainName token.text) := by
  obtain ⟨member, kind⟩ := declaredName?_eq_some found
  exact (isWord_of_mem_tokens lexed inside member kind).plainName

theorem typeParameterNames_words (lexed : t.Lexed) (inside : n ∈ (root t).descendants) :
    ∀ name ∈ n.typeParameterNames, IsWord name := by
  intro name member
  unfold typeParameterNames at member
  cases list : n.typeParameterList? with
  | none => simp [list] at member
  | some list' =>
      rw [list] at member
      obtain ⟨p, listed, named⟩ := List.mem_filterMap.mp member
      obtain ⟨token, found, rfl⟩ := Option.map_eq_some_iff.mp named
      obtain ⟨placed, kind⟩ := firstIdentifier?_eq_some found
      have outer := mem_descendants_of_mem_children inside (childOf?_eq_some list).1
      have inner := mem_descendants_of_mem_children outer (List.mem_filter.mp listed).1
      exact isWord_of_mem_tokens lexed inner placed kind

end Node

theorem Scope.typeParameters_words {t : Tree} {n : Node} (lexed : t.Lexed)
    (inside : n ∈ (Node.root t).descendants) :
    ∀ name ∈ (Scope.around n).typeParameters, IsWord name := by
  intro name own
  obtain ⟨a, outer, listed⟩ := List.mem_flatMap.mp own
  have member := Node.mem_descendants_of_mem_ancestors inside a (List.mem_filter.mp outer).1
  exact Node.typeParameterNames_words lexed member name listed

/-! ### Paths in a file -/

def IsDotted (path : String) : Prop :=
  ∀ piece ∈ Dotted.pieces path.toList, piece = [] ∨ IsName (String.ofList piece)

namespace IsDotted

theorem segments {path : String} (h : IsDotted path) : ∀ w ∈ Dotted.segments path, IsName w := by
  intro w member
  obtain ⟨piece, kept, rfl⟩ := List.mem_map.mp member
  obtain ⟨listed, some⟩ := List.mem_filter.mp kept
  exact (h piece listed).resolve_left (by rintro rfl; cases some)

theorem of_name {w : String} (h : w = "" ∨ IsName w) : IsDotted w := by
  rcases h with rfl | name
  · simp [IsDotted, Dotted.pieces]
  · intro piece member
    rw [Dotted.pieces_plain name.dot_not_mem, List.mem_singleton] at member
    rw [member, String.ofList_toList]
    exact .inr name

theorem dot {a b : String} (left : IsDotted a) (right : IsDotted b) : IsDotted s!"{a}.{b}" := by
  have text : (s!"{a}.{b}").toList = a.toList ++ '.' :: b.toList := by simp [toString]
  rw [IsDotted, text, Dotted.pieces_dot]
  exact List.forall_mem_append.mpr ⟨left, right⟩

end IsDotted

theorem Forest.nameText_name {ts : Forest} (words : ∀ token ∈ Forest.tokens ts,
    token.kind = .identifier → IsWord token.text) :
    Forest.nameText ts = "" ∨ IsName (Forest.nameText ts) := by
  unfold nameText
  cases found : tokenWhere? (· == .identifier) ts with
  | none => exact .inl rfl
  | some token =>
      obtain ⟨leaf, member, made⟩ := List.mem_filterMap.mp (List.mem_of_find?_eq_some found)
      have own : token ∈ leaf.tokens := by
        cases leaf with
        | leaf _ =>
            cases made
            simp
        | node k ts => cases made
      refine .inr (words token (tokens_subset member token own) ?_).plainName
      simpa using List.find?_some found

theorem Forest.mem_typeSyntax {ts : Forest} {a : TypeSyntax} (member : a ∈ Forest.typeSyntax ts) :
    ∃ t ∈ ts, t.typeSyntax = a := by
  induction ts with
  | nil => cases member
  | cons t ts ih =>
      rw [typeSyntax] at member
      split at member
      · rcases List.mem_cons.mp member with rfl | later
        · exact ⟨t, List.mem_cons_self, rfl⟩
        · obtain ⟨u, inside, same⟩ := ih later
          exact ⟨u, List.mem_cons_of_mem t inside, same⟩
      · obtain ⟨u, inside, same⟩ := ih member
        exact ⟨u, List.mem_cons_of_mem t inside, same⟩

/-- A name without type arguments is spelt with names between its dots. -/
theorem Tree.path?_isDotted (t : Tree) (words : ∀ token ∈ t.tokens,
    token.kind = .identifier → IsWord token.text) :
    ∀ path, t.typeSyntax.path? = some path → IsDotted path := by
  induction t using Tree.induct with
  | leaf token =>
      intro path spelt
      cases spelt
  | node k ts ih =>
      rw [tokens_node] at words
      have part : ∀ a ∈ Forest.typeSyntax ts, ∀ path, a.path? = some path → IsDotted path := by
        intro a member
        obtain ⟨t, inside, rfl⟩ := Forest.mem_typeSyntax member
        exact ih t inside fun token own => words token (Forest.tokens_subset inside token own)
      intro path spelt
      rw [typeSyntax.eq_def] at spelt
      dsimp only at spelt
      split at spelt
      · cases spelt
      · cases spelt
        exact .of_name (Forest.nameText_name words)
      · cases spelt
      · split at spelt
        · next l r rest listed =>
          simp only [TypeSyntax.path?, Option.bind_eq_bind, Option.bind_eq_some_iff,
            Option.pure_def, Option.some.injEq] at spelt
          obtain ⟨a, left, b, right, rfl⟩ := spelt
          exact (part l (by simp [listed]) a left).dot (part r (by simp [listed]) b right)
        · next l listed =>
          simp only [TypeSyntax.path?, Option.bind_eq_bind, Option.bind_eq_some_iff] at spelt
          obtain ⟨a, -, b, none, -⟩ := spelt
          cases none
        · cases spelt
      · cases spelt
      · cases spelt

namespace Scope

variable {t : Tree} {n : Node}

theorem name_withUsings (name : String) (n : Node) :
    (NamespaceScope.withUsings name n).name = name := by
  have step : ∀ (s : NamespaceScope) (directive : Node), (s.direct directive).name = s.name := by
    intro s directive
    unfold NamespaceScope.direct
    split
    · rfl
    · split <;> rfl
  have run : ∀ (directives : List Node) (s : NamespaceScope),
      (directives.foldl NamespaceScope.direct s).name = s.name := by
    intro directives
    induction directives with
    | nil => exact fun _ => rfl
    | cons d ds ih => exact fun s => (ih _).trans (step s d)
  exact run _ _

theorem global_name (n : Node) : (global n).name = "" := by
  unfold global
  split
  · exact name_withUsings _ _
  · rfl

theorem headerPath_isDotted (lexed : t.Lexed) (inside : n ∈ (Node.root t).descendants) :
    IsDotted (headerPath n) := by
  unfold headerPath
  cases written : n.declaredType?.bind TypeSyntax.path? with
  | none => exact .of_name (.inl rfl)
  | some path =>
      obtain ⟨a, declared, spelt⟩ := Option.bind_eq_some_iff.mp written
      obtain ⟨child, found, rfl⟩ := Option.map_eq_some_iff.mp declared
      have member := Node.mem_descendants_of_mem_children inside (List.mem_of_find?_eq_some found)
      refine Tree.path?_isDotted child.tree (fun token own kind => ?_) path spelt
      exact (lexed token (Node.tokens_subset member token own) kind).1

end Scope

end SharpRefactor
