import SharpRefactor.Proofs.Types.Minimal

/-!
A type that is written out in full can be read again. If its names are identifiers, its text is
accepted as a type, and what the tree says is the type: its keyword, or its path, its arguments and
its ranks.
-/

namespace SharpRefactor

def IsIdentifier (w : String) : Prop :=
  (lex w).map Lexeme.token = [⟨.identifier, w⟩] ∧ '@' ∉ w.toList

instance (w : String) : Decidable (IsIdentifier w) := inferInstanceAs (Decidable (_ ∧ _))

def Ty.Plain (type : Ty) : Prop :=
  type.BuiltFrom
    (fun k => (∃ names, (∀ w ∈ names, IsIdentifier w) ∧ k.space = Dotted.ofSegments names) ∧
      IsIdentifier k.name)
    IsIdentifier

namespace TypeSyntax

def extended (left : TypeSyntax) (names : List String) : TypeSyntax :=
  names.foldl (fun left w => .qualified left (.simple w)) left

def behind : List String → TypeSyntax → TypeSyntax
  | [], last => last
  | w :: names, last => .qualified ((simple w).extended names) last

/-- An array; arrays of arrays are one with all their ranks. -/
def ranked : TypeSyntax → TypeSyntax
  | .array element rank => .array element (rank + 1)
  | element => .array element 1

end TypeSyntax

mutual

def Ty.inFull : Ty → TypeSyntax
  | .void => .predefined (Kind.ofKeyword? "void")
  | .named space name args =>
    match (Ty.named space name args).keyword? with
    | some word => .predefined (Kind.ofKeyword? word)
    | none =>
      .behind (Dotted.segments space)
        (if args.isEmpty then .simple name else .generic name (Ty.allInFull args))
  | .parameter name => .simple name
  | .array element => element.inFull.ranked

def Ty.allInFull : List Ty → List TypeSyntax
  | [] => []
  | t :: ts => t.inFull :: Ty.allInFull ts

end

theorem Ty.allInFull_eq_map (ts : List Ty) : Ty.allInFull ts = ts.map Ty.inFull := by
  induction ts with
  | nil => rfl
  | cons t ts ih => rw [Ty.allInFull, ih, List.map_cons]

mutual

/-- The type that a text says, where every name stands for what is declared under it. -/
def TypeSyntax.type? : TypeSyntax → Option Ty
  | .missing => none
  | .predefined keyword => keyword.bind Ty.ofKeyword?
  | .simple name => some (.named "" name [])
  | .generic name args => (TypeSyntax.types? args).map (.named "" name)
  | .qualified left right =>
    match left.path?, right.type? with
    | some space, some (.named "" name args) => some (.named space name args)
    | _, _ => none
  | .array element rank => element.type?.map (Nat.repeat Ty.array rank)

def TypeSyntax.types? : List TypeSyntax → Option (List Ty)
  | [] => some []
  | s :: ss =>
    match s.type?, TypeSyntax.types? ss with
    | some t, some ts => some (t :: ts)
    | _, _ => none

end

mutual

/-- A type with its type parameters taken for types of their names. -/
def Ty.unbound : Ty → Ty
  | .void => .void
  | .named space name args => .named space name (Ty.allUnbound args)
  | .parameter name => .named "" name []
  | .array element => .array element.unbound

def Ty.allUnbound : List Ty → List Ty
  | [] => []
  | t :: ts => t.unbound :: Ty.allUnbound ts

end

namespace IsIdentifier

variable {w : String}

theorem isWord (h : IsIdentifier w) : IsWord w ∧ Token.word w = ⟨.identifier, w⟩ := by
  have only : (⟨.identifier, w⟩ : Token) ∈ (lex w).map Lexeme.token := by
    rw [h.1]
    exact List.mem_cons_self
  exact lex_identifier only rfl

theorem isName (h : IsIdentifier w) : IsName w := by
  refine h.isWord.1.resolve_right ?_
  rintro ⟨v, -, sign⟩
  exact h.2 (by simp [sign])

theorem isPlain (h : IsIdentifier w) : IsPlain w := congrArg Token.kind h.isWord.2

end IsIdentifier

namespace Ty.Plain

variable {type : Ty}

theorem named (plain : type.Plain) : type.Named := by
  refine Ty.BuiltFrom.mono plain ?_ fun name own => own.isName.isWord
  rintro k ⟨⟨names, each, space⟩, name⟩
  exact ⟨⟨names, fun w member => (each w member).isName, space⟩, name.isName⟩

theorem spells (plain : type.Plain) : Spells .whole [type.tree] := by
  induction plain with
  | void => exact .plain (.ofKeyword (by decide))
  | parameter own => exact .plain (.named (.undotted (.ofWord own.isPlain)))
  | array _ ih => exact ih.ranked
  | @named space name args key _ ih =>
      obtain ⟨⟨names, each, rfl⟩, own⟩ := key
      rw [tree]
      cases found : (Ty.named (Dotted.ofSegments names) name args).keyword? with
      | some word => exact .plain (.ofKeyword (keyword?_isPredefinedType found))
      | none =>
          have inside : ∀ T ∈ Ty.trees args, Spells .whole [T] := by
            rw [trees_eq_map, List.forall_mem_map]
            exact ih
          dsimp only
          rw [Tree.named, Dotted.segments_ofSegments fun w member => (each w member).isName]
          exact .plain (.named (.qualifiedName (fun w member => (each w member).isPlain)
            (.simpleName own.isPlain inside)))

end Ty.Plain

/-! ### What the trees say -/

namespace Tree

theorem typeSyntax_keyword {w : String} (keyword : (Token.word w).kind.isPredefinedType) :
    (ofWord w).typeSyntax = .predefined (Kind.ofKeyword? w) := by
  have found : Kind.ofKeyword? w = some (Token.word w).kind := by
    unfold Token.word at keyword ⊢
    cases found : Kind.ofKeyword? w with
    | none =>
        rw [found] at keyword
        cases keyword
    | some k => rfl
  rw [ofWord, if_pos keyword, typeSyntax.eq_def, found]
  simp [Forest.tokenWhere?, Tree.token?, keyword]

theorem typeSyntax_extended {L : Tree} (left : (L.isNode && L.kind.isType) = true) {names : List String}
    (each : ∀ w ∈ names, IsIdentifier w) :
    (L.extended names).typeSyntax = L.typeSyntax.extended names ∧
      ((L.extended names).isNode && (L.extended names).kind.isType) = true := by
  induction names generalizing L with
  | nil => exact ⟨rfl, left⟩
  | cons w names ih =>
      rw [List.forall_mem_cons] at each
      have word := (Spells.ofWord each.1.isPlain).isType (by simp) _ List.mem_cons_self
      have own := typeSyntax_dotted left word
      rw [typeSyntax_ofWord each.1.isPlain each.1.isName] at own
      obtain ⟨said, type⟩ := ih (L := dotted L (ofWord w)) rfl each.2
      refine ⟨?_, type⟩
      rw [own] at said
      exact said

theorem typeSyntax_qualified {names : List String} (each : ∀ w ∈ names, IsIdentifier w) {last : Tree}
    (right : (last.isNode && last.kind.isType) = true) :
    (qualified names last).typeSyntax = .behind names last.typeSyntax := by
  cases names with
  | nil => rfl
  | cons w names =>
      rw [List.forall_mem_cons] at each
      have word := (Spells.ofWord each.1.isPlain).isType (by simp) _ List.mem_cons_self
      obtain ⟨said, left⟩ := typeSyntax_extended word each.2
      rw [qualified, typeSyntax_dotted left right, said,
        typeSyntax_ofWord each.1.isPlain each.1.isName]
      rfl

/-- Only an array has ranks already. -/
theorem typeSyntax_ranked_other {T : Tree} (other : ∀ ts, T ≠ .node .arrayType ts) :
    T.typeSyntax.ranked = .array T.typeSyntax 1 := by
  cases T with
  | leaf t => rfl
  | node k us =>
      rw [typeSyntax.eq_def]
      dsimp only
      split
      case h_4 => split <;> rfl
      case h_5 => exact absurd rfl (other us)
      all_goals rfl

theorem typeSyntax_ranked {T : Tree} (whole : Spells .whole [T]) :
    T.ranked.typeSyntax = T.typeSyntax.ranked := by
  have none : Forest.typeSyntax [rank] = [] := rfl
  unfold ranked
  split
  · next ts =>
    rw [typeSyntax.eq_def, typeSyntax.eq_def (.node .arrayType ts)]
    dsimp only
    rw [Forest.typeSyntax_append, none, List.append_nil, List.countP_append]
    rfl
  · next other =>
    have own := whole.isType (by simp) T List.mem_cons_self
    have plain : ¬ (T.isNode && T.kind == .arrayRankSpecifier) = true := by
      intro same
      rw [beq_iff_eq.mp (Bool.and_eq_true_iff.mp same).2] at own
      simp [Kind.isType] at own
    rw [typeSyntax_ranked_other other, typeSyntax.eq_def]
    dsimp only
    rw [Forest.typeSyntax, if_pos own, none, List.countP_cons, if_neg plain]
    rfl

end Tree

theorem Ty.Plain.typeSyntax_tree {type : Ty} (plain : type.Plain) :
    type.tree.typeSyntax = type.inFull := by
  induction plain with
  | void => exact Tree.typeSyntax_keyword (by decide)
  | parameter own => exact Tree.typeSyntax_ofWord own.isPlain own.isName
  | @array element inside ih =>
      rw [tree, inFull, ← ih]
      exact Tree.typeSyntax_ranked (Ty.Plain.spells inside)
  | @named space name args key inside ih =>
      obtain ⟨⟨names, each, rfl⟩, own⟩ := key
      rw [tree, inFull]
      -- A keyword says all of the type; otherwise the path is in front of the name with its arguments.
      cases found : (Ty.named (Dotted.ofSegments names) name args).keyword? with
      | some word => exact Tree.typeSyntax_keyword (keyword?_isPredefinedType found)
      | none =>
          dsimp only
          have types : ∀ T ∈ Ty.trees args, Spells .whole [T] := by
            rw [trees_eq_map, List.forall_mem_map]
            exact fun a member => Ty.Plain.spells (inside a member)
          have simple := Spells.simpleName own.isPlain types
          rw [Tree.named, Dotted.segments_ofSegments fun w member => (each w member).isName,
            Tree.typeSyntax_qualified each (simple.isType (by simp) _ List.mem_cons_self)]
          congr 1
          cases args with
          | nil => exact Tree.typeSyntax_ofWord own.isPlain own.isName
          | cons a args =>
              rw [Tree.typeSyntax_simpleName own.isPlain own.isName (by simp [trees])
                fun T member => (types T member).isType (by simp) _ List.mem_cons_self]
              rw [if_neg (by simp), trees_eq_map, allInFull_eq_map, List.map_map]
              exact congrArg _ (List.map_congr_left ih)

/-! ### What is said is the type -/

namespace TypeSyntax

theorem types?_map {args : List Ty} (each : ∀ a ∈ args, a.inFull.type? = some a.unbound) :
    types? (args.map Ty.inFull) = some (Ty.allUnbound args) := by
  induction args with
  | nil => rfl
  | cons a args ih =>
      rw [List.forall_mem_cons] at each
      rw [List.map_cons, types?, each.1, ih each.2]
      rfl

theorem type?_ranked {s : TypeSyntax} {t : Ty} (said : s.type? = some t) :
    s.ranked.type? = some (.array t) := by
  unfold ranked
  split
  · next element rank =>
    obtain ⟨u, found, rfl⟩ := Option.map_eq_some_iff.mp ((type?.eq_6 element rank).symm.trans said)
    rw [type?, found]
    rfl
  · rw [type?, said]
    rfl

theorem path?_extended {s : TypeSyntax} {path : String} (h : s.path? = some path)
    (names : List String) :
    (s.extended names).path? = some (names.foldl (fun text w => s!"{text}.{w}") path) := by
  induction names generalizing s path with
  | nil => exact h
  | cons w names ih => exact ih (by simp [path?, h])

theorem type?_behind {last : TypeSyntax} {name : String} {args : List Ty}
    (said : last.type? = some (.named "" name args)) (names : List String) :
    (last.behind names).type? = some (.named (Dotted.ofSegments names) name args) := by
  cases names with
  | nil => exact said
  | cons w names =>
      have first : Dotted.ofSegments [w] = w := by simp [Dotted.ofSegments]
      have path := path?_extended (s := .simple w) (congrArg some first.symm) names
      rw [← Dotted.ofSegments_append (by simp), List.singleton_append] at path
      rw [behind, type?, path, said]
      rfl

end TypeSyntax

theorem Ty.Plain.type?_inFull {type : Ty} (plain : type.Plain) :
    type.inFull.type? = some type.unbound := by
  induction plain with
  | void => rfl
  | parameter own => rfl
  | array _ ih => exact TypeSyntax.type?_ranked ih
  | @named space name args key _ ih =>
      obtain ⟨⟨names, each, rfl⟩, own⟩ := key
      rw [inFull, unbound]
      cases found : (Ty.named (Dotted.ofSegments names) name args).keyword? with
      | some word =>
          have keyword : ∀ entry ∈ Ty.predefined,
              (Kind.ofKeyword? entry.2.1).bind Ty.ofKeyword? = some (.system entry.2.2) := by
            decide
          obtain ⟨space, rfl, entry, listed, rfl, rfl⟩ := Ty.keyword?_eq_some found
          rw [space]
          exact keyword entry listed
      | none =>
          dsimp only
          rw [Dotted.segments_ofSegments fun w member => (each w member).isName]
          refine TypeSyntax.type?_behind ?_ names
          cases args with
          | nil => rfl
          | cons a args =>
              rw [if_neg (by simp), TypeSyntax.type?, allInFull_eq_map, TypeSyntax.types?_map ih]
              rfl

/-- A type whose names are identifiers can be written out and read again: its text is accepted as it
stands, the tree says the keyword, or the path, the arguments and the ranks of the type in full, and
these say the type. -/
theorem Ty.describe_reads {type : Ty} (plain : type.Plain) :
    ∃ tree, parseTypeName type.describe = .ok tree ∧ tree.text = type.describe ∧
      tree.typeSyntax = type.inFull ∧ tree.typeSyntax.type? = some type.unbound := by
  have writes := plain.named.writes
  obtain ⟨tokens, fine⟩ := writes.lexed
  obtain ⟨tree, accepted, bare⟩ :=
    parseTypeName_complete (tight_lex_plain writes.plain) fine plain.spells tokens.symm
  have said : tree.typeSyntax = type.inFull := by
    rw [← Tree.typeSyntax_bare tree _ bare, plain.typeSyntax_tree]
  refine ⟨tree, accepted, ?_, said, ?_⟩
  · rw [parseTypeName_text accepted, writes.trimmed_eq]
  · rw [said, plain.type?_inFull]

/-- Arrays of lists inside a dictionary. -/
theorem Ty.describe_reads_dictionary :
    let lists := Ty.array (.array (.named "Lib" "List" [.parameter "T"]))
    let type := Ty.named "Lib.Maps" "Dictionary" [.string, lists]
    type.describe = "Lib.Maps.Dictionary<string, Lib.List<T>[][]>" ∧
      ∃ tree, parseTypeName type.describe = .ok tree ∧ tree.typeSyntax =
        .qualified (.qualified (.simple "Lib") (.simple "Maps"))
          (.generic "Dictionary" [.predefined (some .stringKw),
            .array (.qualified (.simple "Lib") (.generic "List" [.simple "T"])) 2]) := by
  intro lists type
  have words : ∀ w ∈ ["T", "Lib", "List", "System", "String", "Maps", "Dictionary"],
      IsIdentifier w := by decide +kernel
  have list : Ty.Plain (.named "Lib" "List" [.parameter "T"]) :=
    Ty.BuiltFrom.named ⟨⟨["Lib"], by simp [words], rfl⟩, words _ (by simp)⟩
      (List.forall_mem_singleton.mpr (.parameter (words _ (by simp))))
  have string : Ty.Plain .string :=
    Ty.BuiltFrom.named ⟨⟨["System"], by simp [words], rfl⟩, words _ (by simp)⟩ (by simp)
  have plain : type.Plain :=
    Ty.BuiltFrom.named ⟨⟨["Lib", "Maps"], by simp [words], rfl⟩, words _ (by simp)⟩
      (List.forall_mem_cons.mpr ⟨string, List.forall_mem_singleton.mpr (.array (.array list))⟩)
  obtain ⟨tree, accepted, -, said, -⟩ := Ty.describe_reads plain
  exact ⟨by decide +kernel, tree, accepted, said⟩

end SharpRefactor
