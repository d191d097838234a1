import Mathlib.Data.List.Chain
import SharpRefactor.Proofs.Types.Canonical

/-!
The order of the tokens alone tells whether the tree of a type spells it: a keyword neither comes
before a dot or type arguments nor after a dot, and only identifiers and keywords of types are words.
So the tokens of any tree that spells a type belong to no other one that is written for a type.
-/

namespace SharpRefactor

/-- Whether a token can stand right behind another one in a type. -/
def Follows (a b : Token) : Prop :=
  (b.kind = .dot ∨ b.kind = .less → a.kind.isPredefinedType = false) ∧
    (a.kind = .dot → b.kind = .identifier)

structure Orderly (ts : List Token) : Prop where
  each : ∀ t ∈ ts, t.kind = .identifier ∨ t.kind.isPredefinedType ∨ t.kind ∈ nameMarks.map (·.1)
  next : ts.IsChain Follows

/-- Tokens of a part of a type that does not begin, or not end, with a keyword. -/
structure Linked (begins ends : Bool) (ts : List Token) : Prop extends Orderly ts where
  some : ts ≠ []
  first : ∀ t ∈ ts.head?, t.kind = .identifier ∨ begins = false ∧ t.kind.isPredefinedType
  last : ∀ t ∈ ts.getLast?, t.kind ≠ .dot ∧ (ends = true → t.kind.isPredefinedType = false)

namespace Linked

variable {a b c d : Bool} {ts us : List Token} {m : Token}

theorem weaken (h : Linked a b ts) : Linked false false ts where
  toOrderly := h.toOrderly
  some := h.some
  first t here := (h.first t here).imp_right fun keyword => ⟨rfl, keyword.2⟩
  last t here := ⟨(h.last t here).1, nofun⟩

theorem identifier {t : Token} (kind : t.kind = .identifier) : Linked true true [t] where
  each := by simp [kind]
  next := .singleton t
  some := List.cons_ne_nil t []
  first := by simp [kind]
  last := by simp [kind, Kind.isPredefinedType]

theorem keyword {t : Token} (kind : t.kind.isPredefinedType) : Linked false false [t] where
  each := by simp [kind]
  next := .singleton t
  some := List.cons_ne_nil t []
  first := by simp [kind]
  last := by
    rintro u ⟨⟩
    refine ⟨fun dot => ?_, nofun⟩
    change t.kind = .dot at dot
    rw [dot] at kind
    cases kind

theorem mark_solid {m : Token} (mark : m.kind ∈ nameMarks.map (·.1)) :
    m.kind.isPredefinedType = false := by
  have each : ∀ k ∈ nameMarks.map (·.1), k.isPredefinedType = false := by decide
  exact each _ mark

/-- A mark behind a part. -/
theorem follows_mark (h : Linked a b ts) (sharp : m.kind = .dot ∨ m.kind = .less → b = true) :
    ∀ t ∈ ts.getLast?, Follows t m := fun t here =>
  ⟨fun kind => (h.last t here).2 (sharp kind), fun dot => absurd dot (h.last t here).1⟩

/-- Two parts with a mark between them. -/
theorem join (left : Linked a b ts) (mark : m.kind ∈ nameMarks.map (·.1))
    (sharp : m.kind = .dot ∨ m.kind = .less → b = true) (right : Linked c d us)
    (dot : m.kind = .dot → c = true) : Linked a d (ts ++ m :: us) where
  each := by
    simp only [List.forall_mem_append, List.forall_mem_cons]
    exact ⟨left.each, .inr (.inr mark), right.each⟩
  next := by
    obtain ⟨u, us, rfl⟩ := List.exists_cons_of_ne_nil right.some
    rw [List.isChain_append, List.isChain_cons_cons]
    refine ⟨left.next, ⟨⟨fun _ => mark_solid mark, fun kind => ?_⟩, right.next⟩,
      fun t here v first => ?_⟩
    · refine (right.first u rfl).resolve_right fun keyword => ?_
      rw [dot kind] at keyword
      cases keyword.1
    · obtain rfl := Option.some.inj first
      exact left.follows_mark sharp t here
  some := by simp
  first t here := left.first t (by
    obtain ⟨u, us, rfl⟩ := List.exists_cons_of_ne_nil left.some
    exact here)
  last t here := right.last t (by
    obtain ⟨u, us, rfl⟩ := List.exists_cons_of_ne_nil right.some
    simpa [List.getLast?_append] using here)

/-- A part with a closing mark behind it. -/
theorem close (h : Linked a b ts) (mark : m.kind ∈ nameMarks.map (·.1))
    (blunt : ¬(m.kind = .dot ∨ m.kind = .less)) : Linked a true (ts ++ [m]) where
  each := by
    simp only [List.forall_mem_append, List.forall_mem_singleton]
    exact ⟨h.each, .inr (.inr mark)⟩
  next := by
    rw [List.isChain_append]
    refine ⟨h.next, .singleton m, fun t here v first => ?_⟩
    obtain rfl := Option.some.inj first
    exact h.follows_mark (absurd · blunt) t here
  some := by simp
  first t here := h.first t (by
    obtain ⟨u, us, rfl⟩ := List.exists_cons_of_ne_nil h.some
    exact here)
  last t here := by
    obtain rfl : m = t := by simpa using here
    exact ⟨fun dot => blunt (.inl dot), fun _ => mark_solid mark⟩

end Linked

/-- The tokens of what spells a part of a type are in order. -/
theorem Spells.linked {part : TypePart} {ts : Forest} (h : Spells part ts) :
    Linked (part = .simple ∨ part = .dotted) (part = .simple ∨ part = .dotted) (Forest.tokens ts) := by
  induction h with
  | identifier name => simpa using Linked.identifier name
  | @generic t l r args name left inside right ih =>
      have front := (Linked.identifier name).join (m := l) (by simp [left, nameMarks]) (by simp) ih
        (by simp [left])
      have whole := front.close (m := r) (by simp [right, nameMarks]) (by simp [right])
      simpa [Forest.tokens_append] using whole
  | undotted _ ih => simpa using ih
  | @qualified L R d left dot right ihl ihr =>
      have whole := ihl.join (m := d) (by simp [dot, nameMarks]) (by simp) ihr (by simp)
      simpa using whole
  | predefined keyword => simpa using Linked.keyword keyword
  | named _ ih | plain _ ih | last _ ih => exact ih.weaken
  | @array T rs element some ranks ih =>
      have run : ∀ {b : Bool} {ts : List Token} {rs : Forest}, (∀ r ∈ rs, IsRank r) →
          Linked false b ts → Linked false false (ts ++ Forest.tokens rs) := by
        intro b ts rs ranks
        induction rs generalizing b ts with
        | nil => exact fun linked => by simpa using linked.weaken
        | cons r rs ih =>
            intro linked
            rw [List.forall_mem_cons] at ranks
            cases ranks.1 with
            | @intro l r left right =>
                have front := (linked.close (m := l) (by simp [left, nameMarks]) (by simp [left])).close
                  (m := r) (by simp [right, nameMarks]) (by simp [right])
                simpa using ih ranks.2 front
      simpa using run ranks ih
  | @more T c args type comma rest iht ihr =>
      have whole := iht.join (m := c) (by simp [comma, nameMarks]) (by simp [comma]) ihr
          (by simp [comma])
      simpa using whole

theorem Orderly.within {ts us : List Token} (h : Orderly us) (inside : ts <:+: us) : Orderly ts where
  each t member := h.each t (inside.subset member)
  next := List.IsChain.infix h.next inside

/-! ### Words in order -/

def IsPlain (w : String) : Prop := (Token.word w).kind = .identifier

theorem Token.word_kind {w : String} (h : (Token.word w).kind = .identifier ∨
    (Token.word w).kind.isPredefinedType ∨ (Token.word w).kind ∈ nameMarks.map (·.1)) :
    IsPlain w ∨ (Token.word w).kind.isPredefinedType := by
  rcases h with plain | keyword | mark
  · exact .inl plain
  · exact .inr keyword
  · exfalso
    unfold Token.word at mark
    cases found : Kind.ofKeyword? w with
    | none => simp [found, nameMarks] at mark
    | some k =>
        have each : ∀ k ∈ Kind.keywords, k ∉ nameMarks.map (·.1) := by decide
        exact each k (List.mem_of_find?_eq_some found) (by simpa [found] using mark)

namespace Orderly

variable {w : String} {m : Token} {ts : List Token}

theorem head (h : Orderly (.word w :: ts)) : IsPlain w ∨ (Token.word w).kind.isPredefinedType :=
  Token.word_kind (h.each _ List.mem_cons_self)

/-- What stands before a dot or type arguments is an identifier. -/
theorem plain (h : Orderly (.word w :: m :: ts)) (sharp : m.kind = .dot ∨ m.kind = .less) :
    IsPlain w := by
  refine h.head.resolve_right fun keyword => ?_
  have free := ((List.isChain_cons_cons.mp h.next).1.1 sharp)
  rw [free] at keyword
  cases keyword

theorem tail {t : Token} (h : Orderly (t :: ts)) : Orderly ts :=
  h.within (List.suffix_cons t ts).isInfix

end Orderly

/-- A path with a name behind it: its words are identifiers, or it is a keyword alone. -/
theorem Orderly.words {names : List String} {name : String} {ts : List Token}
    (h : Orderly (Tree.pathTokens names ++ .word name :: ts)) :
    (∀ w ∈ names, IsPlain w) ∧
      (IsPlain name ∨ (names = [] ∧ (Token.word name).kind.isPredefinedType)) := by
  induction names with
  | nil => exact ⟨by simp, h.head.imp_right fun keyword => ⟨rfl, keyword⟩⟩
  | cons w names ih =>
      have plain : IsPlain w := h.plain (.inl rfl)
      obtain ⟨others, last⟩ := ih h.tail.tail
      refine ⟨List.forall_mem_cons.mpr ⟨plain, others⟩, ?_⟩
      rcases last with last | ⟨rfl, -⟩
      · exact .inl last
      · have next := (List.isChain_cons_cons.mp h.tail.next).1
        exact .inl (next.2 rfl)

namespace Spells

theorem ofWord {w : String} (plain : IsPlain w) : Spells .simple [.ofWord w] := by
  have kind : (Token.word w).kind.isPredefinedType = false := by
    rw [plain]
    rfl
  rw [Tree.ofWord, kind]
  exact .identifier plain

theorem ofKeyword {w : String} (keyword : (Token.word w).kind.isPredefinedType) :
    Spells .element [.ofWord w] := by
  rw [Tree.ofWord, if_pos keyword]
  exact .predefined keyword

theorem separated {Ts : Forest} (some : Ts ≠ []) (each : ∀ T ∈ Ts, Spells .whole [T]) :
    Spells .arguments Ts.separated := by
  induction Ts with
  | nil => exact absurd rfl some
  | cons T Ts ih =>
      rw [List.forall_mem_cons] at each
      cases Ts with
      | nil => exact .last each.1
      | cons U Us => exact .more each.1 rfl (ih (by simp) each.2)

theorem simpleName {name : String} (plain : IsPlain name) {Ts : Forest}
    (each : ∀ T ∈ Ts, Spells .whole [T]) : Spells .simple [.simpleName name Ts] := by
  unfold Tree.simpleName
  split
  · exact ofWord plain
  · next some => exact .generic plain rfl (separated (by simpa using some) each) rfl

theorem extended {L : Tree} (h : Spells .dotted [L]) {names : List String}
    (each : ∀ w ∈ names, IsPlain w) : Spells .dotted [L.extended names] := by
  induction names generalizing L with
  | nil => exact h
  | cons w names ih =>
      rw [List.forall_mem_cons] at each
      exact ih (.qualified h rfl (ofWord each.1)) each.2

theorem qualifiedName {names : List String} (each : ∀ w ∈ names, IsPlain w) {last : Tree}
    (h : Spells .simple [last]) : Spells .dotted [.qualified names last] := by
  cases names with
  | nil => exact .undotted h
  | cons w names =>
      rw [List.forall_mem_cons] at each
      exact .qualified (extended (.undotted (ofWord each.1)) each.2) rfl h

theorem of_array {ts : Forest} (h : Spells .whole [.node .arrayType ts]) :
    ∃ T rs, ts = T :: rs ∧ Spells .element [T] ∧ rs ≠ [] ∧ ∀ r ∈ rs, IsRank r := by
  cases h with
  | plain element => cases element with
    | named name => cases name with
      | undotted simple => cases simple
  | @array T rs element some ranks => exact ⟨T, rs, rfl, element, some, ranks⟩

theorem of_other {T : Tree} (h : Spells .whole [T]) (other : ∀ ts, T ≠ .node .arrayType ts) :
    Spells .element [T] := by
  cases h with
  | plain element => exact element
  | array _ _ _ => exact absurd rfl (other _)

theorem isRank_rank : IsRank .rank := .intro rfl rfl

theorem ranked {T : Tree} (h : Spells .whole [T]) : Spells .whole [T.ranked] := by
  unfold Tree.ranked
  split
  · next ts =>
    obtain ⟨U, rs, rfl, element, -, ranks⟩ := h.of_array
    exact .array element (by simp) (by simpa [or_imp, forall_and] using ⟨ranks, isRank_rank⟩)
  · next other => exact .array (h.of_other other) (by simp) (by simpa using isRank_rank)

end Spells

namespace Orderly

variable {space name : String} {us Ts : Forest}

/-- In order, the words of a name are identifiers, or it is a keyword alone. -/
theorem named_words (order : Orderly (Tree.named space name us).tokens) :
    (∀ w ∈ Dotted.segments space, IsPlain w) ∧
      (IsPlain name ∨
        Dotted.segments space = [] ∧ us = [] ∧ (Token.word name).kind.isPredefinedType) := by
  rw [Tree.named, Tree.tokens_qualified, Tree.tokens_simpleName] at order
  obtain ⟨path, last⟩ := order.words
  refine ⟨path, ?_⟩
  rcases last with plain | ⟨alone, keyword⟩
  · exact .inl plain
  · cases us with
    | nil => exact .inr ⟨alone, rfl, keyword⟩
    | cons U Us =>
        rw [alone] at order
        exact .inl (order.plain (.inr rfl))

/-- If words are in order with some arguments behind them, they spell a type with any that do. -/
theorem spells_named (order : Orderly (Tree.named space name us).tokens)
    (same : us = [] → Ts = []) (each : ∀ T ∈ Ts, Spells .whole [T]) :
    Spells .whole [.named space name Ts] := by
  obtain ⟨path, last⟩ := order.named_words
  rw [Tree.named]
  rcases last with plain | ⟨alone, none, keyword⟩
  · exact .plain (.named (.qualifiedName path (.simpleName plain each)))
  · rw [alone, same none]
    exact .plain (.ofKeyword keyword)

theorem argument (order : Orderly (Tree.named space name Ts).tokens) : ∀ T ∈ Ts, Orderly T.tokens := by
  intro T member
  have some : Ts.isEmpty = false := by
    cases Ts with
    | nil => cases member
    | cons U Us => rfl
  obtain ⟨front, rest, split⟩ := List.append_of_mem (Forest.mem_separated member)
  refine order.within ?_
  rw [Tree.named, Tree.tokens_qualified, Tree.tokens_simpleName, some, Tree.argumentList, split]
  refine ⟨Tree.pathTokens (Dotted.segments space) ++ .word name :: .fixed .less :: Forest.tokens front,
    Forest.tokens rest ++ [.fixed .greater], ?_⟩
  simp [Forest.tokens_append]

end Orderly

theorem Ty.keyword?_isPredefinedType {space name word : String} {args : List Ty}
    (found : (Ty.named space name args).keyword? = some word) :
    (Token.word word).kind.isPredefinedType := by
  have each : ∀ entry ∈ Ty.predefined, (Token.word entry.2.1).kind.isPredefinedType := by
    decide
  obtain ⟨-, -, entry, listed, -, rfl⟩ := Ty.keyword?_eq_some found
  exact each entry listed

/-- A type in full is spelt by its tree, if its tokens are in order. -/
theorem Ty.Named.spells {type : Ty} (named : type.Named) (order : Orderly type.tree.tokens) :
    Spells .whole [type.tree] := by
  induction named with
  | void => exact .plain (.ofKeyword (by decide))
  | @parameter name word =>
      rw [tree, Tree.tokens_ofWord] at order
      rcases order.head with plain | keyword
      · exact .plain (.named (.undotted (.ofWord plain)))
      · exact .plain (.ofKeyword keyword)
  | array _ ih =>
      rw [tree, Tree.tokens_ranked] at order
      exact (ih (order.within (List.prefix_append _ _).isInfix)).ranked
  | @named space name args key _ ih =>
      rw [tree] at order ⊢
      cases found : (Ty.named space name args).keyword? with
      | some word => exact .plain (.ofKeyword (keyword?_isPredefinedType found))
      | none =>
          rw [found] at order
          refine order.spells_named id fun T member => ?_
          have own := order.argument T member
          rw [trees_eq_map] at member
          obtain ⟨a, listed, rfl⟩ := List.mem_map.mp member
          exact ih a listed own

/-- A type in full that can be read is read as its tree, whatever that means. -/
theorem Ty.Named.means {type type' : Ty} (named : type.Named) {t : Table} {s : Scope}
    (binds : t.bindsTo s type' type.describe = .ok true) :
    Spells .whole [type.tree] ∧
      ∃ tree : Tree, tree.bare = [type.tree] ∧ t.resolve s tree.typeSyntax = some type' := by
  obtain ⟨tree, T, -, whole, tokens, accepted, means⟩ := named.writes.means binds
  have order : Orderly type.tree.tokens := by
    rw [← tokens]
    simpa using whole.linked.toOrderly
  have spells := named.spells order
  obtain ⟨read, fine⟩ := named.writes.lexed
  obtain ⟨other, accepted', bare⟩ :=
    parseTypeName_complete (tight_lex_plain named.writes.plain) fine spells read.symm
  obtain rfl := Except.ok.inj (accepted.symm.trans accepted')
  exact ⟨spells, tree, bare, means⟩

end SharpRefactor
