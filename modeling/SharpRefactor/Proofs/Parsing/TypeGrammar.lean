import SharpRefactor.Proofs.Parsing.Bare

/-!
The grammar of types. `Spells` says which trees spell a type, with the tokens of each node in their
places; trivia is left out.
-/

namespace SharpRefactor

inductive TypePart where
  | simple | dotted | element | whole | arguments
  deriving DecidableEq

inductive IsRank : Tree → Prop where
  | intro {l r : Token} (left : l.kind = .lBracket) (right : r.kind = .rBracket) :
      IsRank (.node .arrayRankSpecifier [.leaf l, .leaf r])

/-- Trees that spell a part of a type: a list of arguments with its commas, or one tree. -/
inductive Spells : TypePart → Forest → Prop where
  | identifier {t : Token} (name : t.kind = .identifier) :
      Spells .simple [.node .identifierName [.leaf t]]
  | generic {t l r : Token} {args : Forest} (name : t.kind = .identifier) (left : l.kind = .less)
      (inside : Spells .arguments args) (right : r.kind = .greater) :
      Spells .simple
        [.node .genericName [.leaf t, .node .typeArgumentList (.leaf l :: (args ++ [.leaf r]))]]
  | undotted {T : Tree} (name : Spells .simple [T]) : Spells .dotted [T]
  | qualified {L R : Tree} {d : Token} (left : Spells .dotted [L]) (dot : d.kind = .dot)
      (right : Spells .simple [R]) : Spells .dotted [.node .qualifiedName [L, .leaf d, R]]
  | predefined {t : Token} (keyword : t.kind.isPredefinedType) :
      Spells .element [.node .predefinedType [.leaf t]]
  | named {T : Tree} (name : Spells .dotted [T]) : Spells .element [T]
  | plain {T : Tree} (element : Spells .element [T]) : Spells .whole [T]
  | array {T : Tree} {rs : Forest} (element : Spells .element [T]) (some : rs ≠ [])
      (ranks : ∀ r ∈ rs, IsRank r) : Spells .whole [.node .arrayType (T :: rs)]
  | last {T : Tree} (type : Spells .whole [T]) : Spells .arguments [T]
  | more {T : Tree} {c : Token} {args : Forest} (type : Spells .whole [T]) (comma : c.kind = .comma)
      (rest : Spells .arguments args) : Spells .arguments (T :: .leaf c :: args)

theorem Kind.isTrivia_of_isPredefinedType {k : Kind} (h : k.isPredefinedType) : k.isTrivia = false := by
  cases k <;> first | rfl | cases h

theorem IsRank.bare_eq {r : Tree} (h : IsRank r) : r.bare = [r] := by
  cases h with
  | intro left right => simp [Tree.bare, Forest.bare, Token.isTrivia, left, right, Kind.isTrivia]

namespace Spells

theorem bare_eq {part : TypePart} {ts : Forest} (h : Spells part ts) : ∀ t ∈ ts, t.bare = [t] := by
  induction h with
  | identifier name => simp [Tree.bare, Forest.bare, Token.isTrivia, name, Kind.isTrivia]
  | generic name left inside right ih =>
      simp [Tree.bare, Forest.bare, Forest.bare_append, Token.isTrivia, name, left, right,
        Kind.isTrivia, Forest.bare_eq_self ih]
  | undotted _ ih | named _ ih | plain _ ih | last _ ih => exact ih
  | qualified left dot right ihl ihr =>
      simp only [List.mem_singleton, forall_eq] at ihl ihr
      simp [Tree.bare, Forest.bare, Token.isTrivia, dot, Kind.isTrivia, ihl, ihr]
  | predefined keyword =>
      simp [Tree.bare, Forest.bare, Token.isTrivia, Kind.isTrivia_of_isPredefinedType keyword]
  | array element _ ranks ih =>
      simp only [List.mem_singleton, forall_eq] at ih
      have inside := Forest.bare_eq_self fun r member => (ranks r member).bare_eq
      simp [Tree.bare, Forest.bare, ih, inside]
  | more type comma rest iht ihr =>
      simp only [List.mem_singleton, forall_eq] at iht
      simpa [Tree.bare, Token.isTrivia, comma, Kind.isTrivia, iht] using ihr

/-- A type begins with a name or a keyword. -/
theorem begins {part : TypePart} {ts : Forest} (h : Spells part ts) :
    ∃ t more, Forest.tokens ts = t :: more ∧
      (t.kind = .identifier ∨ t.kind.isPredefinedType) := by
  induction h with
  | @identifier t name => exact ⟨t, [], by simp, .inl name⟩
  | @generic t l r args name _ _ _ _ =>
      exact ⟨t, l :: (Forest.tokens args ++ [r]), by simp [Forest.tokens_append], .inl name⟩
  | undotted _ ih | named _ ih | plain _ ih | last _ ih => exact ih
  | @predefined t keyword => exact ⟨t, [], by simp, .inr keyword⟩
  | qualified _ _ _ ih _ =>
      obtain ⟨t, more, split, kind⟩ := ih
      simp only [Forest.tokens_cons, Forest.tokens_nil, List.append_nil] at split
      exact ⟨t, _, by simp [split]; rfl, kind⟩
  | array _ _ _ ih =>
      obtain ⟨t, more, split, kind⟩ := ih
      simp only [Forest.tokens_cons, Forest.tokens_nil, List.append_nil] at split
      exact ⟨t, _, by simp [split]; rfl, kind⟩
  | more _ _ _ ih _ =>
      obtain ⟨t, more, split, kind⟩ := ih
      simp only [Forest.tokens_cons, Forest.tokens_nil, List.append_nil] at split
      exact ⟨t, _, by simp [split]; rfl, kind⟩

end Spells

end SharpRefactor
