import SharpRefactor.Proofs.Parsing.TypeGrammar

/-!
A scan over the tokens ahead passes exactly the tokens of a tree that spells a type, wherever what
comes after them cannot go on with a type. It passes them with as many steps as it is given for them.
-/

namespace SharpRefactor

namespace Lookahead

theorem next_cons {t : Token} (solid : t.isTrivia = false) (ts : List Token) :
    next (t :: ts) = (t.kind, ts) := by
  simp [next, solid]

theorem next_of_kind {t : Token} {k : Kind} (kind : t.kind = k) (real : k.isTrivia = false)
    (ts : List Token) : next (t :: ts) = (k, ts) := by
  subst kind
  exact next_cons real ts

/-- What follows cannot go on with a type that has been read. -/
structure Ends (ts : List Token) : Prop where
  less : nextKind ts ≠ .less
  dot : nextKind ts ≠ .dot
  bracket : nextKind ts ≠ .lBracket

theorem Ends.of_kind {t : Token} {ts : List Token} (kind : t.kind = .comma ∨ t.kind = .greater) :
    Ends (t :: ts) := by
  rcases kind with comma | greater
  · constructor <;> rw [nextKind, next_of_kind comma rfl] <;> simp
  · constructor <;> rw [nextKind, next_of_kind greater rfl] <;> simp

theorem scanArgumentsOf_stop {n : Nat} {ts : List Token} (h : nextKind ts ≠ .less) :
    scanArgumentsOf n ts = ts := by
  cases n with
  | zero => rfl
  | succ n =>
      rw [scanArgumentsOf]
      split
      · next found => exact absurd (congrArg Prod.fst found) h
      · rfl

theorem scanQualifiers_stop {n : Nat} {ts : List Token} (h : nextKind ts ≠ .dot) :
    scanQualifiers n ts = ts := by
  cases n with
  | zero => rfl
  | succ n =>
      rw [scanQualifiers]
      split
      · next found => exact absurd (congrArg Prod.fst found) h
      · rfl

theorem skipRanks_stop {n : Nat} {ts : List Token} (h : nextKind ts ≠ .lBracket) :
    skipRanks n ts = ts := by
  cases n with
  | zero => rfl
  | succ n =>
      rw [skipRanks]
      split
      · next found => exact absurd (congrArg Prod.fst found) h
      · rfl

theorem skipRanks_ranks {rs : Forest} (ranks : ∀ r ∈ rs, IsRank r) {n : Nat} {rest : List Token}
    (enough : rs.length ≤ n) (ends : nextKind rest ≠ .lBracket) :
    skipRanks n (Forest.tokens rs ++ rest) = rest := by
  induction rs generalizing n with
  | nil => exact skipRanks_stop ends
  | cons r rs ih =>
      rw [List.forall_mem_cons] at ranks
      cases ranks.1 with
      | @intro l r left right =>
          obtain ⟨n, rfl⟩ : ∃ m, n = m + 1 := ⟨n - 1, by simp at enough; omega⟩
          simp only [Forest.tokens_cons, Tree.tokens_node, Tree.tokens_leaf, Forest.tokens_nil,
            List.cons_append, List.nil_append, skipRanks,
            next_of_kind left rfl, next_of_kind right rfl]
          exact ih ranks.2 (by simpa using enough)

theorem afterTypeArguments?_less {t l : Token} (solid : t.isTrivia = false) (left : l.kind = .less)
    (ts : List Token) : afterTypeArguments? (t :: l :: ts) = scanArguments (steps ts) ts := by
  rw [afterTypeArguments?, next_cons solid]
  simp only [next_of_kind left rfl]

theorem afterTypeArguments?_plain {t : Token} (solid : t.isTrivia = false) {ts : List Token}
    (less : nextKind ts ≠ .less) : afterTypeArguments? (t :: ts) = none := by
  rw [afterTypeArguments?, next_cons solid]
  split
  · next found => exact absurd (congrArg Prod.fst found) less
  · rfl

end Lookahead

namespace Spells

open Lookahead

def Scanned (tokens : List Token) : TypePart → Prop
  | .simple => ∃ t more, tokens = t :: more ∧ t.kind = .identifier ∧
      ∀ n rest, 2 * more.length ≤ n → nextKind rest ≠ .less →
        scanArgumentsOf n (more ++ rest) = rest
  | .dotted => ∃ t more, tokens = t :: more ∧ t.kind = .identifier ∧
      ∀ n rest, 2 * more.length ≤ n → nextKind rest ≠ .less →
        ∃ m, n ≤ m + 2 * more.length ∧
          scanQualifiers n (scanArgumentsOf n (more ++ rest)) = scanQualifiers m rest
  | .element => ∀ n rest, 2 * tokens.length ≤ n → nextKind rest ≠ .less → nextKind rest ≠ .dot →
      scanType n (tokens ++ rest) = some (skipRanks (n - 1) rest)
  | .whole => ∀ n rest, 2 * tokens.length ≤ n → Ends rest → scanType n (tokens ++ rest) = some rest
  | .arguments => ∀ n g rest, 2 * tokens.length < n → g.kind = .greater →
      scanArguments n (tokens ++ g :: rest) = some rest

theorem tokens_ranks {rs : Forest} (ranks : ∀ r ∈ rs, IsRank r) :
    2 * rs.length ≤ (Forest.tokens rs).length := by
  induction rs with
  | nil => exact Nat.zero_le _
  | cons r rs ih =>
      rw [List.forall_mem_cons] at ranks
      have rest := ih ranks.2
      cases ranks.1 with
      | intro left right =>
          simp only [Forest.tokens_cons, Tree.tokens_node, Tree.tokens_leaf, Forest.tokens_nil,
            List.length_append, List.length_cons, List.length_nil]
          omega

theorem scanned_generic {t l r : Token} {args : Forest} (name : t.kind = .identifier)
    (left : l.kind = .less) (inside : Scanned (Forest.tokens args) .arguments)
    (right : r.kind = .greater) :
    Scanned (Forest.tokens
      [.node .genericName [.leaf t, .node .typeArgumentList (.leaf l :: (args ++ [.leaf r]))]])
      .simple := by
  refine ⟨t, l :: (Forest.tokens args ++ [r]), by simp [Forest.tokens_append], name, ?_⟩
  intro n rest enough ends
  simp only [List.length_cons, List.length_append, List.length_nil] at enough
  obtain ⟨n, rfl⟩ : ∃ m, n = m + 1 := ⟨n - 1, by omega⟩
  rw [List.cons_append, scanArgumentsOf, next_of_kind left rfl]
  simp only [List.append_assoc, List.singleton_append]
  rw [inside n r rest (by omega) right]
  rfl

theorem scanned_qualified {L R : Tree} {d : Token} (left : Scanned (Forest.tokens [L]) .dotted)
    (dot : d.kind = .dot) (right : Scanned (Forest.tokens [R]) .simple) :
    Scanned (Forest.tokens [.node .qualifiedName [L, .leaf d, R]]) .dotted := by
  obtain ⟨t, more, splitL, kind, scanL⟩ := left
  obtain ⟨u, further, splitR, kindR, scanR⟩ := right
  simp only [Forest.tokens_cons, Forest.tokens_nil, List.append_nil] at splitL splitR
  refine ⟨t, more ++ d :: u :: further, by simp [splitL, splitR], kind, ?_⟩
  intro n rest enough ends
  simp only [List.length_append, List.length_cons] at enough
  obtain ⟨m, left, scanned⟩ := scanL n (d :: u :: (further ++ rest)) (by omega) (by
    rw [nextKind, next_of_kind dot rfl]
    simp)
  obtain ⟨m, rfl⟩ : ∃ k, m = k + 1 := ⟨m - 1, by omega⟩
  refine ⟨m, by simp only [List.length_append, List.length_cons]; omega, ?_⟩
  rw [List.append_assoc, List.cons_append, List.cons_append, scanned, scanQualifiers,
    next_of_kind dot rfl]
  simp only [next_of_kind kindR rfl]
  rw [scanR m rest (by omega) ends]

theorem scanned_predefined {t : Token} (keyword : t.kind.isPredefinedType) :
    Scanned (Forest.tokens [.node .predefinedType [.leaf t]]) .element := by
  intro n rest enough less dot
  have real := Kind.isTrivia_of_isPredefinedType keyword
  simp only [Forest.tokens_cons, Tree.tokens_node, Tree.tokens_leaf, Forest.tokens_nil,
    List.append_nil, List.singleton_append, List.length_singleton] at enough ⊢
  obtain ⟨n, rfl⟩ : ∃ m, n = m + 1 := ⟨n - 1, by omega⟩
  rw [scanType, next_cons real]
  split
  · next kind =>
    obtain ⟨kind, -⟩ := Prod.mk.inj kind
    rw [kind] at keyword
    cases keyword
  · next same =>
    cases same
    rw [if_pos keyword, Nat.add_sub_cancel]

theorem scanned_named {ts : Forest} (name : Scanned (Forest.tokens ts) .dotted) :
    Scanned (Forest.tokens ts) .element := by
  obtain ⟨t, more, split, kind, scan⟩ := name
  intro n rest enough less dot
  rw [split] at enough ⊢
  simp only [List.length_cons] at enough
  obtain ⟨n, rfl⟩ : ∃ m, n = m + 1 := ⟨n - 1, by omega⟩
  obtain ⟨m, -, scanned⟩ := scan n rest (by omega) less
  rw [List.cons_append, scanType, next_of_kind kind rfl]
  simp only [scanned, scanQualifiers_stop dot, Nat.add_sub_cancel]

theorem scanned_array {T : Tree} {rs : Forest} (element : Scanned (Forest.tokens [T]) .element)
    (some : rs ≠ []) (ranks : ∀ r ∈ rs, IsRank r) :
    Scanned (Forest.tokens [.node .arrayType (T :: rs)]) .whole := by
  intro n rest enough ends
  have bracket : nextKind (Forest.tokens rs ++ rest) = .lBracket := by
    cases rs with
    | nil => exact absurd rfl some
    | cons r rs =>
        cases ranks r List.mem_cons_self with
        | intro left right => exact congrArg Prod.fst (next_of_kind left rfl _)
  have short : 2 * rs.length ≤ (Forest.tokens rs).length := tokens_ranks ranks
  unfold Scanned at element
  simp only [Forest.tokens_cons, Forest.tokens_nil, Tree.tokens_node, List.append_nil,
    List.length_append, List.append_assoc] at enough element ⊢
  rw [element n _ (by omega) (by simp [bracket]) (by simp [bracket])]
  rw [skipRanks_ranks ranks (by omega) ends.bracket]

theorem scanned_last {ts : Forest} (type : Scanned (Forest.tokens ts) .whole) :
    Scanned (Forest.tokens ts) .arguments := by
  intro n g rest enough greater
  obtain ⟨n, rfl⟩ : ∃ m, n = m + 1 := ⟨n - 1, by omega⟩
  rw [scanArguments, type n (g :: rest) (by omega) (.of_kind (.inr greater))]
  simp only [next_of_kind greater rfl]

theorem scanned_more {T : Tree} {c : Token} {args : Forest}
    (type : Scanned (Forest.tokens [T]) .whole) (comma : c.kind = .comma)
    (more : Scanned (Forest.tokens args) .arguments) :
    Scanned (Forest.tokens (T :: .leaf c :: args)) .arguments := by
  intro n g rest enough greater
  obtain ⟨n, rfl⟩ : ∃ m, n = m + 1 := ⟨n - 1, by omega⟩
  unfold Scanned at type
  simp only [Forest.tokens_cons, Forest.tokens_nil, Tree.tokens_leaf, List.append_nil,
    List.length_append, List.length_cons, List.append_assoc, List.nil_append,
    List.cons_append] at enough type ⊢
  rw [scanArguments, type n _ (by omega) (.of_kind (.inl comma))]
  simp only [next_of_kind comma rfl]
  exact more n g rest (by omega) greater

/-- A scan passes exactly the tokens of a tree that spells a type. -/
theorem scanned {part : TypePart} {ts : Forest} (h : Spells part ts) :
    Scanned (Forest.tokens ts) part := by
  induction h with
  | @identifier t name =>
      exact ⟨t, [], by simp, name, fun n rest _ ends => scanArgumentsOf_stop ends⟩
  | generic name left _ right ih => exact scanned_generic name left ih right
  | undotted name ih =>
      obtain ⟨t, more, split, kind, scan⟩ := ih
      refine ⟨t, more, split, kind, fun n rest enough ends => ⟨n, by omega, ?_⟩⟩
      rw [scan n rest enough ends]
  | qualified _ dot _ ihl ihr => exact scanned_qualified ihl dot ihr
  | predefined keyword => exact scanned_predefined keyword
  | named _ ih => exact scanned_named ih
  | plain element ih =>
      intro n rest enough ends
      rw [ih n rest enough ends.less ends.dot, skipRanks_stop ends.bracket]
  | array _ some ranks ih => exact scanned_array ih some ranks
  | last _ ih => exact scanned_last ih
  | more _ comma _ iht ihr => exact scanned_more iht comma ihr

end Spells

end SharpRefactor
