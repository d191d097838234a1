import SharpRefactor.Proofs.Types.Identities

/-!
How types are called. Whatever a file declares is called by identifiers of its text, so the keys of
its table are dotted names and type parameters are words, and no answer about it mentions anything
else.
-/

namespace SharpRefactor

/-! ### Aliases -/

def Node.Gives (n : Node) (entry : String × TypeSyntax) : Prop :=
  ∃ directive ∈ n.usings, ∃ name, directive.alias? = some name ∧ name.nameText = entry.1

namespace Scope

variable {t : Tree} {n : Node} {entry : String × TypeSyntax}

theorem withUsings_aliases {space : String}
    (own : entry ∈ (NamespaceScope.withUsings space n).aliases) : n.Gives entry := by
  have step : ∀ (s : NamespaceScope) (directive : Node), entry ∈ (s.direct directive).aliases →
      entry ∈ s.aliases ∨ ∃ name, directive.alias? = some name ∧ name.nameText = entry.1 := by
    intro s directive own
    unfold NamespaceScope.direct at own
    split at own
    · exact .inl own
    · split at own
      · next name given =>
        rcases List.mem_append.mp own with old | new
        · exact .inl old
        · rw [List.mem_singleton.mp new]
          exact .inr ⟨name, given, rfl⟩
      · exact .inl own
  have run : ∀ (directives : List Node) (s : NamespaceScope),
      entry ∈ (directives.foldl NamespaceScope.direct s).aliases → entry ∈ s.aliases ∨
        ∃ directive ∈ directives, ∃ name, directive.alias? = some name ∧ name.nameText = entry.1 := by
    intro directives
    induction directives with
    | nil => exact fun s own => .inl own
    | cons d ds ih =>
        intro s own
        rcases ih _ own with before | ⟨directive, later, given⟩
        · exact (step s d before).imp_right fun given => ⟨d, List.mem_cons_self, given⟩
        · exact .inr ⟨directive, List.mem_cons_of_mem d later, given⟩
  exact (run _ _ own).resolve_left fun none => nomatch none

theorem enterAll_aliases {header : Node} {names : List String} {spaces : List NamespaceScope}
    {space : NamespaceScope} (entered : space ∈ enterAll header names spaces)
    (own : entry ∈ space.aliases) : space ∈ spaces ∨ header.Gives entry := by
  induction names generalizing spaces with
  | nil => exact .inl entered
  | cons p ps ih =>
      cases ps with
      | nil =>
          rcases List.mem_cons.mp entered with rfl | old
          · exact .inr (withUsings_aliases own)
          · exact .inl old
      | cons q qs =>
          rcases ih entered with inner | given
          · rcases List.mem_cons.mp inner with rfl | old
            · cases own
            · exact .inl old
          · exact .inr given

/-- Every alias that can be seen at a node is given by a directive of the file or of a namespace
around it. -/
theorem alias_written {space : NamespaceScope} (visible : space ∈ namespacesAt n)
    (own : entry ∈ space.aliases) :
    ∃ a ∈ n.ancestors, (a.kind = .compilationUnit ∨ a.kind = .namespaceDeclaration) ∧
      a.Gives entry := by
  have run : ∀ (headers : List Node) (spaces : List NamespaceScope),
      space ∈ headers.foldl enter spaces → space ∈ spaces ∨ ∃ h ∈ headers, h.Gives entry := by
    intro headers
    induction headers with
    | nil => exact fun spaces entered => .inl entered
    | cons h hs ih =>
        intro spaces entered
        rcases ih _ entered with before | ⟨header, later, given⟩
        · exact (enterAll_aliases before own).imp_right fun given => ⟨h, List.mem_cons_self, given⟩
        · exact .inr ⟨header, List.mem_cons_of_mem h later, given⟩
  rcases run _ _ visible with outermost | ⟨header, listed, given⟩
  · rw [List.mem_singleton.mp outermost] at own
    unfold global at own
    split at own
    · next unit last =>
      obtain ⟨outer, kind⟩ := List.mem_filter.mp (List.mem_of_getLast? last)
      exact ⟨unit, outer, .inl (beq_iff_eq.mp kind), withUsings_aliases own⟩
    · cases own
  · obtain ⟨outer, kind⟩ := List.mem_filter.mp (List.mem_reverse.mp listed)
    exact ⟨header, outer, .inr (beq_iff_eq.mp kind), given⟩

end Scope

theorem Node.alias?_eq_some {n m : Node} (found : n.alias? = some m) :
    ∃ equals ∈ n.children,
      equals.kind = .nameEquals ∧ m ∈ equals.children ∧ m.kind = .identifierName := by
  obtain ⟨equals, first, second⟩ := Option.bind_eq_some_iff.mp found
  obtain ⟨outer, kind⟩ := childOf?_eq_some first
  exact ⟨equals, outer, kind, childOf?_eq_some second⟩

/-- Whether the aliases that can be seen are called by names; one that has lost its name is
empty. -/
def Scope.Named (s : Scope) : Prop :=
  ∀ space ∈ s.namespaces, ∀ entry ∈ space.aliases, entry.1 = "" ∨ IsName entry.1

theorem Scope.around_named {t : Tree} {n : Node} (lexed : t.Lexed)
    (inside : n ∈ (Node.root t).descendants) :
    (Scope.around n).Named := by
  intro space visible entry own
  obtain ⟨a, outer, -, directive, listed, name, given, same⟩ := alias_written visible own
  obtain ⟨equals, first, -, second, -⟩ := Node.alias?_eq_some given
  have member := Node.mem_descendants_of_mem_children
    (Node.mem_descendants_of_mem_children
      (Node.mem_descendants_of_mem_children
        (Node.mem_descendants_of_mem_ancestors inside a outer) (List.mem_filter.mp listed).1) first)
    second
  rw [← same, Node.nameText]
  cases found : name.firstIdentifier? with
  | none => exact .inl rfl
  | some token =>
      obtain ⟨placed, kind⟩ := Node.firstIdentifier?_eq_some found
      exact .inr (Node.isWord_of_mem_tokens lexed member placed kind).plainName

/-! ### Keys -/

structure TypeKey.Named (k : TypeKey) : Prop where
  space : IsPath k.space
  name : IsName k.name

namespace Node

variable {t : Tree} {n : Node} {k : TypeKey}

theorem typeKey?_named (lexed : t.Lexed) (inside : n ∈ (root t).descendants)
    (key : n.typeKey? = some k) : k.Named := by
  rw [typeKey?_eq lexed inside] at key
  obtain ⟨i, known, rfl⟩ := Option.map_eq_some_iff.mp key
  exact ⟨⟨i.path, typeIdentity?_names lexed inside known, rfl⟩,
    nameAndArity?_name lexed inside (typeIdentity?_own known)⟩

end Node

/-! ### Answers -/

instance (w : String) : Decidable (IsName w) :=
  match split : w.toList with
  | [] => isFalse fun ⟨_, _, other, _⟩ => by rw [split] at other; cases other
  | c :: cs =>
    decidable_of_iff (Unicode.isIdentStart c = true ∧ cs.all Unicode.isIdentContinue = true)
      ⟨fun h => ⟨c, cs, split, h.1, List.all_eq_true.mp h.2⟩, fun ⟨_, _, other, h⟩ => by
        obtain ⟨rfl, rfl⟩ := List.cons.inj (split.symm.trans other)
        exact ⟨h.1, List.all_eq_true.mpr h.2⟩⟩

def Ty.Named (type : Ty) : Prop := type.BuiltFrom TypeKey.Named IsWord

namespace Table

variable {root : Tree}

theorem library_named : ∀ d ∈ Library.all, d.key.Named ∧ ∀ name ∈ d.typeParameters, IsName name := by
  have checked : ∀ d ∈ Library.all, (∀ w ∈ Dotted.segments d.key.space, IsName w) ∧
      Dotted.ofSegments (Dotted.segments d.key.space) = d.key.space ∧ IsName d.key.name ∧
      ∀ name ∈ d.typeParameters, IsName name := by
    decide +kernel
  intro d listed
  obtain ⟨each, whole, name, parameters⟩ := checked d listed
  exact ⟨⟨⟨_, each, whole.symm⟩, name⟩, parameters⟩

theorem entered_named (lexed : root.Lexed) {d : TypeDef}
    (entered : Entered (Node.root root).descendants d) :
    d.key.Named ∧ ∀ name ∈ d.typeParameters, IsWord name := by
  cases entered with
  | library listed =>
      exact ⟨(library_named d listed).1, fun name own => ((library_named d listed).2 name own).isWord⟩
  | declared n inside key typeParameters _ =>
      rw [typeParameters]
      exact ⟨Node.typeKey?_named lexed inside key, Node.typeParameterNames_words lexed inside⟩

theorem ofRoot_named (lexed : root.Lexed) {d : TypeDef} (known : d ∈ (ofRoot (.root root)).defs) :
    d.key.Named ∧ ∀ name ∈ d.typeParameters, IsWord name := by
  obtain ⟨old, entered, key, parameters, -⟩ := ofRoot_defs known
  rw [key, parameters]
  exact entered_named lexed (names_defs entered)

theorem ofRoot_closed_named (lexed : root.Lexed) :
    (ofRoot (.root root)).Closed TypeKey.Named IsWord :=
  ofRoot_closed
    (fun k has => by
      obtain ⟨d, known, rfl⟩ := has_iff.mp has
      exact (ofRoot_named lexed known).1)
    (fun n inside => Scope.typeParameters_words lexed inside)
    fun n inside m method => Scope.typeParameters_words lexed
      (Node.mem_descendants_of_mem_children inside (List.mem_filter.mp method).1)

end Table

def View.words (root : Tree) : View where
  good n := n ∈ (Node.root root).descendants
  sees _ name := IsWord name

theorem View.words_fits {root : Tree} (lexed : root.Lexed) :
    (View.words root).Fits (Table.ofRoot (.root root)) IsWord where
  stray _ _ _ word := word
  own _ good := Scope.typeParameters_words lexed good
  self _ _ _ _ _ found := (Table.ofRoot_named lexed (Table.find?_eq_some found).1).2
  outward _ _ good up := ⟨Node.mem_descendants_of_parent? good up, fun _ word => word⟩
  inward _ _ good child := Node.mem_descendants_of_mem_children good child
  inside _ _ _ _ _ _ word := word

namespace Table

variable {root : Tree}

theorem typeOf?_named (lexed : root.Lexed) {n : Node} (inside : n ∈ (Node.root root).descendants)
    {type : Ty} (found : (ofRoot (.root root)).typeOf? n = some type) : type.Named :=
  typeOf?_built (ofRoot_closed_named lexed) (View.words_fits lexed) inside found

theorem signatureOf?_named (lexed : root.Lexed) {type : Ty} (named : type.Named) {s : Signature}
    (called : (ofRoot (.root root)).signatureOf? type = some s) : ∀ u ∈ s.types, u.Named :=
  (ofRoot_closed_named lexed).signatureOf? (fun _ word => word) named called

theorem resolve_named (lexed : root.Lexed) {n : Node} (inside : n ∈ (Node.root root).descendants)
    {a : TypeSyntax} {type : Ty}
    (found : (ofRoot (.root root)).resolve (.around n) a = some type) : type.Named :=
  ((ofRoot_closed_named lexed).admits.resolve found).mono (fun _ key => key)
    (Scope.typeParameters_words lexed inside)

end Table

end SharpRefactor
