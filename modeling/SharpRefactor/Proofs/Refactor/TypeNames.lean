import SharpRefactor.Refactor.RuleSet
import SharpRefactor.Syntax.Parse

/-!
What the targets of offers denote. The built-in rule is offered at a name that is read as a value,
and never where the name means a namespace or a function. The look-up of a name goes on to types
when nothing local and no member is found, so a delegate type that is named where a value is read
passes the conditions of the rule too; apart from such names a target is a value or a method group.
-/

namespace SharpRefactor

def Denotation.isRead : Denotation → Bool
  | .value _ | .methods _ => true
  | .type _ | .space _ | .function => false

namespace Table

def inner (t : Table) : Judge := t.judge (maxDepth - 1)

/-- Whether a simple name means a type: no local, no parameter and no member of a type around it has
that name. -/
def SimplyNamesType (t : Table) (n : Node) (type : Ty) : Prop :=
  ∃ name, n.typeSyntax = .simple name ∧
    t.localOf? t.inner n name = none ∧
    (∀ k ∈ (Scope.around n).types, ∀ d, t.find? k = some d →
      t.memberOf d.selfType name [] none = none) ∧
    t.lookup (.around n) name [] = some type

/-- Whether a member access means a type: one declared in the type or the namespace before the
dot. -/
def AccessNamesType (t : Table) (n : Node) (type : Ty) : Prop :=
  ∃ receiver member name args, n.firstChild? = some receiver ∧ n.secondChild? = some member ∧
    t.simpleName? member = some (name, args) ∧
    ((∃ outer path, t.inner.denotes receiver = some (.type outer) ∧
        outer.fullName? = some path ∧ t.instance? path name args = some type) ∨
      (∃ space, t.inner.denotes receiver = some (.space space) ∧
        t.instance? space name args = some type))

def NamesType (t : Table) (n : Node) (type : Ty) : Prop :=
  (n.kind = .identifierName ∧ t.SimplyNamesType n type) ∨
    (n.kind = .memberAccessExpression ∧ t.AccessNamesType n type)

theorem denotes_eq (t : Table) (n : Node) : t.denotes n = t.denotesWith t.inner n := rfl

theorem memberOf_ne_type (t : Table) (receiver : Ty) (name : String) (args : List Ty)
    (static : Option Bool) (type : Ty) :
    t.memberOf receiver name args static ≠ some (.type type) := by
  unfold memberOf
  split
  · simp
  · split <;> simp

theorem memberOf_ne_function (t : Table) (receiver : Ty) (name : String) (args : List Ty)
    (static : Option Bool) : t.memberOf receiver name args static ≠ some .function := by
  unfold memberOf
  split
  · simp
  · split <;> simp

theorem globalOf?_ne_function (t : Table) (s : Scope) (name : String) (args : List Ty) :
    t.globalOf? s name args ≠ some .function := by
  have members : s.types.findSome? (fun k => (t.find? k).bind fun d =>
      t.memberOf d.selfType name args none) ≠ some .function := by
    intro found
    obtain ⟨k, -, h⟩ := List.exists_of_findSome?_eq_some found
    obtain ⟨d, -, h⟩ := Option.bind_eq_some_iff.mp h
    exact memberOf_ne_function t _ _ _ _ h
  rw [globalOf?]
  generalize s.types.findSome? (fun k => (t.find? k).bind fun d =>
    t.memberOf d.selfType name args none) = around at members ⊢
  cases around with
  | some d => simpa using members
  | none => cases t.lookup s name args <;> simp

/-- What is not local means a type exactly if no member hides it. -/
theorem globalOf?_eq_type {t : Table} {s : Scope} {name : String} {type : Ty} :
    t.globalOf? s name [] = some (.type type) ↔
      (∀ k ∈ s.types, ∀ d, t.find? k = some d → t.memberOf d.selfType name [] none = none) ∧
        t.lookup s name [] = some type := by
  have members : ∀ ks : List TypeKey,
      ks.findSome? (fun k => (t.find? k).bind fun d => t.memberOf d.selfType name [] none) = none ↔
        ∀ k ∈ ks, ∀ d, t.find? k = some d → t.memberOf d.selfType name [] none = none := by
    intro ks
    simp [List.findSome?_eq_none_iff, Option.bind_eq_none_iff]
  have hidden : ∀ d, s.types.findSome? (fun k => (t.find? k).bind fun d =>
      t.memberOf d.selfType name [] none) = some d → d ≠ .type type := by
    rintro d found rfl
    obtain ⟨k, -, h⟩ := List.exists_of_findSome?_eq_some found
    obtain ⟨def_, -, h⟩ := Option.bind_eq_some_iff.mp h
    exact memberOf_ne_type t _ _ _ _ _ h
  rw [← members, globalOf?]
  generalize s.types.findSome? (fun k => (t.find? k).bind fun d =>
    t.memberOf d.selfType name [] none) = around at hidden ⊢
  cases around with
  | some d => simpa using hidden d rfl
  | none => cases t.lookup s name [] <;> simp

theorem denotes_simple_eq_type {t : Table} {n : Node} {type : Ty} (kind : n.kind = .identifierName)
    (read : n.isTypeSyntax = false) :
    t.denotes n = some (.type type) ↔ t.SimplyNamesType n type := by
  have simple : t.denotes n = t.denotesName t.inner n := by
    simp [denotes_eq, denotesWith, kind, read]
  have spelt : (∃ ts, n.typeSyntax = .simple (Forest.nameText ts)) ∨ n.typeSyntax = .missing := by
    obtain ⟨⟨tree, start, index⟩, above⟩ := n
    cases tree with
    | leaf token => exact .inr rfl
    | node k ts => exact .inl ⟨ts, by cases kind; rfl⟩
  rw [simple]
  rcases spelt with ⟨ts, spelt⟩ | spelt
  · simp only [denotesName, simpleName?, SimplyNamesType, spelt, Option.bind_eq_bind,
      Option.bind_some, List.isEmpty_nil, if_true, TypeSyntax.simple.injEq, exists_eq_left']
    cases t.localOf? t.inner n (Forest.nameText ts) with
    | some type => simp
    | none => simpa using globalOf?_eq_type
  · simp [denotesName, simpleName?, SimplyNamesType, spelt]

theorem denotes_access_eq_type {t : Table} {n : Node} {type : Ty}
    (kind : n.kind = .memberAccessExpression) :
    t.denotes n = some (.type type) ↔ t.AccessNamesType n type := by
  have access : t.denotes n = t.denotesAccess t.inner n := by
    simp [denotes_eq, denotesWith, kind]
  rw [access]
  constructor
  · intro h
    simp only [denotesAccess, Option.bind_eq_bind, Option.bind_eq_some_iff] at h
    obtain ⟨receiver, first, member, second, ⟨name, args⟩, named, d, denoted, h⟩ := h
    refine ⟨receiver, member, name, args, first, second, named, ?_⟩
    cases d with
    | value outer => exact absurd h (memberOf_ne_type t _ _ _ _ _)
    | type outer =>
        cases nested : outer.fullName?.bind fun path => t.instance? path name args with
        | none =>
            simp only [nested, Option.map_none] at h
            exact absurd h (memberOf_ne_type t _ _ _ _ _)
        | some found =>
            obtain ⟨path, full, instantiated⟩ := Option.bind_eq_some_iff.mp nested
            simp [nested] at h
            exact .inl ⟨outer, path, denoted, full, h ▸ instantiated⟩
    | space space =>
        cases nested : t.instance? space name args with
        | none =>
            simp only [nested, Option.map_none] at h
            cases Option.ite_none_right_eq_some.mp h with
            | intro _ space => cases space
        | some found =>
            simp [nested] at h
            exact .inr ⟨space, denoted, h ▸ nested⟩
    | methods g => simp at h
    | function => simp at h
  · rintro ⟨receiver, member, name, args, first, second, named, h⟩
    rcases h with ⟨outer, path, denoted, full, found⟩ | ⟨space, denoted, found⟩
    · simp [denotesAccess, first, second, named, denoted, full, found]
    · simp [denotesAccess, first, second, named, denoted, found]

/-- A name that is read as a value, or a member access, means a type exactly if it names one. -/
theorem denotes_eq_type {t : Table} {n : Node} {type : Ty}
    (kind : n.kind = .identifierName ∧ n.isTypeSyntax = false ∨ n.kind = .memberAccessExpression) :
    t.denotes n = some (.type type) ↔ t.NamesType n type := by
  rcases kind with ⟨kind, read⟩ | kind
  · simp [NamesType, kind, denotes_simple_eq_type kind read]
  · simp [NamesType, kind, denotes_access_eq_type kind]

/-- Neither a name nor a member access is a function. -/
theorem denotes_ne_function {t : Table} {n : Node}
    (kind : n.kind = .identifierName ∨ n.kind = .memberAccessExpression) :
    t.denotes n ≠ some .function := by
  intro h
  rcases kind with kind | kind
  · rw [denotes_eq, denotesWith, kind] at h
    simp only at h
    split at h
    · simp at h
    · simp only [denotesName, Option.bind_eq_bind, Option.bind_eq_some_iff] at h
      obtain ⟨⟨name, args⟩, -, h⟩ := h
      split at h
      · cases h
      · exact globalOf?_ne_function t _ _ _ h
  · rw [denotes_eq, denotesWith, kind] at h
    simp only [denotesAccess, Option.bind_eq_bind, Option.bind_eq_some_iff] at h
    obtain ⟨receiver, -, member, -, ⟨name, args⟩, -, d, -, h⟩ := h
    cases d with
    | value outer => exact memberOf_ne_function t _ _ _ _ h
    | type outer =>
        cases nested : outer.fullName?.bind fun path => t.instance? path name args with
        | none =>
            simp only [nested, Option.map_none] at h
            exact memberOf_ne_function t _ _ _ _ h
        | some found => simp [nested] at h
    | space space =>
        cases nested : t.instance? space name args with
        | none =>
            simp only [nested, Option.map_none] at h
            cases Option.ite_none_right_eq_some.mp h with
            | intro _ space => cases space
        | some found => simp [nested] at h
    | methods g => simp at h
    | function => simp at h

end Table

namespace RuleSet

/-- The first offer of the built-in rules is what their only rule finds. -/
theorem first?_builtin_eq_some {tree : SyntaxTree} {selection : TextRange} {c : Context}
    {o : Offer} :
    (builtin.first? tree selection c).result = some o ↔
      ∃ h type signature, nodeAt? tree selection c = some h ∧
        MethodGroup.isCandidate c h.node selection ∧
        c.resolver.typeOf (MethodGroup.wholeExpression h) = some type ∧
        c.resolver.signatureOf type = some signature ∧
        o = ⟨MethodGroup.rule, MethodGroup.rule.title, MethodGroup.wholeExpression h, signature⟩ := by
  cases found : nodeAt? tree selection c with
  | none => simp [first?, found]
  | some h =>
      have running : c.cancelled = false := by
        cases cancelled : c.cancelled with
        | false => rfl
        | true => simp [nodeAt?, cancelled] at found
      have only : (builtin.first? tree selection c).result =
          (MethodGroup.probe c h selection).result.map
            (⟨MethodGroup.rule, MethodGroup.rule.title, ·⟩) := by
        have asks : MethodGroup.rule.probe = MethodGroup.probe := rfl
        simp only [first?, found, builtin, builtinRules, firstOffer, probe, Asking.result_bind,
          Asking.result_pure, asks]
        cases (MethodGroup.probe c h selection).result <;> rfl
      have examined (target : Handle) : (MethodGroup.examine c.resolver target).result =
          (c.resolver.typeOf target).bind fun type =>
            (c.resolver.signatureOf type).map (⟨target, ·⟩) := by
        rw [MethodGroup.examine, Asking.result_bind]
        simp only [Resolver.askType]
        cases c.resolver.typeOf target <;> rfl
      rw [only, MethodGroup.probe]
      by_cases candidate : MethodGroup.isCandidate c h.node selection
      · rw [if_pos (by simp [candidate, running]), examined]
        cases typed : c.resolver.typeOf (MethodGroup.wholeExpression h) with
        | none => simp [typed]
        | some type =>
            cases called : c.resolver.signatureOf type with
            | none => simp [typed, called]
            | some signature =>
                simp only [called, Option.bind_some, Option.map_some, Option.some.injEq]
                constructor
                · rintro rfl
                  exact ⟨h, type, signature, rfl, candidate, typed, called, rfl⟩
                · rintro ⟨_, type', signature', rfl, -, typed', called', rfl⟩
                  cases typed.symm.trans typed'
                  cases called.symm.trans called'
                  rfl
      · simp [candidate]

end RuleSet

namespace MethodGroup

/-- The target of a candidate is the name itself or the member access that it ends. -/
theorem wholeExpression_kind {c : Context} {h : Handle} {selection : TextRange}
    (candidate : isCandidate c h.node selection) :
    ((wholeExpression h).node.kind = .identifierName ∧
        (wholeExpression h).node.isTypeSyntax = false ∧
        (wholeExpression h).node.memberAccess? = none) ∨
      (wholeExpression h).node.kind = .memberAccessExpression := by
  simp only [isCandidate, isValueRead, Bool.and_eq_true, beq_iff_eq, Bool.not_eq_true'] at candidate
  obtain ⟨-, ⟨⟨kind, -⟩, read⟩, -⟩ := candidate
  cases access : h.node.memberAccess? with
  | none =>
      have whole : (wholeExpression h).node = h.node := by simp [wholeExpression, access]
      exact .inl (by rw [whole]; exact ⟨kind, read, access⟩)
  | some outer =>
      have whole : (wholeExpression h).node = outer := by simp [wholeExpression, access]
      obtain ⟨-, kind⟩ := Option.filter_eq_some_iff.mp access
      rw [Bool.and_eq_true, beq_iff_eq] at kind
      exact .inr (by rw [whole]; exact kind.1)

end MethodGroup

/-- The type of a target is that of what it denotes itself. -/
theorem memberAccessOfName?_wholeExpression {c : Context} {h : Handle} {selection : TextRange}
    (candidate : MethodGroup.isCandidate c h.node selection) :
    (MethodGroup.wholeExpression h).node.memberAccessOfName?.getD
      (MethodGroup.wholeExpression h).node = (MethodGroup.wholeExpression h).node := by
  rcases MethodGroup.wholeExpression_kind candidate with ⟨kind, -, alone⟩ | kind
  · simp [Node.memberAccessOfName?, kind, alone]
  · simp [Node.memberAccessOfName?, kind]

/-- The target of an offer is the whole expression at a candidate, and it is read or names a
delegate type. -/
theorem reads_or_names_of_first? {tree : SyntaxTree} {selection : TextRange} {c : Context}
    (asks : c.resolver = Resolver.ofTree tree) {o : Offer}
    (offered : (RuleSet.builtin.first? tree selection c).result = some o) :
    ∃ h, RuleSet.nodeAt? tree selection c = some h ∧
      MethodGroup.isCandidate c h.node selection ∧
      o.found.target = MethodGroup.wholeExpression h ∧
      (((Table.ofRoot tree.rootNode).denotes o.found.target.node).any Denotation.isRead ∨
        ∃ type, (Table.ofRoot tree.rootNode).NamesType o.found.target.node type ∧
          (Table.ofRoot tree.rootNode).signatureOf? type = some o.found.signature) := by
  obtain ⟨h, type, signature, found, candidate, typed, called, rfl⟩ :=
    RuleSet.first?_builtin_eq_some.mp offered
  refine ⟨h, found, candidate, rfl, ?_⟩
  have kind : (MethodGroup.wholeExpression h).node.kind = .identifierName ∨
      (MethodGroup.wholeExpression h).node.kind = .memberAccessExpression :=
    (MethodGroup.wholeExpression_kind candidate).imp_left And.left
  simp only [asks, Resolver.ofTree] at typed called
  have typed := (Option.ite_none_right_eq_some.mp typed).2
  simp only [Table.typeOf?, memberAccessOfName?_wholeExpression candidate] at typed
  cases denoted : (Table.ofRoot tree.rootNode).denotes (MethodGroup.wholeExpression h).node with
  | none => simp [denoted] at typed
  | some d =>
      cases d with
      | value own => exact .inl rfl
      | methods g => exact .inl rfl
      | type own =>
          have own_eq : own = type := by simpa [denoted] using typed
          subst own_eq
          have names := (Table.denotes_eq_type ((MethodGroup.wholeExpression_kind candidate).imp_left
            fun ⟨kind, read, _⟩ => ⟨kind, read⟩)).mp denoted
          exact .inr ⟨own, names, called⟩
      | space name => simp [denoted] at typed
      | function => exact absurd denoted (Table.denotes_ne_function kind)

/-- A candidate that names a delegate type is offered. -/
theorem first?_of_names {tree : SyntaxTree} {selection : TextRange} {c : Context}
    (asks : c.resolver = Resolver.ofTree tree) {h : Handle} {type : Ty} {signature : Signature}
    (found : RuleSet.nodeAt? tree selection c = some h)
    (candidate : MethodGroup.isCandidate c h.node selection)
    (names : (Table.ofRoot tree.rootNode).NamesType (MethodGroup.wholeExpression h).node type)
    (called : (Table.ofRoot tree.rootNode).signatureOf? type = some signature) :
    (RuleSet.builtin.first? tree selection c).result =
      some ⟨MethodGroup.rule, MethodGroup.rule.title, MethodGroup.wholeExpression h, signature⟩ := by
  have home : h.home = tree := by
    simp only [RuleSet.nodeAt?] at found
    split at found
    · cases found
    · obtain ⟨n, -, rfl⟩ := Option.map_eq_some_iff.mp found
      rfl
  have denoted := (Table.denotes_eq_type ((MethodGroup.wholeExpression_kind candidate).imp_left
    fun ⟨kind, read, _⟩ => ⟨kind, read⟩)).mpr names
  refine RuleSet.first?_builtin_eq_some.mpr ⟨h, type, signature, found, candidate, ?_, ?_, rfl⟩
  · have own : tree.contains (MethodGroup.wholeExpression h) := by
      simp [SyntaxTree.contains, MethodGroup.wholeExpression, home]
    simp only [asks, Resolver.ofTree, own, if_true, Table.typeOf?,
      memberAccessOfName?_wholeExpression candidate, denoted]
  · simpa only [asks, Resolver.ofTree] using called

/-- Every target of an offer is read, a value or a method group, unless the name at the caret is
that of a delegate type in a place where a value is read: there the rule is offered on the name of
the type. A namespace or a function is never a target. -/
theorem first?_builtin_reads_iff (tree : SyntaxTree) (selection : TextRange) (c : Context) :
    let t := Table.ofRoot tree.rootNode
    let c' := { c with resolver := Resolver.ofTree tree }
    (∀ o, (RuleSet.builtin.first? tree selection c').result = some o →
        (t.denotes o.found.target.node).any Denotation.isRead) ↔
      ¬ ∃ h type, RuleSet.nodeAt? tree selection c' = some h ∧
        MethodGroup.isCandidate c' h.node selection ∧
        t.NamesType (MethodGroup.wholeExpression h).node type ∧ (t.signatureOf? type).isSome := by
  intro t c'
  have asks : c'.resolver = Resolver.ofTree tree := rfl
  constructor
  · rintro reads ⟨h, type, found, candidate, names, called⟩
    obtain ⟨signature, called⟩ := Option.isSome_iff_exists.mp called
    have read := reads _ (first?_of_names asks found candidate names called)
    have denoted := (Table.denotes_eq_type ((MethodGroup.wholeExpression_kind candidate).imp_left
      fun ⟨kind, read, _⟩ => ⟨kind, read⟩)).mpr names
    simp only [t, denoted] at read
    cases read
  · intro clear o offered
    obtain ⟨h, found, candidate, target, read | ⟨type, names, called⟩⟩ :=
      reads_or_names_of_first? asks offered
    · exact read
    · exact absurd ⟨h, type, found, candidate, target ▸ names, by simp [t, called]⟩ clear

/-- The rule is offered on the name of a delegate type that is an argument of a call. -/
theorem first?_builtin_type_name :
    let text := "class C\x7bdelegate void D();void M()\x7bG(D);\x7d\x7d"
    let tree : SyntaxTree := ⟨(parse text).root, .parsed 0 (parse text).root⟩
    let c : Context := ⟨Resolver.ofTree tree, false, .project, false⟩
    (parse text).ok = true ∧
      (RuleSet.builtin.first? tree (.empty 37) c).result.map (fun o =>
        ((Table.ofRoot tree.rootNode).denotes o.found.target.node).any Denotation.isRead) =
        some false := by
  decide +kernel

end SharpRefactor
