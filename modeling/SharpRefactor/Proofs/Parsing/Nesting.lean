import SharpRefactor.Proofs.Parsing.Nesting.Basic

/-!
What may stand directly in what. Namespaces and types are declared only in one another and in the
file, accessors stand only in their list, and that list only in a property or an event; so no part
of an expression declares anything. Everything else may stand anywhere here: the grammar says more
about it, but nothing more is needed to know what a change inside an expression leaves alone.
-/

namespace SharpRefactor
namespace Parse

/-- Whether a program only adds to its level, part for part. -/
def Adds (read : Construct → ParseState → ParseState) (p : Kind → Bool) :
    {α : Type} → Parse α → Prop
  | _, andThen q f => q.Adds read p ∧ ∀ a, (f a).Adds read p
  | _, group q => (group q).Fills read p p
  | _, wrap k q => (wrap k q).Fills read p p
  | _, inner c => (inner c).Fills read p p
  | _, _ => True

section Adding

variable {read : Construct → ParseState → ParseState} {p : Kind → Bool} {α β : Type}

theorem fills_of_adds {q : Parse α} (adds : q.Adds read p) : q.Fills read p p := by
  induction q with
  | done a => exact .pure a
  | andThen q f ihq ihf => exact .bind (ihq adds.1) fun a => ihf a (adds.2 a)
  | current => exact .current
  | nth? n => exact .nth? n
  | ahead question => exact .ahead question
  | bump => exact .bump
  | skip f => exact .skip f
  | fail e => exact .fail e
  | group | wrap | inner => exact adds

@[simp] theorem adds_bind {q : Parse α} {f : α → Parse β} :
    (q >>= f).Adds read p ↔ q.Adds read p ∧ ∀ a, (f a).Adds read p := Iff.rfl

@[simp] theorem adds_ite {c : Prop} [Decidable c] {q r : Parse α} :
    (if c then q else r).Adds read p ↔ if c then q.Adds read p else r.Adds read p := by
  split <;> rfl

@[simp] theorem adds_pure (a : α) : (pure a : Parse α).Adds read p := trivial

@[simp] theorem adds_current : current.Adds read p := trivial

@[simp] theorem adds_bump : bump.Adds read p := trivial

@[simp] theorem adds_skip (f : Kind → Bool) : (skip f).Adds read p := trivial

@[simp] theorem adds_missing (what : Expected) : (missing what).Adds read p := trivial

@[simp] theorem adds_modifiers : modifiers.Adds read p := trivial

@[simp] theorem adds_atKind (k : Kind) : (atKind k).Adds read p := by simp [atKind]

@[simp] theorem adds_atIdentifier : atIdentifier.Adds read p := adds_atKind _

@[simp] theorem adds_secondIs (k : Kind) : (secondIs k).Adds read p :=
  ⟨trivial, fun _ => trivial⟩

@[simp] theorem adds_expect (k : Kind) (what : Expected) : (expect k what).Adds read p := by
  simp [expect]

@[simp] theorem adds_require (k : Kind) (what : Expected) : (require k what).Adds read p := by
  simp [require]

@[simp] theorem adds_node {k : Kind} {q : Parse α} :
    (node k q).Adds read p ↔ (node k q).Fills read p p := Iff.rfl

@[simp] theorem adds_group {q : Parse α} :
    (group q).Adds read p ↔ (group q).Fills read p p := Iff.rfl

@[simp] theorem adds_inner {c : Construct} :
    (inner c).Adds read p ↔ (inner c).Fills read p p := Iff.rfl

@[simp] theorem adds_skipMember : skipMember.Adds read p := by simp [skipMember, skipTo]

/-- A node that is made of what is added to parts that may stand anywhere. -/
theorem fills_wrap {k : Kind} {q : Parse α} (adds : q.Adds read k.admits) (own : p k) :
    (wrap k q).Fills read Kind.isFree p :=
  .wrap ((fills_of_adds adds).mono (fun _ => Kind.admits_of_isFree) fun _ own => own) own

end Adding

section Outline

variable {read : Construct → ParseState → ParseState} {p : Kind → Bool} (reads : Nests read)

include reads

theorem adds_accessor : accessor.Adds read Kind.accessorList.admits := by
  simp [accessor, fills_node reads, makes_body, Kind.admits, Kind.isFree, Kind.isOutline,
    Construct.isFree]

theorem adds_accessors : accessors.Adds read Kind.accessorList.admits := by
  have rest : (inner .accessors).Fills read Kind.accessorList.admits Kind.accessorList.admits :=
    reads .accessors
  simp [accessors, adds_accessor reads, rest]

theorem fills_accessorList (own : p .accessorList) : accessorList.Fills read p p := by
  have inside : (inner .accessors).Fills read Kind.accessorList.admits Kind.accessorList.admits :=
    reads .accessors
  exact .group (fills_wrap (by simp [inside]) own)

theorem fills_property : property.Fills read Kind.isFree Kind.isFree := by
  refine fills_wrap ?_ rfl
  have list : accessorList.Adds read Kind.propertyDeclaration.admits := fills_accessorList reads rfl
  have arrow : arrowClause.Adds read Kind.propertyDeclaration.admits :=
    fills_node reads rfl (by simp [Construct.isFree])
  have value : equalsValue.Adds read Kind.propertyDeclaration.admits :=
    fills_node reads rfl (by simp [Construct.isFree])
  simp [list, arrow, value]

theorem fills_event : event.Fills read Kind.isFree Kind.isFree := by
  have list : accessorList.Adds read Kind.eventDeclaration.admits := fills_accessorList reads rfl
  have specifier : interfaceSpecifier.Adds read Kind.eventDeclaration.admits :=
    fills_node reads rfl (by simp [Kind.isFree, Kind.isOutline])
  have head := isFree_iff.mpr (makes_eventHead rfl ⟨rfl, rfl⟩)
  refine .bind .bump fun _ => .bind (fills_of_isFree reads head) fun accessors => ?_
  split
  · exact fills_wrap (by simp [list, specifier]) rfl
  · exact fills_of_isFree reads (by simp [Kind.isFree, Kind.isOutline])

theorem fills_typedMember : typedMember.Fills read Kind.isFree Kind.isFree := by
  refine .bind (fills_of_isFree reads (isFree_iff.mpr (makes_typedHead rfl ⟨rfl, rfl⟩))) fun found => ?_
  cases found with
  | property => exact fills_property reads
  | nameless | field => exact fills_of_isFree reads (by simp [Kind.isFree, Kind.isOutline])
  | method => exact fills_of_isFree reads (isFree_iff.mpr
      (makes_method rfl rfl ⟨rfl, rfl⟩ ⟨rfl, rfl⟩ ⟨rfl, rfl⟩))

theorem fills_typeWithMembers {k : Kind} (outline : k.isOutline) :
    (typeWithMembers k).Fills read Kind.isFree Kind.compilationUnit.admits := by
  have members : (inner .members).Adds read k.admits := by
    have own := reads .members
    rwa [Construct.finds, Construct.leaves, ← Kind.admits_of_isOutline outline] at own
  have list : (node .typeParameterList do
      bump
      inner .typeParameters
      require .greater .rightAngle).Adds read k.admits :=
    fills_node reads (Kind.admits_of_isFree rfl) (by simp [Construct.isFree])
  have bases : (node .baseList do
      bump
      inner .baseTypes).Adds read k.admits :=
    fills_node reads (Kind.admits_of_isFree rfl) (by simp [Construct.isFree])
  refine fills_wrap ?_ ?_
  · simp [typeParameterList?, list, bases, members]
  · cases k <;> first | rfl | cases outline

theorem fills_typeDeclarationOf {k : Kind} {q : Parse Unit} (found : typeDeclarationOf? k = some q) :
    q.Fills read Kind.isFree Kind.compilationUnit.admits := by
  unfold typeDeclarationOf? at found
  split at found <;> cases found
  · exact fills_typeWithMembers reads rfl
  · exact fills_typeWithMembers reads rfl
  · exact fills_typeWithMembers reads rfl
  · refine .wrap (fills_admits_of_isFree reads ?_) rfl
    simp [Kind.isFree, Kind.isOutline, Construct.isFree]

theorem fills_member : member.Fills read Kind.compilationUnit.admits Kind.compilationUnit.admits := by
  have wider : ∀ {q : Parse Unit}, q.Fills read Kind.isFree Kind.isFree →
      q.Fills read Kind.isFree Kind.compilationUnit.admits :=
    fun fills => fills.mono (fun _ own => own) fun _ => Kind.admits_of_isFree
  refine .group (.bind (.skip _) fun _ => .bind .current fun k => ?_)
  split
  · next declaration found => exact fills_typeDeclarationOf reads found
  · refine wider ?_
    split
    · exact fills_event reads
    refine .bind (fills_of_adds (adds_secondIs _)) fun called => ?_
    split
    · exact fills_of_isFree reads (isFree_iff.mpr
        (makes_constructor rfl rfl ⟨rfl, rfl⟩ ⟨rfl, rfl⟩))
    refine .bind (fills_of_isFree reads (by simp)) fun typed => ?_
    split
    · exact fills_typedMember reads
    · exact fills_of_isFree reads (by simp [malformedMember, Kind.isFree, Kind.isOutline])

theorem adds_members : members.Adds read Kind.compilationUnit.admits := by
  have rest : (inner .members).Adds read Kind.compilationUnit.admits := reads .members
  have own : member.Adds read Kind.compilationUnit.admits := fills_member reads
  simp [members, own, rest]

theorem fills_typeDeclaration :
    typeDeclaration.Fills read Kind.compilationUnit.admits Kind.compilationUnit.admits := by
  refine .group (.bind (.skip _) fun _ => .bind .current fun k => ?_)
  split
  · next declaration found => exact fills_typeDeclarationOf reads found
  · exact fills_wrap (by simp) rfl

theorem fills_namespaceDeclaration :
    namespaceDeclaration.Fills read Kind.compilationUnit.admits Kind.compilationUnit.admits := by
  have body (braced : Bool) : (inner (.namespaceBody braced)).Fills read Kind.isFree
      Kind.namespaceDeclaration.admits := by
    rw [Kind.admits_of_isOutline rfl]
    exact reads (.namespaceBody braced)
  have rest : (do
      if ← atKind .semicolon then
        bump
        inner (.namespaceBody false)
      else if ← expect .lBrace .namespaceBody then
        inner (.namespaceBody true)
        require .rBrace .endOfNamespace : Parse Unit).Fills read Kind.isFree
      Kind.namespaceDeclaration.admits := by
    refine .bind (fills_of_adds (adds_atKind _)) fun ended => ?_
    split
    · exact .bind .bump fun _ => body false
    refine .bind (fills_of_adds (adds_expect _ _)) fun opened => ?_
    split
    · exact .bind (body true) fun _ => fills_of_adds (adds_require _ _)
    · exact fills_admits_of_isFree reads (by simp)
  refine .node (.bind (fills_of_adds (adds_require _ _)) fun _ =>
    .bind (fills_of_adds adds_atIdentifier) fun named => ?_) rfl
  dsimp only
  split
  · exact .bind (reads .type) fun _ => rest
  · exact .bind (fills_of_adds (adds_missing _)) fun _ => rest

theorem adds_namespaceMembers (braced : Bool) :
    (namespaceMembers braced).Adds read Kind.compilationUnit.admits := by
  have rest : (inner (.namespaceMembers braced)).Adds read Kind.compilationUnit.admits :=
    reads (.namespaceMembers braced)
  have own : namespaceMember.Adds read Kind.compilationUnit.admits := by
    have declaration : namespaceDeclaration.Adds read Kind.compilationUnit.admits :=
      fills_namespaceDeclaration reads
    have type : typeDeclaration.Adds read Kind.compilationUnit.admits := fills_typeDeclaration reads
    have malformed : malformedTopLevel.Adds read Kind.compilationUnit.admits :=
      fills_node reads rfl (by simp [skipTo])
    simp [namespaceMember, atTypeDeclaration, declaration, type, malformed]
  simp [namespaceMembers, own, rest]

theorem fills_rule (c : Construct) : c.rule.Fills read c.finds c.leaves := by
  cases c with
  | namespaceBody braced =>
      refine .bind (reads .usings) fun _ => ?_
      exact (reads (.namespaceMembers braced)).mono (fun _ => Kind.admits_of_isFree) fun _ own => own
  | namespaceMembers braced => exact fills_of_adds (adds_namespaceMembers reads braced)
  | members => exact fills_of_adds (adds_members reads)
  | accessors => exact fills_of_adds (adds_accessors reads)
  | _ => exact fills_of_isFree reads (Construct.rule_isFree rfl)

end Outline

end Parse

namespace Construct

/-- Every construct, read to whatever depth, leaves on its level what it is to leave there. -/
theorem read_nests (depth : Nat) : Parse.Nests (read depth) := by
  induction depth with
  | zero =>
      intro c s level
      refine Level.mono (fun k own => ?_) level
      cases c <;> first | exact own | exact Kind.admits_of_isFree own
  | succ depth ih => exact fun c => Parse.fills_rule ih c

end Construct

/-- In the tree of a text every node admits its children. -/
theorem parse_nested (text : String) : (parse text).root.Nested := by
  have level := Construct.read_nests (nestingBound ((lex text).map Lexeme.token))
    (.namespaceBody false) (ParseState.start ((lex text).map Lexeme.token)).trivia
    (Level.takeWhile .nil _)
  exact Level.node (Level.takeWhile level _).reverse

theorem Parse.isFree_typeName : Parse.typeName.IsFree := by
  simp [Parse.typeName, Construct.isFree]

/-- So it is in a type that is read by itself, which declares nothing. -/
theorem parseTypeName_nested {text : String} {tree : Tree} (read : parseTypeName text = .ok tree) :
    tree.Nested ∧ tree.kind.isFree := by
  let ts := (lex (trimmed text)).map Lexeme.token
  have level := Parse.fills_of_isFree (Construct.read_nests (nestingBound ts)) Parse.isFree_typeName
    (ParseState.start ts) Level.nil
  simp only [parseTypeName] at read
  split at read
  · cases read
  split at read
  · cases read
  · cases read
  · next only =>
      cases read
      rw [only] at level
      exact (level _ List.mem_cons_self).imp_right fun own => own rfl
  · cases read

end SharpRefactor
