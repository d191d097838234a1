import Mathlib.Data.List.Forall2
import SharpRefactor.Proofs.Types.Members
import SharpRefactor.Proofs.Types.Substitution
import SharpRefactor.Types.Resolver

/-!
Method groups where a delegate is asked for. A group has the type that its surroundings ask for, if
that is a delegate and one of the methods takes the same types and returns a type that fits, for
some choice of the method's own type parameters. What is put in for these is given by type arguments
or learnt from the delegate, and a type parameter that nothing was learnt about stands for itself. A
method without any that fits as it is is always found.
-/

namespace SharpRefactor

/-! ### Bindings -/

namespace Bindings

/-- Bindings that say what some names stand for, and agree with others on all names besides. -/
structure Extends (b base : Bindings) (own : List String) : Prop where
  base : ∀ name, name ∉ own → b.lookup name = base.lookup name
  own : ∀ name ∈ own, ∃ type, b.lookup name = some type

def identity (names : List String) : Bindings := names.map fun name => (name, .parameter name)

theorem lookup_identity (names : List String) (name : String) :
    (identity names).lookup name = if name ∈ names then some (.parameter name) else none :=
  lookup_graph _ names name

theorem lookup_eq_none {b : Bindings} {names : List String} {name : String}
    (known : ∀ p ∈ b, p.1 ∈ names) (other : name ∉ names) : b.lookup name = none := by
  rw [List.lookup_eq_none_iff]
  intro p member
  rw [bne_iff_ne]
  rintro rfl
  exact other (known p member)

/-- Names that nothing was put in for stand for themselves. -/
theorem extends_append {new base : Bindings} {own : List String} (known : ∀ p ∈ new, p.1 ∈ own) :
    Extends (new ++ base ++ identity own) base own where
  base name other := by
    rw [List.lookup_append, List.lookup_append, lookup_eq_none known other, lookup_identity,
      if_neg other]
    simp
  own name member := by
    rw [List.lookup_append, lookup_identity, if_pos member]
    cases (new ++ base).lookup name <;> simp

theorem substitute_append_identity (b : Bindings) (own : List String) (t : Ty) :
    t.substitute (b ++ identity own) = t.substitute b := by
  refine Ty.substitute_eq_substitute_iff.mpr fun name _ => ?_
  rw [Ty.substitute_parameter, Ty.substitute_parameter, List.lookup_append, lookup_identity]
  cases b.lookup name with
  | some type => rfl
  | none => by_cases member : name ∈ own <;> simp [member]

end Bindings

namespace Table

variable {t : Table} {c : Candidate} {s : Signature}

/-! ### One method -/

/-- Values of a type are references: it is an array, or what its definition declares is no
structure. -/
def Reference (t : Table) (type : Ty) : Prop :=
  (∃ element, type = .array element) ∨
    ∃ k d, TypeKey.of? type = some k ∧ t.find? k = some d ∧ d.form ≠ .structForm

theorem isReference_iff {type : Ty} : t.isReference type ↔ t.Reference type := by
  cases type with
  | named space name args =>
      simp only [isReference, Reference, TypeKey.of?, Option.bind_some]
      cases found : t.find? ⟨space, name, args.length⟩ <;> simp [found]
  | _ => simp [isReference, Reference, TypeKey.of?]

/-- A method stands for a delegate with a signature, under bindings of type parameters. -/
structure Candidate.Fits (t : Table) (c : Candidate) (s : Signature) (b : Bindings) : Prop where
  parameters : List.Forall₂ (fun p q => p.type.substitute b = q.type) c.method.parameters s.parameters
  returns : c.method.returns.substitute b = s.returns ∨
    s.returns = .object ∧ t.Reference (c.method.returns.substitute b)

theorem returnFits_iff {method delegate : Ty} : t.returnFits method delegate ↔
    method = delegate ∨ delegate = .object ∧ t.Reference method := by
  rw [← isReference_iff]
  cases method <;> simp [returnFits, isReference, Ty.isVoid]

theorem Candidate.Fits.congr {b b' : Bindings} (fits : c.Fits t s b)
    (same : ∀ type : Ty, type.substitute b' = type.substitute b) : c.Fits t s b' where
  parameters := fits.parameters.imp fun p q one => (same p.type).trans one
  returns := by
    rw [same]
    exact fits.returns

/-- What is put in for the type parameters of a method is put on top of what those of its type
are. -/
theorem Candidate.bindings?_eq_append {explicit : List Ty} {observed : List (Ty × Ty)} {b : Bindings}
    (found : c.bindings? explicit observed = some b) :
    ∃ new : Bindings, b = new ++ c.receiver ∧ ∀ p ∈ new, p.1 ∈ c.method.typeParameters := by
  have every (type : Ty) : type.BuiltFrom (fun _ => True) (fun _ => True) :=
    Ty.BuiltFrom.iff_occurring.mpr ⟨fun _ _ => trivial, fun _ _ => trivial⟩
  obtain ⟨new, rfl, learnt⟩ :=
    bindings?_eq_some (fun type _ => every type) (fun pair _ => every pair.2) found
  exact ⟨new, rfl, fun p member => (learnt p member).1⟩

/-- A method without type parameters of its own has the bindings of its type. -/
theorem Candidate.bindings?_eq_receiver (plain : c.method.typeParameters = [])
    (observed : List (Ty × Ty)) : c.bindings? [] observed = some c.receiver := by
  obtain ⟨b, found⟩ : ∃ b, c.bindings? [] observed = some b := ⟨_, rfl⟩
  obtain ⟨new, rfl, known⟩ := bindings?_eq_append found
  rw [plain] at known
  rw [found, List.eq_nil_iff_forall_not_mem.mpr fun p member => List.not_mem_nil (known p member)]
  rfl

def Candidate.observed (c : Candidate) (s : Signature) : List (Ty × Ty) :=
  (c.method.parameters.zip s.parameters).map (fun (p, q) => (p.type, q.type)) ++
    [(c.method.returns, s.returns)]

theorem candidateConverts_iff {g : MethodGroup} : t.candidateConverts g s c ↔
    ∃ b, c.bindings? g.typeArguments (c.observed s) = some b ∧ c.Fits t s b := by
  simp only [candidateConverts, Candidate.takes, Bool.and_eq_true, beq_iff_eq, Option.any_eq_true,
    List.all_eq_true, returnFits_iff]
  constructor
  · rintro ⟨counted, b, found, each, returns⟩
    refine ⟨b, found, List.forall₂_iff_zip.mpr ⟨counted, fun pair => each _ pair⟩, returns⟩
  · rintro ⟨b, found, parameters, returns⟩
    obtain ⟨counted, each⟩ := List.forall₂_iff_zip.mp parameters
    exact ⟨counted, b, found, fun pair member => each member, returns⟩

/-- A method that converts fits under bindings of all its type parameters. -/
theorem candidateConverts_fits {g : MethodGroup} (converts : t.candidateConverts g s c) :
    ∃ b : Bindings, b.Extends c.receiver c.method.typeParameters ∧ c.Fits t s b := by
  obtain ⟨b, found, fits⟩ := candidateConverts_iff.mp converts
  obtain ⟨new, rfl, known⟩ := Candidate.bindings?_eq_append found
  -- the type parameters that nothing was learnt about are bound to themselves, which changes no type
  exact ⟨_, Bindings.extends_append known, fits.congr (Bindings.substitute_append_identity _ _)⟩

/-! ### The whole group -/

theorem converts_methods_iff {g : MethodGroup} {type : Ty} : t.converts (.methods g) type ↔
    ∃ s, t.Delegate type s ∧ ∃ c ∈ g.candidates, t.candidateConverts g s c := by
  simp only [converts, groupConverts, Option.any_eq_true, List.any_eq_true, signatureOf?_eq_some_iff]

/-- A method group has a type exactly if its surroundings convert it to that type. -/
theorem typeOf?_methods {n : Node} {g : MethodGroup} {type : Ty}
    (group : t.denotes (n.memberAccessOfName?.getD n) = some (.methods g)) :
    t.typeOf? n = some type ↔
      t.target (n.memberAccessOfName?.getD n) = some type ∧ t.converts (.methods g) type := by
  simp only [typeOf?, group, Option.filter_eq_some_iff]

end Table

/-- A node that denotes methods, widened to the access that its name ends, has no other type than
the one that is asked for where it stands: a delegate that one of the methods fits under bindings of
its own type parameters. Where a delegate is asked for and a method without type parameters fits as
it is, that delegate is the type of the node. -/
theorem Resolver.typeOf_methods {tree : SyntaxTree} {n : Node} {g : MethodGroup}
    (group : (Table.ofRoot tree.rootNode).denotes (n.memberAccessOfName?.getD n) =
      some (.methods g)) :
    let t := Table.ofRoot tree.rootNode
    let asked := t.target (n.memberAccessOfName?.getD n)
    let typed := (Resolver.ofTree tree).typeOf ⟨tree, n⟩
    (∀ type, typed = some type →
      asked = some type ∧ ∃ s, t.Delegate type s ∧ ∃ c ∈ g.candidates, ∃ b : Bindings,
        b.Extends c.receiver c.method.typeParameters ∧ c.Fits t s b) ∧
    ∀ type s, asked = some type → t.Delegate type s → g.typeArguments = [] →
      (∃ c ∈ g.candidates, c.method.typeParameters = [] ∧ c.Fits t s c.receiver) →
      typed = some type := by
  intro t asked typed
  have own : typed = t.typeOf? n := if_pos (beq_self_eq_true _)
  rw [own]
  refine ⟨fun type found => ?_, fun type s wanted delegate inferred ⟨c, listed, plain, fits⟩ => ?_⟩
  · obtain ⟨wanted, converts⟩ := (Table.typeOf?_methods group).mp found
    obtain ⟨s, delegate, c, listed, one⟩ := Table.converts_methods_iff.mp converts
    exact ⟨wanted, s, delegate, c, listed, Table.candidateConverts_fits one⟩
  · refine (Table.typeOf?_methods group).mpr ⟨wanted, Table.converts_methods_iff.mpr ?_⟩
    refine ⟨s, delegate, c, listed, Table.candidateConverts_iff.mpr ⟨c.receiver, ?_, fits⟩⟩
    rw [inferred]
    exact Table.Candidate.bindings?_eq_receiver plain _

/-- A method with a type parameter fits with that parameter bound; one without is taken as it is. -/
theorem Resolver.typeOf_methods_fields :
    let root := (parse ("class C\x7bdelegate void D(int i);void F<T>(T t)\x7b\x7dvoid G(int i)\x7b\x7d" ++
      "D d=F;D e=G;\x7d")).root
    let tree : SyntaxTree := ⟨root, .parsed 0 root⟩
    let t := Table.ofRoot tree.rootNode
    let whole (n : Node) := n.memberAccessOfName?.getD n
    let generic := tree.rootNode.atOffset 66
    let plain := tree.rootNode.atOffset 72
    let delegate := Ty.named "C" "D" []
    (∃ g, t.denotes (whole generic) = some (.methods g) ∧
      ∃ s, t.Delegate delegate s ∧ ∃ c ∈ g.candidates, ∃ b : Bindings,
        b.Extends c.receiver ["T"] ∧ c.Fits t s b) ∧
    (∃ g, t.denotes (whole plain) = some (.methods g)) ∧
      (Resolver.ofTree tree).typeOf ⟨tree, plain⟩ = some delegate := by
  intro root tree t whole generic plain delegate
  constructor
  · have runs : ((t.denotes (whole generic)).any fun
        | .methods g => g.candidates.map (·.method.typeParameters) == [["T"]]
        | .value _ | .type _ | .space _ | .function => false) &&
        (Resolver.ofTree tree).typeOf ⟨tree, generic⟩ == some delegate := by decide +kernel
    simp only [Bool.and_eq_true, beq_iff_eq] at runs
    obtain ⟨group, typed⟩ := runs
    obtain ⟨found, denoted, own⟩ := (Option.any_eq_true _ _).mp group
    cases found with
    | methods g =>
        obtain ⟨c, only, own⟩ := List.map_eq_singleton_iff.mp (beq_iff_eq.mp own)
        obtain ⟨sound, -⟩ := Resolver.typeOf_methods denoted
        obtain ⟨-, s, called, c', listed, b, above, fits⟩ := sound delegate typed
        obtain rfl : c' = c := by simpa [only] using listed
        exact ⟨g, denoted, s, called, c', listed, b, own ▸ above, fits⟩
    | _ => cases own
  · have runs : ((t.denotes (whole plain)).any fun
        | .methods g => g.typeArguments == [] &&
            g.candidates.map (·.method) == [⟨"G", [], [⟨"i", .int⟩], .void, false⟩]
        | .value _ | .type _ | .space _ | .function => false) &&
        t.signatureOf? delegate == some ⟨[⟨"i", .int⟩], .void⟩ &&
        t.target (whole plain) == some delegate := by decide +kernel
    simp only [Bool.and_eq_true, beq_iff_eq] at runs
    obtain ⟨⟨group, called⟩, wanted⟩ := runs
    obtain ⟨found, denoted, own⟩ := (Option.any_eq_true _ _).mp group
    cases found with
    | methods g =>
        obtain ⟨inferred, listed⟩ := Bool.and_eq_true_iff.mp own
        obtain ⟨c, only, own⟩ := List.map_eq_singleton_iff.mp (beq_iff_eq.mp listed)
        have fits : c.Fits t ⟨[⟨"i", .int⟩], .void⟩ c.receiver := by
          refine ⟨?_, .inl ?_⟩ <;> rw [own]
          · exact .cons rfl .nil
          · rfl
        obtain ⟨-, complete⟩ := Resolver.typeOf_methods denoted
        exact ⟨⟨g, denoted⟩, complete delegate _ wanted (Table.signatureOf?_eq_some_iff.mp called)
          (beq_iff_eq.mp inferred) ⟨c, by simp [only], by rw [own], fits⟩⟩
    | _ => cases own

end SharpRefactor
