import SharpRefactor.Proofs.Types.Ancestry.Walk

/-!
A type with all its bases, which the walk over them lists. The common base of all types is put at the
end unless it is named on the way. Where it is named it stands where it is named first, so it need
not be the last; and where it is put at the end, bases that a file gives to it are not followed.
-/

namespace SharpRefactor
namespace Table

variable {t : Table} {type : Ty} {queue : List Ty} {seen : List TypeKey} {found : List Ancestor}

def ancestry (t : Table) (type : Ty) : List Ancestor := t.visit (t.baseCount + 1) [type] []

def naming (t : Table) (type : Ty) : List Ty := type :: (t.ancestry type).flatMap Ancestor.bases

theorem walks_ancestry (t : Table) (type : Ty) : t.Walks [type] [] (t.ancestry type) := by
  refine walks_visit (Nat.le_of_eq ?_)
  rw [cost, pending_nil, List.length_singleton, Nat.add_comm]

theorem walks_iff_ancestry : t.Walks [type] [] found ↔ found = t.ancestry type := by
  rw [walks_iff, ← walks_iff.mp (walks_ancestry t type)]
  exact eq_comm

theorem keys_ancestry (t : Table) (type : Ty) :
    (t.ancestry type).map (·.1.key) = (t.keysIn (t.naming type)).eraseDups := by
  rw [(walks_ancestry t type).keys]
  simp [naming]

/-- A definition is listed exactly if it is named. -/
theorem mem_keys_ancestry {k : TypeKey} :
    k ∈ (t.ancestry type).map (·.1.key) ↔ k ∈ t.keysIn (t.naming type) := by
  rw [keys_ancestry, List.mem_eraseDups]

/-- The common base is put at the end if it is not named. -/
theorem hierarchy_eq (t : Table) (type : Ty) : t.hierarchy type = t.ancestry type ++
    if TypeKey.object ∈ t.keysIn (t.naming type) then []
    else (t.find? TypeKey.object).toList.map (·, []) := by
  have same : (t.ancestry type).any (·.1.key == TypeKey.object) ↔
      TypeKey.object ∈ t.keysIn (t.naming type) := by
    rw [← mem_keys_ancestry]
    simp
  by_cases named : TypeKey.object ∈ t.keysIn (t.naming type)
  · rw [if_pos named, List.append_nil]
    exact if_pos (same.mpr named)
  · rw [if_neg named]
    exact if_neg (mt same.mp named)

/-- The common base is in every table. -/
theorem ofRoot_object (root : Node) : ∃ d, (ofRoot root).find? TypeKey.object = some d :=
  Option.isSome_iff_exists.mp (isSome_find?.mpr (ofRoot_has.trans (names_has (by decide))))

section Object

variable {d : TypeDef} (object : t.find? TypeKey.object = some d)

include object

theorem keys_hierarchy (type : Ty) :
    (t.hierarchy type).map (·.1.key) = (t.keysIn (t.naming type)).eraseDups ++
      if TypeKey.object ∈ t.keysIn (t.naming type) then [] else [TypeKey.object] := by
  rw [hierarchy_eq, List.map_append, keys_ancestry]
  split
  · rfl
  · simp [object, (find?_eq_some object).2]

theorem mem_keys_hierarchy {k : TypeKey} :
    k ∈ (t.hierarchy type).map (·.1.key) ↔ k ∈ t.keysIn (t.naming type) ∨ k = TypeKey.object := by
  rw [keys_hierarchy object, List.mem_append, List.mem_eraseDups]
  split
  · next named => simpa using fun same => same ▸ named
  · rw [List.mem_singleton]

theorem nodup_keys_hierarchy (type : Ty) : ((t.hierarchy type).map (·.1.key)).Nodup := by
  have once := (walks_ancestry t type).nodup
  rw [keys_ancestry] at once
  rw [keys_hierarchy object]
  split
  · rwa [List.append_nil]
  · next absent =>
    refine List.nodup_append.mpr ⟨once, List.pairwise_singleton _ _, ?_⟩
    rintro k listed _ last rfl
    rw [List.mem_singleton.mp last, List.mem_eraseDups] at listed
    exact absent listed

end Object

theorem mem_naming_of_mem_ancestry {a : Ancestor} (listed : a ∈ t.ancestry type) {base : Ty}
    (written : base ∈ a.bases) : base ∈ t.naming type :=
  List.mem_cons_of_mem _ (List.mem_flatMap.mpr ⟨a, listed, written⟩)

/-- A type with a definition comes first. -/
theorem head?_hierarchy {k : TypeKey} {d : TypeDef} (key : TypeKey.of? type = some k)
    (known : t.find? k = some d) : (t.hierarchy type).head? = some (d, d.bind type) := by
  have walk := walks_ancestry t type
  rw [hierarchy_eq]
  generalize t.ancestry type = found at walk
  cases walk with
  | unnamed none _ => rw [key] at none; cases none
  | again _ old _ => cases old
  | unknown key' _ missing _ =>
      obtain rfl := Option.some.inj (key.symm.trans key')
      rw [known] at missing
      cases missing
  | lists key' _ known' _ =>
      obtain rfl := Option.some.inj (key.symm.trans key')
      obtain rfl := Option.some.inj (known.symm.trans known')
      rfl

/-- The walk over the bases of a type comes to an end, whatever the bases are. Each definition is
listed once, that of the type itself first and the common base among them, and with a definition
those of its bases are listed; bases that a file gives to the common base count only if the type or
another definition names it. -/
theorem hierarchy_closed (root : Node) (type : Ty) :
    let t := ofRoot root
    let listed := t.hierarchy type
    let keys := listed.map (·.1.key)
    (∃ found, (∀ other, t.Walks [type] [] other ↔ other = found) ∧
      listed = found ++ if TypeKey.object ∈ found.map (·.1.key) then []
        else (t.find? TypeKey.object).toList.map (·, [])) ∧
    keys.Nodup ∧ (∀ a ∈ listed, t.find? a.1.key = some a.1) ∧
    (∀ k d, TypeKey.of? type = some k → t.find? k = some d → listed.head? = some (d, d.bind type)) ∧
    keys.count TypeKey.object = 1 ∧
    ∀ a ∈ listed, (a.1.key = TypeKey.object → TypeKey.of? type = some TypeKey.object ∨
        ∃ b ∈ listed, b.1.key ≠ TypeKey.object ∧
          ∃ base ∈ b.bases, TypeKey.of? base = some TypeKey.object) →
      ∀ base ∈ a.bases, ∀ k, TypeKey.of? base = some k → t.has k → k ∈ keys := by
  intro t listed keys
  obtain ⟨d, object⟩ : ∃ d, t.find? TypeKey.object = some d := ofRoot_object root
  have once : keys.Nodup := nodup_keys_hierarchy object type
  have last : TypeKey.object ∈ keys := (mem_keys_hierarchy object).mpr (.inr rfl)
  have split : ∀ a ∈ listed, a ∈ t.ancestry type ∨
      TypeKey.object ∉ t.keysIn (t.naming type) ∧ a = (d, []) := by
    intro a member
    rw [show listed = _ from hierarchy_eq t type, List.mem_append] at member
    refine member.imp_right fun last => ?_
    split at last
    · cases last
    · next absent => exact ⟨absent, by simpa [object, eq_comm] using last⟩
  refine ⟨⟨t.ancestry type, fun other => walks_iff_ancestry, ?_⟩, once, fun a member => ?_,
    fun k d key known => head?_hierarchy key known, by rw [once.count, if_pos last],
    fun a member followed base written k key defined => ?_⟩
  · simp only [mem_keys_ancestry]
    exact hierarchy_eq t type
  · rcases split a member with walked | ⟨-, rfl⟩
    · exact ((walks_ancestry t type).names a walked).1
    · rw [(find?_eq_some object).2]
      exact object
  · have walked : a ∈ t.ancestry type := by
      rcases split a member with walked | ⟨absent, rfl⟩
      · exact walked
      · -- the common base was put at the end, so nothing else has named it
        have defined : t.has TypeKey.object := isSome_find?.mp (Option.isSome_of_eq_some object)
        refine absurd (mem_keysIn.mpr ⟨defined, ?_⟩) absent
        rcases followed (find?_eq_some object).2 with own | ⟨b, other, strange, base', written', same⟩
        · exact ⟨type, List.mem_cons_self, own⟩
        · rcases split b other with walked | ⟨-, rfl⟩
          · exact ⟨base', mem_naming_of_mem_ancestry walked written', same⟩
          · exact absurd (find?_eq_some object).2 strange
    exact (mem_keys_hierarchy object).mpr
      (.inl (mem_keysIn.mpr ⟨defined, base, mem_naming_of_mem_ancestry walked written, key⟩))

/-- A class whose base grows, and one with a base that is not known. -/
theorem hierarchy_closed_growing :
    let root := Node.root (parse "class A<T>:A<A<T>>\x7b\x7dclass B:A<int>,Unknown\x7b\x7d").root
    let t := ofRoot root
    let listed := t.hierarchy (.named "" "B" [])
    listed.map (·.1.key) = [⟨"", "B", 0⟩, ⟨"", "A", 1⟩, TypeKey.object] ∧
      ∃ a ∈ listed, a.1.key = ⟨"", "A", 1⟩ ∧ a.2 = [("T", .int)] ∧
        ∃ base ∈ a.bases, base = .named "" "A" [.named "" "A" [.int]] ∧
          ∃ k, TypeKey.of? base = some k ∧ t.has k ∧ k ∈ listed.map (·.1.key) := by
  intro root t listed
  obtain ⟨keys, walked, defined⟩ :
      listed.map (·.1.key) = [⟨"", "B", 0⟩, ⟨"", "A", 1⟩, TypeKey.object] ∧
      (∃ a ∈ listed, a.1.key = ⟨"", "A", 1⟩ ∧ a.2 = [("T", .int)] ∧
        .named "" "A" [.named "" "A" [.int]] ∈ a.bases) ∧
      t.has ⟨"", "A", 1⟩ := by
    decide +kernel
  obtain ⟨a, member, key, bound, written⟩ := walked
  have strange : a.1.key ≠ TypeKey.object := by rw [key]; decide
  obtain ⟨-, -, -, -, -, closed⟩ := hierarchy_closed root (.named "" "B" [])
  exact ⟨keys, a, member, key, bound, _, written, rfl, _, rfl, defined,
    closed a member (fun same => absurd same strange) _ written _ rfl defined⟩

/-- A base of the common base that is not listed with it, so that its members are not found. -/
theorem hierarchy_object_open :
    let source := "namespace System\x7bclass B\x7bpublic int x;\x7dclass Object:B\x7b\x7d\x7d" ++
      "class C\x7bvoid M(C c)\x7bN(c.x);\x7d\x7d"
    let root := Node.root (parse source).root
    let t := ofRoot root
    let listed := t.hierarchy (.named "" "C" [])
    (parse source).errors = [] ∧
      (∃ a ∈ listed, ∃ base ∈ Ancestor.bases a, ∃ k ∈ TypeKey.of? base,
        t.has k ∧ k ∉ listed.map (·.1.key)) ∧
      ∃ n ∈ root.descendants, n.range = .ofSize 78 3 ∧ n.kind = .memberAccessExpression ∧
        t.typeOf? n = none := by
  decide +kernel

/-! ### Where the common base stands -/

/-- A key stands last among the first occurrences exactly if nothing new comes after it. -/
theorem getLast?_eraseDups_iff {ks ls : List TypeKey} {k : TypeKey} (new : k ∉ ks) :
    (ks ++ k :: ls).eraseDups.getLast? = some k ↔ ∀ l ∈ ls, l = k ∨ l ∈ ks := by
  have first : (k :: ls).removeAll ks = k :: ls.removeAll ks := by simp [List.removeAll, new]
  rw [List.eraseDups_append, first, List.eraseDups_cons, List.getLast?_append, List.getLast?_cons,
    Option.some_or, Option.some_inj]
  generalize later : ((ls.removeAll ks).filter (!· == k)).eraseDups = rest
  have mem : ∀ l, l ∈ rest ↔ l ∈ ls ∧ l ∉ ks ∧ l ≠ k := by
    intro l
    rw [← later, List.mem_eraseDups, List.mem_filter]
    simp [List.removeAll, and_assoc]
  constructor
  · intro last l listed
    by_contra! other
    have some : rest ≠ [] := List.ne_nil_of_mem ((mem l).mpr ⟨listed, other.2, other.1⟩)
    rw [List.getLast?_eq_some_getLast some, Option.getD_some] at last
    exact ((mem _).mp (List.getLast_mem some)).2.2 last
  · intro old
    have none : rest = [] := List.eq_nil_iff_forall_not_mem.mpr fun l listed => by
      obtain ⟨listed, new, other⟩ := (mem l).mp listed
      exact (old l listed).elim other new
    rw [none]
    rfl

/-- The common base comes last exactly if every definition that is named after it has been named
before it. -/
theorem hierarchy_object_last_iff (root : Node) (type : Ty) :
    let t := ofRoot root
    let other (u : Ty) : Bool := TypeKey.of? u != some TypeKey.object
    (t.hierarchy type).getLast?.map (·.1.key) = some TypeKey.object ↔
      ∀ k ∈ t.keysIn ((t.naming type).dropWhile other),
        k = TypeKey.object ∨ k ∈ t.keysIn ((t.naming type).takeWhile other) := by
  intro t other
  obtain ⟨d, object⟩ : ∃ d, t.find? TypeKey.object = some d := ofRoot_object root
  have defined : t.has TypeKey.object := isSome_find?.mp (Option.isSome_of_eq_some object)
  have absent : TypeKey.object ∉ t.keysIn ((t.naming type).takeWhile other) := fun named => by
    obtain ⟨-, u, before, key⟩ := mem_keysIn.mp named
    have passed := List.all_eq_true.mp List.all_takeWhile u before
    simp [other, key] at passed
  have named : t.keysIn (t.naming type) = t.keysIn ((t.naming type).takeWhile other) ++
      t.keysIn ((t.naming type).dropWhile other) := by
    rw [← keysIn_append, List.takeWhile_append_dropWhile]
  rw [← List.getLast?_map, keys_hierarchy object, named]
  cases after : (t.naming type).dropWhile other with
  | nil =>
      have none : t.keysIn [] = [] := rfl
      rw [none, List.append_nil, if_neg absent]
      simp
  | cons u rest =>
      have key : TypeKey.of? u = some TypeKey.object := by
        have stopped := List.head_dropWhile_not other (l := t.naming type) (by simp [after])
        simpa [after, other] using stopped
      rw [keysIn_cons key, if_pos defined, if_pos (by simp), List.append_nil,
        getLast?_eraseDups_iff absent, List.forall_mem_cons]
      simp

/-- A class that names the common base before an interface: the member of the common base is found
first. -/
theorem hierarchy_object_first :
    let source := "interface I\x7bint ToString();\x7dclass C:object,I\x7bvoid M(C c)\x7bN(c.ToString());\x7d\x7d"
    let root := Node.root (parse source).root
    let t := ofRoot root
    (parse source).errors = [] ∧ (t.find? ⟨"", "C", 0⟩).isSome ∧
      (t.hierarchy (.named "" "C" [])).map (·.1.key) =
        [⟨"", "C", 0⟩, TypeKey.object, ⟨"", "I", 0⟩] ∧
      ∃ n ∈ root.descendants, n.range = .ofSize 59 12 ∧ n.kind = .invocationExpression ∧
        t.typeOf? n = some .string := by
  decide +kernel

end Table
end SharpRefactor
