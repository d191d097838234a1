import Mathlib.Data.List.Flatten
import SharpRefactor.Proofs.Types.Defined

/-!
A walk over a type and all its bases. `Walks` is the walk without a bound. It comes to an end although
types may grow along a cycle of bases, since each definition adds its bases to the queue once, and
the definitions are listed in the order in which they are first named: first the type itself, then
the bases of each definition that is listed, as they are written.
-/

namespace SharpRefactor
namespace Table

def Ancestor.bases (a : Ancestor) : List Ty := a.1.contents.bases.map (Ty.substitute a.2)

/-- The walk over a queue of types and their bases, the keys in `seen` being done, and what it
lists. -/
inductive Walks (t : Table) : List Ty → List TypeKey → List Ancestor → Prop where
  | done (seen : List TypeKey) : Walks t [] seen []
  | unnamed {type : Ty} {queue : List Ty} {seen : List TypeKey} {found : List Ancestor}
      (none : TypeKey.of? type = none) (rest : Walks t queue seen found) :
      Walks t (type :: queue) seen found
  | again {type : Ty} {queue : List Ty} {seen : List TypeKey} {found : List Ancestor} {k : TypeKey}
      (key : TypeKey.of? type = some k) (old : k ∈ seen) (rest : Walks t queue seen found) :
      Walks t (type :: queue) seen found
  | unknown {type : Ty} {queue : List Ty} {seen : List TypeKey} {found : List Ancestor} {k : TypeKey}
      (key : TypeKey.of? type = some k) (new : k ∉ seen) (missing : t.find? k = none)
      (rest : Walks t queue (k :: seen) found) : Walks t (type :: queue) seen found
  | lists {type : Ty} {queue : List Ty} {seen : List TypeKey} {found : List Ancestor} {k : TypeKey}
      {d : TypeDef} (key : TypeKey.of? type = some k) (new : k ∉ seen) (known : t.find? k = some d)
      (rest : Walks t (queue ++ Ancestor.bases (d, d.bind type)) (k :: seen) found) :
      Walks t (type :: queue) seen ((d, d.bind type) :: found)

variable {t : Table} {type : Ty} {queue : List Ty} {seen : List TypeKey} {found : List Ancestor}

/-! ### The end of the walk -/

def pending (t : Table) (seen : List TypeKey) : Nat :=
  ((t.defs.filter (·.key ∉ seen)).flatMap (·.contents.bases)).length

theorem pending_nil : t.pending [] = t.baseCount := by
  simp [pending, baseCount]

theorem pending_cons (t : Table) (k : TypeKey) (seen : List TypeKey) :
    t.pending (k :: seen) =
      (((t.defs.filter (·.key ∉ seen)).filter (·.key ≠ k)).flatMap (·.contents.bases)).length := by
  rw [pending, List.filter_filter]
  simp

theorem pending_cons_le (k : TypeKey) : t.pending (k :: seen) ≤ t.pending seen := by
  rw [pending_cons, pending]
  exact (List.filter_sublist.flatMap _).length_le

/-- A definition that is listed takes its bases with it. -/
theorem pending_cons_of_find? {k : TypeKey} {d : TypeDef} (new : k ∉ seen)
    (known : t.find? k = some d) :
    t.pending (k :: seen) + d.contents.bases.length ≤ t.pending seen := by
  obtain ⟨listed, rfl⟩ := find?_eq_some known
  have member : d ∈ t.defs.filter (·.key ∉ seen) := by simpa using ⟨listed, new⟩
  rw [pending_cons, pending]
  obtain ⟨front, back, split⟩ := List.append_of_mem member
  have others (ds : List TypeDef) :
      ((ds.filter (·.key ≠ d.key)).flatMap (·.contents.bases)).length ≤
        (ds.flatMap (·.contents.bases)).length :=
    (List.filter_sublist.flatMap _).length_le
  have before := others front
  have after := others back
  rw [split, List.filter_append, List.filter_cons_of_neg (by simp)]
  simp only [List.flatMap_append, List.flatMap_cons, List.length_append]
  omega

/-- Each type in the queue is looked at once, and so is each base that is still to come. -/
def cost (t : Table) (queue : List Ty) (seen : List TypeKey) : Nat := queue.length + t.pending seen

theorem cost_le_of_cons {n : Nat} (enough : t.cost (type :: queue) seen ≤ n + 1) :
    t.cost queue seen ≤ n := by
  simp only [cost, List.length_cons] at enough ⊢
  omega

theorem cost_seen_le (k : TypeKey) : t.cost queue (k :: seen) ≤ t.cost queue seen :=
  Nat.add_le_add_left (t.pending_cons_le k) _

theorem cost_bases_le {k : TypeKey} {d : TypeDef} (new : k ∉ seen) (known : t.find? k = some d)
    (b : Bindings) : t.cost (queue ++ Ancestor.bases (d, b)) (k :: seen) ≤ t.cost queue seen := by
  have less := pending_cons_of_find? new known
  simp only [cost, List.length_append, Ancestor.bases, List.length_map]
  omega

theorem eq_nil_of_cost (none : t.cost queue seen ≤ 0) : queue = [] :=
  List.eq_nil_of_length_eq_zero (Nat.le_zero.mp (Nat.le_trans (Nat.le_add_right _ _) none))

theorem walks_visit {n : Nat} (enough : t.cost queue seen ≤ n) :
    t.Walks queue seen (t.visit n queue seen) := by
  induction n generalizing queue seen with
  | zero =>
      rw [eq_nil_of_cost enough]
      exact .done seen
  | succ n ih =>
      cases queue with
      | nil => exact .done seen
      | cons type queue =>
          have fewer : t.cost queue seen ≤ n := cost_le_of_cons enough
          rw [visit]
          split
          · next none => exact .unnamed none (ih fewer)
          · next k key =>
            split
            · next old => exact .again key (List.contains_iff_mem.mp old) (ih fewer)
            · next new =>
              have new : k ∉ seen := fun old => new (List.contains_iff_mem.mpr old)
              split
              · next missing =>
                exact .unknown key new missing (ih (Nat.le_trans (cost_seen_le k) fewer))
              · next d known =>
                exact .lists key new known (ih (Nat.le_trans (cost_bases_le new known _) fewer))

theorem Walks.visit_eq (h : t.Walks queue seen found) {n : Nat} (enough : t.cost queue seen ≤ n) :
    t.visit n queue seen = found := by
  induction n generalizing queue seen found with
  | zero =>
      obtain rfl := eq_nil_of_cost enough
      cases h
      rfl
  | succ n ih =>
      cases h with
      | done => rfl
      | @unnamed type queue _ _ none rest =>
          have fewer : t.cost queue seen ≤ n := cost_le_of_cons enough
          simp only [visit, none, ih rest fewer]
      | @again type queue _ _ k key old rest =>
          have fewer : t.cost queue seen ≤ n := cost_le_of_cons enough
          simp only [visit, key, List.contains_iff_mem.mpr old, if_true, ih rest fewer]
      | @unknown type queue _ _ k key new missing rest =>
          have fewer : t.cost queue seen ≤ n := cost_le_of_cons enough
          have same := ih rest (Nat.le_trans (cost_seen_le k) fewer)
          simp [visit, key, new, missing, same]
      | @lists type queue _ found k d key new known rest =>
          have fewer : t.cost queue seen ≤ n := cost_le_of_cons enough
          have same := ih rest (Nat.le_trans (cost_bases_le new known _) fewer)
          rw [Ancestor.bases] at same
          simp [visit, key, new, known, same]

/-- The walk ends, and with one result. -/
theorem walks_iff : t.Walks queue seen found ↔ t.visit (t.cost queue seen) queue seen = found :=
  ⟨fun h => h.visit_eq (Nat.le_refl _), fun same => same ▸ walks_visit (Nat.le_refl _)⟩

/-! ### The order of the walk -/

def keysIn (t : Table) (types : List Ty) : List TypeKey := (types.filterMap TypeKey.of?).filter t.has

theorem mem_keysIn {types : List Ty} {k : TypeKey} :
    k ∈ t.keysIn types ↔ t.has k ∧ ∃ u ∈ types, TypeKey.of? u = some k := by
  simp [keysIn, and_comm]

theorem keysIn_append (types types' : List Ty) :
    t.keysIn (types ++ types') = t.keysIn types ++ t.keysIn types' := by
  simp [keysIn]

theorem keysIn_cons_of_none (none : TypeKey.of? type = none) (types : List Ty) :
    t.keysIn (type :: types) = t.keysIn types := by
  rw [keysIn, List.filterMap_cons_none none, keysIn]

theorem keysIn_cons {k : TypeKey} (key : TypeKey.of? type = some k) (types : List Ty) :
    t.keysIn (type :: types) = if t.has k then k :: t.keysIn types else t.keysIn types := by
  rw [keysIn, List.filterMap_cons_some key, List.filter_cons, keysIn]

/-- The definitions are listed in the order in which they are first named, by the types in the queue
and then by the bases of what is listed. -/
theorem Walks.keys (h : t.Walks queue seen found) :
    found.map (·.1.key) =
      ((t.keysIn (queue ++ found.flatMap Ancestor.bases)).filter (· ∉ seen)).eraseDups := by
  induction h with
  | done seen => rfl
  | unnamed none rest ih => rw [ih, List.cons_append, keysIn_cons_of_none none]
  | again key old rest ih =>
      rw [ih, List.cons_append, keysIn_cons key]
      split
      · rw [List.filter_cons_of_neg (by simpa using old)]
      · rfl
  | @unknown _ _ _ _ k key new missing rest ih =>
      have undefined : t.has k = false := Bool.eq_false_iff.mpr fun has => by
        rw [← isSome_find?, missing] at has
        cases has
      rw [ih, List.cons_append, keysIn_cons key, undefined, if_neg Bool.false_ne_true]
      congr 1
      refine List.filter_congr fun k' listed => ?_
      have other : k' ≠ k := by
        rintro rfl
        rw [(mem_keysIn.mp listed).1] at undefined
        cases undefined
      simp [other]
  | lists key new known rest ih =>
      have defined := isSome_find?.mp (Option.isSome_of_eq_some known)
      obtain ⟨-, rfl⟩ := find?_eq_some known
      rw [List.cons_append, keysIn_cons key, if_pos defined,
        List.filter_cons_of_pos (by simpa using new), List.eraseDups_cons, List.filter_filter,
        List.map_cons, ih, List.flatMap_cons, List.append_assoc]
      congr 3
      funext k'
      simp [← Bool.beq_eq_decide_eq]

theorem Walks.nodup (h : t.Walks queue seen found) : (found.map (·.1.key)).Nodup := by
  induction h with
  | done seen => exact List.nodup_nil
  | unnamed _ _ ih | again _ _ _ ih | unknown _ _ _ _ ih => exact ih
  | lists key new known rest ih =>
      obtain ⟨-, rfl⟩ := find?_eq_some known
      refine List.nodup_cons.mpr ⟨fun later => ?_, ih⟩
      rw [rest.keys, List.mem_eraseDups] at later
      simp at later

/-- What is listed is a definition of the table with the substitution of a type that names it. -/
theorem Walks.names (h : t.Walks queue seen found) :
    ∀ a ∈ found, t.find? a.1.key = some a.1 ∧ ∃ u ∈ queue ++ found.flatMap Ancestor.bases,
      TypeKey.of? u = some a.1.key ∧ a.2 = a.1.bind u := by
  induction h with
  | done seen => simp
  | unnamed _ _ ih | again _ _ _ ih | unknown _ _ _ _ ih =>
      intro a member
      obtain ⟨known, u, named, rest⟩ := ih a member
      exact ⟨known, u, List.mem_cons_of_mem _ named, rest⟩
  | lists key new known rest ih =>
      obtain ⟨-, rfl⟩ := find?_eq_some known
      intro a member
      rcases List.mem_cons.mp member with rfl | later
      · exact ⟨known, _, List.mem_cons_self, key, rfl⟩
      · obtain ⟨known, u, named, rest⟩ := ih a later
        refine ⟨known, u, List.mem_cons_of_mem _ ?_, rest⟩
        simpa using named

end Table
end SharpRefactor
