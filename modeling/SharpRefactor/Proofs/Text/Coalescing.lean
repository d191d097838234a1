import Mathlib.Data.List.Basic
import SharpRefactor.Proofs.Text.Splicing

/-!
What becomes of edits when they are put in order and joined. The joined edits do not touch, they
reach what the given ones reach, and they write what the given ones write. So there is nothing left
to join, and the text comes out the same.
-/

namespace SharpRefactor
namespace TextEdit

def Separated (es : List TextEdit) : Prop :=
  es.Pairwise fun a b => a.range.stop < b.range.start

def written (es : List TextEdit) : String := String.join (es.map replacement)

variable {text : String} {es : List TextEdit}

theorem Separated.ordered (apart : Separated es) : es.Pairwise fun a b => a.precedes b := by
  refine apart.imp fun {a b} before => precedes_iff.mpr ?_
  have := a.range.start_le_stop
  omega

theorem Separated.sort_eq (apart : Separated es) : sort es = es :=
  List.mergeSort_of_pairwise apart.ordered

/-! ### Joining -/

/-- An end of a joined edit is an end of an edit that went into it. -/
theorem ends_of_mem_join {a e : TextEdit} (member : e ∈ join a es) :
    (∃ b ∈ a :: es, e.range.start = b.range.start) ∧ ∃ b ∈ a :: es, e.range.stop = b.range.stop := by
  induction es generalizing a with
  | nil =>
      rw [join, List.mem_singleton] at member
      subst member
      exact ⟨⟨e, List.mem_cons_self, rfl⟩, e, List.mem_cons_self, rfl⟩
  | cons b es ih =>
      rw [join] at member
      split at member
      · obtain ⟨⟨c, first, start⟩, d, last, stop⟩ := ih member
        constructor
        · rcases List.mem_cons.mp first with rfl | first
          · exact ⟨a, List.mem_cons_self, start⟩
          · exact ⟨c, List.mem_cons_of_mem a (List.mem_cons_of_mem b first), start⟩
        · rcases List.mem_cons.mp last with rfl | last
          · exact ⟨b, List.mem_cons_of_mem a List.mem_cons_self, stop⟩
          · exact ⟨d, List.mem_cons_of_mem a (List.mem_cons_of_mem b last), stop⟩
      · rcases List.mem_cons.mp member with rfl | member
        · exact ⟨⟨e, List.mem_cons_self, rfl⟩, e, List.mem_cons_self, rfl⟩
        · obtain ⟨⟨c, first, start⟩, d, last, stop⟩ := ih member
          exact ⟨⟨c, List.mem_cons_of_mem a first, start⟩, d, List.mem_cons_of_mem a last, stop⟩

/-- Edits that stand one behind the other are apart once those that touch are joined. -/
theorem separated_join {a : TextEdit}
    (behind : (a :: es).Pairwise fun b c => b.range.stop ≤ c.range.start) : Separated (join a es) := by
  induction es generalizing a with
  | nil => exact List.pairwise_singleton _ _
  | cons b es ih =>
      obtain ⟨first, later⟩ := List.pairwise_cons.mp behind
      rw [join]
      split
      · exact ih (List.pairwise_cons.mpr (List.pairwise_cons.mp later))
      · next gap =>
          refine List.pairwise_cons.mpr ⟨fun e member => ?_, ih later⟩
          obtain ⟨⟨c, inside, start⟩, -⟩ := ends_of_mem_join member
          have near := first b List.mem_cons_self
          -- whatever comes out starts with an edit that is `b` or stands behind it
          rcases List.mem_cons.mp inside with rfl | inside
          · omega
          · have := (List.pairwise_cons.mp later).1 c inside
            have := b.range.start_le_stop
            omega

theorem written_join (a : TextEdit) (es : List TextEdit) : written (join a es) = written (a :: es) := by
  induction es generalizing a with
  | nil => rfl
  | cons b es ih =>
      rw [join]
      split
      · rw [ih]
        simp [written, String.append_assoc]
      · have rest := ih b
        simp only [written, List.map_cons, String.join_cons] at rest ⊢
        rw [rest]

/-- What holds of the join of two ranges exactly if it holds of one of them holds of one of the
joined edits exactly if it holds of one that went into them. -/
theorem exists_mem_join {P : TextRange → Prop}
    (additive : ∀ r s t : TextRange, r.stop = s.start → t.start = r.start → t.stop = s.stop →
      (P t ↔ P r ∨ P s)) (a : TextEdit) (es : List TextEdit) :
    (∃ e ∈ join a es, P e.range) ↔ ∃ e ∈ a :: es, P e.range := by
  induction es generalizing a with
  | nil => rfl
  | cons b es ih =>
      rw [join]
      split
      · next touch =>
          rw [ih]
          simp only [List.exists_mem_cons_iff]
          refine Iff.trans (or_congr_left ?_) or_assoc
          exact additive _ _ _ touch rfl rfl
      · rw [List.exists_mem_cons_iff, ih, List.exists_mem_cons_iff _ a]

theorem merge_of_separated (apart : Separated es) : merge es = es := by
  have alone : ∀ (es : List TextEdit) (a : TextEdit), Separated (a :: es) → join a es = a :: es := by
    intro es
    induction es with
    | nil => exact fun a _ => rfl
    | cons b es ih =>
        intro a apart
        obtain ⟨first, later⟩ := List.pairwise_cons.mp apart
        have gap := first b List.mem_cons_self
        rw [join, dif_neg (by omega), ih b later]
  cases es with
  | nil => rfl
  | cons a es => exact alone es a apart

/-! ### Normal edits -/

theorem normalize_eq_ok_iff {edits result : List TextEdit} :
    normalize text edits = .ok result ↔ Acceptable text edits ∧ merge (sort edits) = result := by
  rw [← Acceptable.perm (sort_perm edits), ← fault?_eq_none_iff (sort_ordered edits), normalize]
  cases fault? text.toList (sort edits) with
  | none => simp
  | some fault => simp

/-- What is joined from acceptable edits is acceptable. -/
theorem Acceptable.merge {edits : List TextEdit} (ok : Acceptable text edits)
    (apart : Separated (merge (sort edits))) : Acceptable text (TextEdit.merge (sort edits)) := by
  have ends : ∀ e ∈ TextEdit.merge (sort edits),
      (∃ b ∈ edits, e.range.start = b.range.start) ∧ ∃ b ∈ edits, e.range.stop = b.range.stop := by
    intro e member
    simp only [← (sort_perm edits).mem_iff]
    generalize sort edits = es at member
    cases es with
    | nil => cases member
    | cons a es => exact ends_of_mem_join member
  refine ⟨fun e member => ?_, fun e member => ?_, apart.imp fun before => .inl (Nat.le_of_lt before),
    apart.imp fun {a b} before together => ?_⟩
  · obtain ⟨-, b, inside, stop⟩ := ends e member
    exact stop ▸ ok.within b inside
  · obtain ⟨⟨b, first, start⟩, c, last, stop⟩ := ends e member
    exact ⟨start ▸ (ok.whole b first).1, stop ▸ (ok.whole c last).2⟩
  · have := a.range.start_le_stop
    have := together.2.2
    omega

/-- Putting edits in order and joining them leads to a normal form: edits that are apart, that reach
and write what the given ones do, and of which nothing more can be joined. -/
theorem normalize_canonical {edits result : List TextEdit}
    (accepted : normalize text edits = .ok result) :
    (result.Pairwise (fun a b => a.precedes b) ∧ Separated result) ∧
    normalize text result = .ok result ∧
    (∃ out, apply text result = .ok out ∧ apply text edits = .ok out) ∧
    (∀ offset, (∃ e ∈ result, e.range.contains offset) ↔ ∃ e ∈ edits, e.range.contains offset) ∧
    (∀ offset, (∃ e ∈ result, e.range.start ≤ offset ∧ offset ≤ e.range.stop) ↔
      ∃ e ∈ edits, e.range.start ≤ offset ∧ offset ≤ e.range.stop) ∧
    ∃ ordered, ordered.Perm edits ∧ ordered.Pairwise (fun a b => a.precedes b) ∧
      (∀ other, other.Perm edits → other.Pairwise (fun a b => a.precedes b) → other = ordered) ∧
      written result = written ordered := by
  obtain ⟨ok, rfl⟩ := normalize_eq_ok_iff.mp accepted
  have apart : Separated (merge (sort edits)) := by
    have behind := ok.behind
    generalize sort edits = es at behind
    cases es with
    | nil => exact List.Pairwise.nil
    | cons a es => exact separated_join behind
  have again : normalize text (merge (sort edits)) = .ok (merge (sort edits)) :=
    normalize_eq_ok_iff.mpr ⟨ok.merge apart, by rw [apart.sort_eq, merge_of_separated apart]⟩
  have reached {P : TextRange → Prop} (additive : ∀ r s t : TextRange, r.stop = s.start →
      t.start = r.start → t.stop = s.stop → (P t ↔ P r ∨ P s)) :
      (∃ e ∈ merge (sort edits), P e.range) ↔ ∃ e ∈ edits, P e.range := by
    simp only [← (sort_perm edits).mem_iff]
    generalize sort edits = es
    cases es with
    | nil => rfl
    | cons a es => exact exists_mem_join additive a es
  refine ⟨⟨apart.ordered, apart⟩, again, ?_, fun offset => ?_, fun offset => ?_, sort edits,
    sort_perm edits, sort_ordered edits, fun other perm ordered => ?_, ?_⟩
  · rw [apply, again, apply, accepted]
    exact ⟨_, rfl, rfl⟩
  · refine reached (P := fun r => r.contains offset) fun r s t touch start stop => ?_
    have := r.start_le_stop
    have := s.start_le_stop
    simp only [TextRange.contains, Bool.and_eq_true, decide_eq_true_eq]
    omega
  · refine reached (P := fun r => r.start ≤ offset ∧ offset ≤ r.stop) fun r s t touch start stop => ?_
    have := r.start_le_stop
    have := s.start_le_stop
    omega
  · have sorted := (Acceptable.perm perm).mpr ok
    exact sorted.ordered_unique ordered (sort_ordered edits) (perm.trans (sort_perm edits).symm)
  · generalize sort edits = es
    cases es with
    | nil => rfl
    | cons a es => exact written_join a es

/-- A replacement with an insert at each of its edges, given from the last one to the first, and a
removal that nothing touches. -/
theorem normalize_canonical_chain :
    let edits : List TextEdit := [⟨⟨7, 7, by decide⟩, ">"⟩, ⟨⟨3, 7, by decide⟩, "+"⟩,
      ⟨⟨3, 3, by decide⟩, "<"⟩, ⟨⟨0, 1, by decide⟩, ""⟩]
    let result : List TextEdit := [⟨⟨0, 1, by decide⟩, ""⟩, ⟨⟨3, 7, by decide⟩, "<+>"⟩]
    normalize "aé😀b" edits = .ok result ∧ normalize "aé😀b" result = .ok result ∧
      Separated result ∧ ∃ out, apply "aé😀b" result = .ok out ∧ apply "aé😀b" edits = .ok out := by
  intro edits result
  have inOrder : sort edits = edits.reverse := by
    simp [edits, sort, List.mergeSort, List.MergeSort.Internal.splitInTwo, precedes]
  have faultless : fault? "aé😀b".toList edits.reverse = none := by decide
  have joined : merge edits.reverse = result := by decide
  have accepted : normalize "aé😀b" edits = .ok result := by
    rw [normalize, inOrder, faultless, joined]
  obtain ⟨⟨-, apart⟩, again, same, -⟩ := normalize_canonical accepted
  exact ⟨accepted, again, apart, same⟩

end TextEdit
end SharpRefactor
