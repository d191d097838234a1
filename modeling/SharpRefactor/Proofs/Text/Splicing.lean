import Mathlib.Data.List.Pairwise
import SharpRefactor.Text.Edit

/-!
What edits make of a text, told without an order of work. Edits are carried out exactly when each of
them is placed in the text and no two of them want the same part of it; it is enough for that to
compare neighbours, since the edits stand in order. What comes out is the text walked from left to
right, and the order in which the edits were given does not count, not even for the objection.
-/

namespace SharpRefactor

namespace Text

/-- An offset is a boundary where a text can be cut in two. -/
theorem isBoundary_iff {text : String} {offset : Nat} :
    isBoundary text.toList offset ↔ String.Pos.Raw.IsValid text ⟨offset⟩ := by
  rw [String.Pos.Raw.isValid_iff_exists_append]
  constructor
  · intro boundary
    have front : byteLength (splitBytes offset text.toList).1 = offset := by
      simpa [isBoundary] using boundary
    refine ⟨.ofList (splitBytes offset text.toList).1, .ofList (splitBytes offset text.toList).2,
      ?_, ?_⟩
    · rw [← String.ofList_append, splitBytes_append, String.ofList_toList]
    · rw [String.Pos.Raw.ext_iff, String.byteIdx_rawEndPos, ← byteLength_toList, String.toList_ofList]
      exact front.symm
  · rintro ⟨front, rest, rfl, place⟩
    rw [String.Pos.Raw.ext_iff, String.byteIdx_rawEndPos, ← byteLength_toList] at place
    change offset = _ at place
    rw [place, String.toList_append]
    exact isBoundary_byteLength _ _

/-- A boundary behind the first part of a text cuts the second part. -/
theorem exists_cut {front text : String} {offset : Nat}
    (valid : String.Pos.Raw.IsValid (front ++ text) ⟨offset⟩) (behind : front.utf8ByteSize ≤ offset) :
    ∃ gap rest, text = gap ++ rest ∧ front.utf8ByteSize + gap.utf8ByteSize = offset := by
  obtain ⟨first, second, cut, place⟩ := String.Pos.Raw.isValid_iff_exists_append.mp valid
  have size : offset = first.utf8ByteSize := by
    simpa [String.Pos.Raw.ext_iff] using place
  have chars : front.toList ++ text.toList = first.toList ++ second.toList := by
    rw [← String.toList_append, ← String.toList_append, cut]
  rcases List.append_eq_append_iff.mp chars with ⟨gap, longer, rest⟩ | ⟨more, shorter, rest⟩
  · refine ⟨.ofList gap, second, ?_, ?_⟩
    · rw [← String.toList_inj, String.toList_append, String.toList_ofList, rest]
    · rw [size, ← byteLength_toList first, longer, byteLength_append, byteLength_toList,
        ← byteLength_toList (.ofList gap), String.toList_ofList]
  · refine ⟨"", text, by simp, ?_⟩
    have sizes : front.utf8ByteSize = first.utf8ByteSize + byteLength more := by
      rw [← byteLength_toList front, shorter, byteLength_append, byteLength_toList]
    simp
    omega

end Text

namespace TextEdit

/-- Whether one of two edits ends before the other one starts; they may touch. -/
def Apart (a b : TextEdit) : Prop := a.range.stop ≤ b.range.start ∨ b.range.stop ≤ a.range.start

def InsertTogether (a b : TextEdit) : Prop :=
  a.range.isEmpty ∧ b.range.isEmpty ∧ a.range.start = b.range.start

structure Acceptable (text : String) (edits : List TextEdit) : Prop where
  within : ∀ e ∈ edits, e.range.stop ≤ text.utf8ByteSize
  whole : ∀ e ∈ edits, String.Pos.Raw.IsValid text ⟨e.range.start⟩ ∧
    String.Pos.Raw.IsValid text ⟨e.range.stop⟩
  apart : edits.Pairwise Apart
  inserts : edits.Pairwise fun a b => ¬ InsertTogether a b

/-- Walks along the rest of a text, which begins at an offset: what stands before the next edit is
copied, and its replacement is put in place of its range. -/
inductive Splices : Nat → List TextEdit → String → String → Prop where
  | rest {offset : Nat} (text : String) : Splices offset [] text text
  | edit {offset : Nat} {e : TextEdit} {es : List TextEdit} {gap old text out : String}
      (reached : offset + gap.utf8ByteSize = e.range.start)
      (removed : e.range.start + old.utf8ByteSize = e.range.stop)
      (further : Splices e.range.stop es text out) :
      Splices offset (e :: es) (gap ++ old ++ text) (gap ++ e.replacement ++ out)

theorem Apart.symm {a b : TextEdit} (apart : Apart a b) : Apart b a := Or.symm apart

theorem InsertTogether.symm {a b : TextEdit} (together : InsertTogether a b) : InsertTogether b a :=
  ⟨together.2.1, together.1, together.2.2.symm⟩

theorem Acceptable.perm {text : String} {edits edits' : List TextEdit} (perm : edits.Perm edits') :
    Acceptable text edits ↔ Acceptable text edits' := by
  have one : ∀ {edits edits' : List TextEdit}, edits.Perm edits' → Acceptable text edits →
      Acceptable text edits' := by
    intro edits edits' perm ok
    refine ⟨?_, ?_, ?_, ?_⟩
    · exact fun e member => ok.within e (perm.mem_iff.mpr member)
    · exact fun e member => ok.whole e (perm.mem_iff.mpr member)
    · exact (perm.pairwise_iff Apart.symm).mp ok.apart
    · exact (perm.pairwise_iff fun apart together => apart together.symm).mp ok.inserts
  exact ⟨one perm, one perm.symm⟩

/-! ### Edits in order -/

theorem precedes_iff {a b : TextEdit} :
    a.precedes b ↔ a.range.start < b.range.start ∨
      a.range.start = b.range.start ∧ a.range.stop ≤ b.range.stop := by
  simp [precedes]

theorem precedes_trans (a b c : TextEdit) (h : a.precedes b) (h' : b.precedes c) : a.precedes c := by
  rw [precedes_iff] at *
  omega

theorem precedes_total (a b : TextEdit) : (a.precedes b || b.precedes a) = true := by
  rw [Bool.or_eq_true, precedes_iff, precedes_iff]
  omega

theorem range_eq_of_precedes {a b : TextEdit} (h : a.precedes b) (h' : b.precedes a) :
    a.range = b.range := by
  rw [precedes_iff] at h h'
  apply TextRange.ext <;> omega

theorem sort_ordered (edits : List TextEdit) : (sort edits).Pairwise fun a b => a.precedes b :=
  List.pairwise_mergeSort precedes_trans precedes_total edits

theorem sort_perm (edits : List TextEdit) : (sort edits).Perm edits := List.mergeSort_perm _ _

/-- An edit does not clash with a later one exactly when it ends before it and they do not insert
together. -/
theorem clash_eq_false_iff {a b : TextEdit} :
    a.clash b = false ↔ a.range.stop ≤ b.range.start ∧ ¬ InsertTogether a b := by
  simp [clash, InsertTogether]

theorem clash_eq_false_of_apart {a b : TextEdit} (ordered : a.precedes b) (apart : Apart a b)
    (inserts : ¬ InsertTogether a b) : a.clash b = false := by
  refine clash_eq_false_iff.mpr ⟨?_, inserts⟩
  rcases apart with before | behind
  · exact before
  · have := a.range.start_le_stop
    have := b.range.start_le_stop
    rw [precedes_iff] at ordered
    simp only [InsertTogether, TextRange.isEmpty, decide_eq_true_eq] at inserts
    omega

/-- Among edits in order, where no neighbours clash no two edits do: what reaches into a later edit
reaches into the next one. -/
theorem clash?_eq_none_iff {es : List TextEdit} (ordered : es.Pairwise fun a b => a.precedes b) :
    clash? es = none ↔ es.Pairwise fun a b => a.clash b = false := by
  induction es with
  | nil => simp [clash?]
  | cons a es ih =>
      cases es with
      | nil => simp [clash?]
      | cons b es =>
          obtain ⟨first, later⟩ := List.pairwise_cons.mp ordered
          have behind := (List.pairwise_cons.mp later).1
          rw [clash?, List.pairwise_cons, ← ih later]
          cases near : a.clash b with
          | true => simp [near]
          | false =>
              simp only [Bool.false_eq_true, if_false]
              refine ⟨fun free => ⟨?_, free⟩, And.right⟩
              intro c member
              rcases List.mem_cons.mp member with rfl | member
              · exact near
              · -- everything between two edits that clash is empty and at their common offset
                have := clash_eq_false_iff.mp near
                have := precedes_iff.mp (behind c member)
                have := precedes_iff.mp (first c (List.mem_cons_of_mem b member))
                have := precedes_iff.mp (first b List.mem_cons_self)
                have := a.range.start_le_stop
                have := b.range.start_le_stop
                have := c.range.start_le_stop
                simp only [InsertTogether, TextRange.isEmpty, decide_eq_true_eq] at *
                refine clash_eq_false_iff.mpr ⟨by omega, ?_⟩
                simp only [InsertTogether, TextRange.isEmpty, decide_eq_true_eq]
                omega

theorem misplaced?_eq_none_iff {text : String} {e : TextEdit} :
    misplaced? text.toList e = none ↔ e.range.stop ≤ text.utf8ByteSize ∧
      String.Pos.Raw.IsValid text ⟨e.range.start⟩ ∧ String.Pos.Raw.IsValid text ⟨e.range.stop⟩ := by
  simp only [← Text.isBoundary_iff, ← Text.byteLength_toList, misplaced?]
  split
  · simp; omega
  split
  · simp_all
  split
  · simp_all
  · simp_all

/-- Nothing is found wrong with exactly the acceptable edits. -/
theorem fault?_eq_none_iff {text : String} {es : List TextEdit}
    (ordered : es.Pairwise fun a b => a.precedes b) :
    fault? text.toList es = none ↔ Acceptable text es := by
  rw [fault?, Option.or_eq_none_iff, List.findSome?_eq_none_iff, clash?_eq_none_iff ordered]
  constructor
  · rintro ⟨placed, free⟩
    refine ⟨?_, ?_, ?_, ?_⟩
    · exact fun e member => (misplaced?_eq_none_iff.mp (placed e member)).1
    · exact fun e member => (misplaced?_eq_none_iff.mp (placed e member)).2
    · exact free.imp fun h => .inl (clash_eq_false_iff.mp h).1
    · exact free.imp fun h => (clash_eq_false_iff.mp h).2
  · intro ok
    refine ⟨fun e member => misplaced?_eq_none_iff.mpr ⟨ok.within e member, ok.whole e member⟩, ?_⟩
    refine (ordered.and (ok.apart.and ok.inserts)).imp ?_
    exact fun h => clash_eq_false_of_apart h.1 h.2.1 h.2.2

/-! ### The order in which edits are given -/

/-- An objection is about ranges alone. -/
theorem fault?_congr (text : List Char) {es es' : List TextEdit}
    (ranges : es.map TextEdit.range = es'.map TextEdit.range) : fault? text es = fault? text es' := by
  have placed : ∀ {e e' : TextEdit}, e.range = e'.range → misplaced? text e = misplaced? text e' := by
    intro e e' same
    simp only [misplaced?, same]
  have each : es.findSome? (misplaced? text) = es'.findSome? (misplaced? text) ∧
      clash? es = clash? es' := by
    induction es generalizing es' with
    | nil =>
        cases es' with
        | nil => exact ⟨rfl, rfl⟩
        | cons e es' => cases ranges
    | cons e es ih =>
        cases es' with
        | nil => cases ranges
        | cons e' es' =>
            obtain ⟨same, rest⟩ := List.cons.inj ranges
            obtain ⟨found, clashes⟩ := ih rest
            refine ⟨by simp only [List.findSome?_cons, placed same, found], ?_⟩
            cases es with
            | nil =>
                cases es' with
                | nil => rfl
                | cons f es' => cases rest
            | cons f es =>
                cases es' with
                | nil => cases rest
                | cons f' es' =>
                    have near : e.clash f = e'.clash f' := by
                      simp only [clash, same, (List.cons.inj rest).1]
                    rw [clash?, clash?, near, same, (List.cons.inj rest).1, clashes]
  rw [fault?, fault?, each.1, each.2]

theorem map_range_sort_perm {edits edits' : List TextEdit} (perm : edits.Perm edits') :
    (sort edits).map TextEdit.range = (sort edits').map TextEdit.range := by
  have both : ((sort edits).map TextEdit.range).Perm ((sort edits').map TextEdit.range) :=
    (((sort_perm edits).trans perm).trans (sort_perm edits').symm).map _
  have ordered : ∀ es : List TextEdit, ((sort es).map TextEdit.range).Pairwise fun r s =>
      r.start < s.start ∨ r.start = s.start ∧ r.stop ≤ s.stop :=
    fun es => List.pairwise_map.mpr ((sort_ordered es).imp precedes_iff.mp)
  refine both.eq_of_pairwise ?_ (ordered edits) (ordered edits')
  intro r s _ _ h h'
  apply TextRange.ext <;> omega

/-- Acceptable edits have only one order. -/
theorem Acceptable.ordered_unique {text : String} {es es' : List TextEdit} (ok : Acceptable text es)
    (ordered : es.Pairwise fun a b => a.precedes b) (ordered' : es'.Pairwise fun a b => a.precedes b)
    (perm : es.Perm es') : es = es' := by
  refine perm.eq_of_pairwise ?_ ordered ordered'
  intro a b member member' h h'
  by_contra different
  have same := range_eq_of_precedes h h'
  have : Std.Symm Apart := ⟨fun _ _ => Apart.symm⟩
  have : Std.Symm fun a b => ¬ InsertTogether a b := ⟨fun _ _ apart together => apart together.symm⟩
  have apart := ok.apart.forall member (perm.mem_iff.mpr member') different
  have inserts := ok.inserts.forall member (perm.mem_iff.mpr member') different
  have empty : b.range.isEmpty := by
    have := b.range.start_le_stop
    simp only [Apart, same, or_self] at apart
    simp only [TextRange.isEmpty, decide_eq_true_eq]
    omega
  exact inserts ⟨same ▸ empty, empty, congrArg TextRange.start same⟩

/-! ### The walk -/

/-- Edits that are placed and stand one behind the other can be walked. -/
theorem exists_splices (front text : String) {es : List TextEdit}
    (apart : es.Pairwise fun a b => a.range.stop ≤ b.range.start)
    (behind : ∀ e ∈ es, front.utf8ByteSize ≤ e.range.start)
    (whole : ∀ e ∈ es, String.Pos.Raw.IsValid (front ++ text) ⟨e.range.start⟩ ∧
      String.Pos.Raw.IsValid (front ++ text) ⟨e.range.stop⟩) :
    ∃ out, Splices front.utf8ByteSize es text out := by
  induction es generalizing front text with
  | nil => exact ⟨text, .rest text⟩
  | cons e es ih =>
      obtain ⟨first, later⟩ := List.pairwise_cons.mp apart
      obtain ⟨gap, rest, rfl, reached⟩ :=
        Text.exists_cut (whole e List.mem_cons_self).1 (behind e List.mem_cons_self)
      rw [← String.append_assoc] at whole
      have before : (front ++ gap).utf8ByteSize = e.range.start := by simpa using reached
      obtain ⟨old, rest, rfl, removed⟩ := Text.exists_cut (whole e List.mem_cons_self).2
        (by rw [before]; exact e.range.start_le_stop)
      rw [← String.append_assoc] at whole
      have after : (front ++ gap ++ old).utf8ByteSize = e.range.stop := by simpa using removed
      obtain ⟨out, further⟩ := ih _ _ later (fun b member => after ▸ first b member)
        (fun b member => whole b (List.mem_cons_of_mem e member))
      rw [before] at removed
      rw [← String.append_assoc]
      exact ⟨_, .edit reached removed (after ▸ further)⟩

/-- To join edits that touch does not change the walk. -/
theorem Splices.merge {offset : Nat} {es : List TextEdit} {text out : String}
    (walk : Splices offset es text out) : Splices offset (TextEdit.merge es) text out := by
  have joined : ∀ (es : List TextEdit) {e : TextEdit} {offset : Nat} {text out : String},
      Splices offset (e :: es) text out → Splices offset (TextEdit.join e es) text out := by
    intro es
    induction es with
    | nil => exact fun walk => walk
    | cons b es ih =>
        intro e offset text out walk
        rw [TextEdit.join]
        split
        · next touch =>
            cases walk with
            | @edit _ _ _ gap old _ _ reached removed further =>
                cases further with
                | @edit _ _ _ gap' old' text out reached' removed' further =>
                    obtain rfl : gap' = "" := by
                      rw [← String.utf8ByteSize_eq_zero_iff]
                      omega
                    have text_eq : gap ++ old ++ ("" ++ old' ++ text) =
                        gap ++ (old ++ old') ++ text := by simp [String.append_assoc]
                    have out_eq : gap ++ e.replacement ++ ("" ++ b.replacement ++ out) =
                        gap ++ (e.replacement ++ b.replacement) ++ out := by
                      simp [String.append_assoc]
                    rw [text_eq, out_eq]
                    refine ih (.edit reached ?_ further)
                    change e.range.start + (old ++ old').utf8ByteSize = b.range.stop
                    rw [String.utf8ByteSize_append]
                    omega
        · cases walk with
          | edit reached removed further => exact .edit reached removed (ih further)
  cases es with
  | nil => exact walk
  | cons e es => exact joined es walk

/-- Carried out from the end backwards, the edits make of a text what the walk makes of it. -/
theorem Splices.perform (front : String) {es : List TextEdit} {text out : String}
    (walk : Splices front.utf8ByteSize es text out) :
    TextEdit.perform (front ++ text).toList es = (front ++ out).toList := by
  generalize start : front.utf8ByteSize = offset at walk
  induction walk generalizing front with
  | rest text => rfl
  | @edit offset e es gap old text out reached removed further ih =>
      have before : Text.byteLength (front ++ gap).toList = e.range.start := by
        rw [Text.byteLength_toList, String.utf8ByteSize_append, start, reached]
      have after : Text.byteLength ((front ++ gap).toList ++ old.toList) = e.range.stop := by
        rw [Text.byteLength_append, before, Text.byteLength_toList, removed]
      have rest : TextEdit.perform (front ++ (gap ++ old ++ text)).toList es =
          (front ++ gap).toList ++ old.toList ++ out.toList := by
        have later := ih (front ++ gap ++ old) (by
          rw [← Text.byteLength_toList, String.toList_append, after])
        simpa [String.append_assoc] using later
      rw [TextEdit.perform, List.foldr_cons, ← TextEdit.perform, rest, ← before, ← after,
        Text.replaceBytes_middle]
      simp [String.append_assoc]

/-- Acceptable edits in order stand one behind the other. -/
theorem Acceptable.behind {text : String} {edits : List TextEdit} (ok : Acceptable text edits) :
    (sort edits).Pairwise fun a b => a.range.stop ≤ b.range.start := by
  have sorted : Acceptable text (sort edits) := (Acceptable.perm (sort_perm edits)).mpr ok
  have free := (sort_ordered edits).and (sorted.apart.and sorted.inserts)
  exact free.imp fun h => (clash_eq_false_iff.mp (clash_eq_false_of_apart h.1 h.2.1 h.2.2)).1

/-- There is a walk for acceptable edits. -/
theorem Acceptable.splices {text : String} {edits : List TextEdit} (ok : Acceptable text edits) :
    ∃ result, Splices 0 (sort edits) text result := by
  have sorted : Acceptable text (sort edits) := (Acceptable.perm (sort_perm edits)).mpr ok
  exact exists_splices "" text ok.behind (by simp) (by simpa using sorted.whole)

theorem apply_of_splices {text : String} {edits : List TextEdit} {result : String}
    (ok : Acceptable text edits) (walk : Splices 0 (sort edits) text result) :
    apply text edits = .ok result := by
  have sorted : Acceptable text (sort edits) := (Acceptable.perm (sort_perm edits)).mpr ok
  have faultless := (fault?_eq_none_iff (sort_ordered edits)).mpr sorted
  have performed := walk.merge.perform ""
  simp only [String.empty_append] at performed
  rw [apply, normalize, faultless]
  change Except.ok (String.ofList (perform text.toList (merge (sort edits)))) = _
  rw [performed, String.ofList_toList]

theorem apply_of_not_acceptable {text : String} {edits : List TextEdit}
    (not : ¬ Acceptable text edits) :
    ∃ fault, fault? text.toList (sort edits) = some fault ∧ apply text edits = .error fault := by
  cases found : fault? text.toList (sort edits) with
  | none =>
      have sorted := (fault?_eq_none_iff (sort_ordered edits)).mp found
      exact absurd ((Acceptable.perm (sort_perm edits)).mp sorted) not
  | some fault =>
      refine ⟨fault, rfl, ?_⟩
      rw [apply, normalize, found]
      rfl

theorem acceptable_of_apply {text : String} {edits : List TextEdit} {result : String}
    (done : apply text edits = .ok result) : Acceptable text edits := by
  by_contra not
  obtain ⟨fault, -, failed⟩ := apply_of_not_acceptable not
  rw [failed] at done
  cases done

/-- The order in which edits are given counts neither for the result nor for the objection. -/
theorem apply_perm {text : String} {edits permuted : List TextEdit} (perm : permuted.Perm edits) :
    apply text permuted = apply text edits := by
  by_cases ok : Acceptable text edits
  · have sorted : Acceptable text (sort edits) := (Acceptable.perm (sort_perm edits)).mpr ok
    have only : sort edits = sort permuted := by
      apply sorted.ordered_unique (sort_ordered edits) (sort_ordered permuted)
      exact ((sort_perm edits).trans perm.symm).trans (sort_perm permuted).symm
    rw [apply, normalize, ← only, apply, normalize]
  · have not : ¬ Acceptable text permuted := fun acceptable => ok ((Acceptable.perm perm).mp acceptable)
    obtain ⟨fault, found, failed⟩ := apply_of_not_acceptable ok
    obtain ⟨fault', found', failed'⟩ := apply_of_not_acceptable not
    rw [fault?_congr _ (map_range_sort_perm perm), found] at found'
    rw [failed, failed', Option.some.inj found']

/-- Edits are carried out exactly when they are placed in the text and disjoint; the result is the
walk along the text with the edits in order, and their order in the list does not matter. -/
theorem apply_eq_ok_iff_splices (text : String) (edits : List TextEdit) :
    ((∃ result, apply text edits = .ok result) ↔ Acceptable text edits) ∧
    (∀ result, apply text edits = .ok result ↔ Acceptable text edits ∧
      ∃ ordered, ordered.Perm edits ∧ ordered.Pairwise (fun a b => a.precedes b) ∧
        Splices 0 ordered text result) ∧
    ∀ permuted, permuted.Perm edits → apply text permuted = apply text edits := by
  refine ⟨⟨fun ⟨result, done⟩ => acceptable_of_apply done, fun ok => ?_⟩, fun result => ⟨?_, ?_⟩,
    fun permuted perm => apply_perm perm⟩
  · obtain ⟨result, walk⟩ := ok.splices
    exact ⟨result, apply_of_splices ok walk⟩
  · intro done
    have ok := acceptable_of_apply done
    obtain ⟨walked, walk⟩ := ok.splices
    rw [apply_of_splices ok walk] at done
    obtain rfl := Except.ok.inj done
    exact ⟨ok, sort edits, sort_perm edits, sort_ordered edits, walk⟩
  · rintro ⟨ok, ordered, perm, inOrder, walk⟩
    have sorted : Acceptable text ordered := (Acceptable.perm perm).mpr ok
    have only : ordered = sort edits := by
      apply sorted.ordered_unique inOrder (sort_ordered edits)
      exact perm.trans (sort_perm edits).symm
    exact apply_of_splices ok (only ▸ walk)

/-- Inserts at both edges of a replacement, in a text with characters of one, two and four bytes. -/
theorem apply_eq_ok_iff_splices_edges :
    let edits : List TextEdit := [⟨⟨3, 7, by decide⟩, "+"⟩, ⟨⟨7, 7, by decide⟩, ">"⟩,
      ⟨⟨3, 3, by decide⟩, "<"⟩, ⟨⟨0, 1, by decide⟩, ""⟩]
    edits.reverse.Perm edits ∧ apply "aé😀b" edits.reverse = apply "aé😀b" edits ∧
      apply "aé😀b" edits = .ok "é<+>b" := by
  intro edits
  have perm : edits.reverse.Perm edits := by decide
  have inOrder : sort edits = [edits[3], edits[2], edits[0], edits[1]] := by
    simp [edits, sort, List.mergeSort, List.MergeSort.Internal.splitInTwo, precedes]
  have faultless : fault? "aé😀b".toList [edits[3], edits[2], edits[0], edits[1]] = none := by
    decide
  refine ⟨perm, (apply_eq_ok_iff_splices _ _).2.2 _ perm, ?_⟩
  rw [apply, normalize, inOrder, faultless]
  exact congrArg Except.ok (by decide)

end TextEdit
end SharpRefactor
