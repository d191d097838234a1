import SharpRefactor.Proofs.Syntax.Extents

/-!
Siblings stand one behind the other, so at most one of them covers a range that is not empty, and
what stands inside the others does not.
-/

namespace SharpRefactor

namespace TextRange

variable {r outer inner : TextRange}

theorem covers_iff : outer.covers inner ↔ outer.start ≤ inner.start ∧ inner.stop ≤ outer.stop := by
  simp [covers]

theorem covers_trans (first : outer.covers r) (second : r.covers inner) : outer.covers inner := by
  rw [covers_iff] at first second ⊢
  omega

/-- To contain the byte at an offset is to cover the range of this one byte. -/
theorem covers_byte (r : TextRange) (offset : Nat) :
    r.covers (.ofSize offset 1) = r.contains offset := rfl

theorem byte_real (offset : Nat) : (ofSize offset 1).isEmpty = false := by simp [isEmpty]

theorem start_lt_stop (real : r.isEmpty = false) : r.start < r.stop :=
  Nat.lt_of_le_of_ne r.start_le_stop (of_decide_eq_false real)

end TextRange

theorem placeTokens_append (ts us : List Token) (offset : Nat) :
    placeTokens offset (ts ++ us) =
      placeTokens offset ts ++ placeTokens (offset + (tokensText ts).utf8ByteSize) us := by
  induction ts generalizing offset with
  | nil => rfl
  | cons t ts ih =>
      have first : (tokensText (t :: ts)).utf8ByteSize = t.size + (tokensText ts).utf8ByteSize := by
        rw [← List.singleton_append, tokensText_append, String.utf8ByteSize_append]
        rfl
      rw [List.cons_append, placeTokens, placeTokens, ih, first, ← Nat.add_assoc, List.cons_append]

mutual

def Tree.leavesAt : Tree → Nat → Nat → List Place → List Node
  | .leaf t, start, index, above => [⟨⟨.leaf t, start, index⟩, above⟩]
  | .node k ts, start, index, above =>
    Forest.leavesAt ts start 0 (⟨.node k ts, start, index⟩ :: above)

def Forest.leavesAt : Forest → Nat → Nat → List Place → List Node
  | [], _, _, _ => []
  | t :: ts, start, index, above =>
    t.leavesAt start index above ++ Forest.leavesAt ts (start + t.size) (index + 1) above

end

def Node.leaves (n : Node) : List Node := n.tree.leavesAt n.start n.index n.above

/-- The tokens of a node are its leaves, each where the ones in front of it end. -/
theorem Node.leaves_eq (n : Node) :
    n.leaves.filterMap (fun leaf => leaf.tree.token?.map (·, leaf.range)) =
      placeTokens n.start n.tree.tokens := by
  obtain ⟨⟨t, start, index⟩, above⟩ := n
  induction t using Tree.induct generalizing start index above with
  | leaf token => rfl
  | node k ts ih =>
      have side : ∀ (us : Forest) (start index : Nat) (above : List Place), (∀ u ∈ us, u ∈ ts) →
          (Forest.leavesAt us start index above).filterMap
            (fun leaf => leaf.tree.token?.map (·, leaf.range)) = placeTokens start us.tokens := by
        intro us
        induction us with
        | nil => exact fun _ _ _ _ => rfl
        | cons u us ihs =>
            intro start index above each
            have first := ih u (each u List.mem_cons_self) above start index
            have rest := ihs (start + u.size) (index + 1) above fun v later =>
              each v (List.mem_cons_of_mem u later)
            rw [Forest.leavesAt, List.filterMap_append, rest, Forest.tokens_cons, placeTokens_append,
              ← Tree.text, ← Tree.size_eq]
            exact congrArg (· ++ _) first
      exact side ts start 0 _ fun _ member => member

namespace Forest

theorem size_of_mem_places {ts : Forest} {start index : Nat} {p : Place}
    (member : p ∈ places start index ts) : start ≤ p.start ∧ p.stop ≤ start + Forest.size ts := by
  induction ts generalizing start index with
  | nil => cases member
  | cons t ts ih =>
      rw [size_cons]
      rcases List.mem_cons.mp member with rfl | later
      · exact ⟨Nat.le_refl _, Nat.add_le_add_left (Nat.le_add_right ..) _⟩
      · have rest := ih later
        omega

/-- Siblings stand one behind the other. -/
theorem places_apart (ts : Forest) (start index : Nat) :
    (places start index ts).Pairwise fun p q => p.stop ≤ q.start := by
  induction ts generalizing start index with
  | nil => exact .nil
  | cons t ts ih => exact .cons (fun q later => (size_of_mem_places later).1) (ih ..)

/-- Every byte of trees side by side is in one of them. -/
theorem exists_place {ts : Forest} {start offset : Nat} (index : Nat) (after : start ≤ offset)
    (before : offset < start + Forest.size ts) :
    ∃ p ∈ places start index ts, p.range.contains offset := by
  induction ts generalizing start index with
  | nil => exact absurd before (by simpa using after)
  | cons t ts ih =>
      by_cases first : offset < start + t.size
      · refine ⟨⟨t, start, index⟩, List.mem_cons_self, ?_⟩
        simp [Place.range, TextRange.contains, after, first]
      · rw [size_cons, ← Nat.add_assoc] at before
        obtain ⟨p, later, holds⟩ := ih (index + 1) (Nat.le_of_not_lt first) before
        exact ⟨p, List.mem_cons_of_mem _ later, holds⟩

theorem nodesAt_eq_flatMap (ts : Forest) (start index : Nat) (above : List Place) :
    nodesAt ts start index above =
      (places start index ts).flatMap fun p => p.tree.nodesAt p.start p.index above := by
  induction ts generalizing start index with
  | nil => rfl
  | cons t ts ih => exact congrArg (_ ++ ·) (ih ..)

theorem leavesAt_eq_flatMap (ts : Forest) (start index : Nat) (above : List Place) :
    leavesAt ts start index above =
      (places start index ts).flatMap fun p => p.tree.leavesAt p.start p.index above := by
  induction ts generalizing start index with
  | nil => rfl
  | cons t ts ih => exact congrArg (_ ++ ·) (ih ..)

end Forest

section Apart

variable {r : TextRange} {ps : List Place} {p : Place}

/-- A place in front of one that reaches a range does not reach it. -/
theorem Place.not_covers_of_stop_le {q : Place} (real : r.isEmpty = false) (apart : q.stop ≤ p.start)
    (covers : p.range.covers r) : q.range.covers r = false := by
  have lt := TextRange.start_lt_stop real
  have reach := (TextRange.covers_iff.mp covers).1
  refine Bool.eq_false_iff.mpr fun other => ?_
  have within := (TextRange.covers_iff.mp other).2
  change p.start ≤ r.start at reach
  change r.stop ≤ q.stop at within
  omega

/-- Of what stands inside places that are apart, only what is inside a single one covers a range. -/
theorem filter_flatMap_covers {inside : Place → List Node}
    (within : ∀ p, ∀ m ∈ inside p, p.range.covers m.range) (real : r.isEmpty = false)
    (apart : ps.Pairwise fun p q => p.stop ≤ q.start) :
    (ps.flatMap inside).filter (·.range.covers r) =
      ((ps.find? (·.range.covers r)).elim [] inside).filter (·.range.covers r) := by
  have passes (q : Place) (misses : q.range.covers r = false) :
      (inside q).filter (·.range.covers r) = [] := by
    refine List.filter_eq_nil_iff.mpr fun m member covers => ?_
    rw [TextRange.covers_trans (within q m member) covers] at misses
    cases misses
  induction apart with
  | nil => rfl
  | @cons p ps behind _ ih =>
      rw [List.flatMap_cons, List.filter_append]
      cases covers : p.range.covers r with
      | false => rw [List.find?_cons_of_neg (by simp [covers]), passes p covers, List.nil_append, ih]
      | true =>
          have rest : (ps.flatMap inside).filter (·.range.covers r) = [] := by
            rw [ih, List.find?_eq_none.mpr]
            · rfl
            · intro q later other
              have misses := Place.not_covers_of_stop_le real (behind q later) other
              rw [covers] at misses
              cases misses
          rw [List.find?_cons_of_pos (by exact covers), rest, List.append_nil]
          rfl

namespace Node

theorem candidate?_mem (found : candidate? r ps = some p) : p ∈ ps := by
  have front : ∀ q, (ps.takeWhile (·.stop ≤ r.start)).getLast? = some q → q ∈ ps := fun q last =>
    (List.takeWhile_sublist _).mem (List.mem_of_getLast? last)
  unfold candidate? at found
  simp only at found
  split at found
  · next q back rest =>
      have member : q ∈ ps :=
        (List.dropWhile_sublist (·.stop ≤ r.start)).mem (rest ▸ List.mem_cons_self)
      split at found
      · cases found
        exact member
      · rcases Option.or_eq_some_iff.mp found with last | ⟨-, self⟩
        · exact front p last
        · cases self
          exact member
  · exact front p found

/-- A place that covers a range is what the range reaches into. -/
theorem candidate?_of_covers (real : r.isEmpty = false)
    (apart : ps.Pairwise fun p q => p.stop ≤ q.start) (member : p ∈ ps) (covers : p.range.covers r) :
    candidate? r ps = some p := by
  obtain ⟨front, back, rfl⟩ := List.append_of_mem member
  have lt := TextRange.start_lt_stop real
  obtain ⟨reach, within⟩ := TextRange.covers_iff.mp covers
  change p.start ≤ r.start at reach
  change r.stop ≤ p.stop at within
  have passed : ∀ q ∈ front, decide (q.stop ≤ r.start) = true := fun q before => by
    have apart := (List.pairwise_append.mp apart).2.2 q before p List.mem_cons_self
    exact decide_eq_true (by omega)
  have stays : ¬ decide (p.stop ≤ r.start) = true := by
    rw [decide_eq_true_eq]
    omega
  unfold candidate?
  simp only
  rw [List.dropWhile_append_of_pos passed, List.dropWhile_cons_of_neg (by exact stays)]
  exact if_pos (by omega)

end Node
end Apart

end SharpRefactor
