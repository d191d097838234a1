import SharpRefactor.Proofs.Parsing.Run

/-!
The scans over types, without the number of steps that bounds them. What a scan passes is a prefix
of the tokens, so every scan has steps to spare and one equation for each form of type describes it.
-/

namespace SharpRefactor

abbrev dropTrivia (ts : List Token) : List Token := ts.dropWhile (·.kind.isTrivia)

@[simp] theorem dropTrivia_drop (ts : List Token) : dropTrivia (dropTrivia ts) = dropTrivia ts := by
  induction ts with
  | nil => rfl
  | cons t ts ih =>
      cases h : t.kind.isTrivia with
      | true => simpa [h] using ih
      | false => simp [h]

namespace Lookahead

def past (ts : List Token) : List Token := (next ts).2

theorem next_eq (ts : List Token) : next ts = (nextKind ts, past ts) := rfl

@[simp] theorem past_nil : past [] = [] := rfl

theorem past_cons_trivia {t : Token} (h : t.isTrivia) (ts : List Token) :
    past (t :: ts) = past ts := by
  simp [past, next, h]

theorem past_cons {t : Token} (h : ¬ t.isTrivia) (ts : List Token) : past (t :: ts) = ts := by
  simp [past, next, h]

theorem past_suffix (ts : List Token) : past ts <:+ ts := by
  induction ts with
  | nil => exact List.suffix_rfl
  | cons t ts ih =>
      cases ht : t.isTrivia with
      | true =>
          rw [past_cons_trivia ht]
          exact ih.trans (List.suffix_cons t ts)
      | false =>
          rw [past_cons (by simp [ht])]
          exact List.suffix_cons t ts

@[simp] theorem nextKind_drop (ts : List Token) : nextKind (dropTrivia ts) = nextKind ts :=
  nextKind_dropTrivia ts

@[simp] theorem past_drop (ts : List Token) : past (dropTrivia ts) = past ts := by
  induction ts with
  | nil => rfl
  | cons t ts ih =>
      rw [dropTrivia, List.dropWhile_cons]
      split
      · next h =>
          rw [past_cons_trivia h]
          exact ih
      · rfl

theorem significant_past (ts : List Token) : significant (past ts) = significant ts - 1 := by
  induction ts with
  | nil => rfl
  | cons t ts ih =>
      cases ht : t.isTrivia with
      | true => simp [past_cons_trivia ht, ih, significant_cons, ht]
      | false => simp [past_cons (by simp [ht] : ¬ t.isTrivia), significant_cons, ht]

theorem significant_le_of_suffix {ts us : List Token} (h : ts <:+ us) :
    significant ts ≤ significant us :=
  h.sublist.countP_le

theorem skipRanks_suffix (n : Nat) (ts : List Token) : skipRanks n ts <:+ ts := by
  induction n generalizing ts with
  | zero => exact List.suffix_rfl
  | succ n ih =>
      rw [skipRanks, next_eq]
      have first := past_suffix ts
      generalize past ts = after at first ⊢
      generalize nextKind ts = k
      cases k <;> try exact List.suffix_rfl
      simp only [next_eq]
      have second := past_suffix after
      generalize past after = beyond at second ⊢
      generalize nextKind after = k
      cases k <;> try exact List.suffix_rfl
      exact (ih beyond).trans (second.trans first)

/-- What a scan leaves is the end of what it was given. -/
theorem scans_suffix (n : Nat) (ts : List Token) :
    (∀ rest, scanType n ts = some rest → rest <:+ ts) ∧ scanArgumentsOf n ts <:+ ts ∧
      scanQualifiers n ts <:+ ts ∧ (∀ rest, scanArguments n ts = some rest → rest <:+ ts) := by
  induction n generalizing ts with
  | zero =>
      refine ⟨fun rest h => ?_, List.suffix_rfl, List.suffix_rfl, fun rest h => ?_⟩
      · simp [scanType] at h
      · simp [scanArguments] at h
  | succ n ih =>
      refine ⟨fun rest h => ?_, ?_, ?_, fun rest h => ?_⟩
      · rw [scanType] at h
        have first := past_suffix ts
        rw [next_eq] at h
        generalize past ts = after at h first
        generalize nextKind ts = k at h
        have ranks := fun us => skipRanks_suffix n us
        cases k
        case identifier =>
          cases h
          exact (ranks _).trans (((ih _).2.2.1).trans (((ih _).2.1).trans first))
        all_goals
          obtain ⟨-, h⟩ := Option.ite_none_right_eq_some.mp h
          cases h
          exact (ranks _).trans first
      · rw [scanArgumentsOf, next_eq]
        have first := past_suffix ts
        generalize past ts = after at first ⊢
        generalize nextKind ts = k
        cases k <;> try exact List.suffix_rfl
        cases h : scanArguments n after with
        | none => simp [h]
        | some rest => simpa [h] using ((ih after).2.2.2 rest h).trans first
      · rw [scanQualifiers, next_eq]
        have first := past_suffix ts
        generalize past ts = after at first ⊢
        generalize nextKind ts = k
        cases k <;> try exact List.suffix_rfl
        simp only [next_eq]
        have second := past_suffix after
        generalize past after = beyond at second ⊢
        generalize nextKind after = k
        cases k <;> try exact List.suffix_rfl
        exact ((ih _).2.2.1).trans (((ih _).2.1).trans (second.trans first))
      · rw [scanArguments] at h
        cases scanned : scanType n ts with
        | none => simp [scanned] at h
        | some after =>
            have first := (ih ts).1 after scanned
            simp only [scanned, next_eq] at h
            have second := past_suffix after
            generalize past after = beyond at h second
            generalize nextKind after = k at h
            cases k <;> try cases h
            · exact ((ih beyond).2.2.2 rest h).trans (second.trans first)
            · exact second.trans first

theorem skipRanks_steps {n m : Nat} {ts : List Token} (hn : significant ts ≤ n)
    (hm : significant ts ≤ m) : skipRanks n ts = skipRanks m ts := by
  have ended : ∀ (n : Nat) (ts : List Token), nextKind ts = .eof → skipRanks n ts = ts := by
    intro n ts ended
    cases n with
    | zero => rfl
    | succ n => simp [skipRanks, next_eq, ended]
  induction n generalizing m ts with
  | zero =>
      have ended' : nextKind ts = .eof := nextKind_of_significant (by omega)
      rw [ended _ ts ended', ended _ ts ended']
  | succ n ih =>
      cases m with
      | zero =>
          have ended' : nextKind ts = .eof := nextKind_of_significant (by omega)
          rw [ended _ ts ended', ended _ ts ended']
      | succ m =>
          have fewer := significant_past ts
          rw [skipRanks, skipRanks, next_eq]
          generalize past ts = after at fewer ⊢
          generalize nextKind ts = k
          cases k <;> try rfl
          have fewer' := significant_past after
          simp only [next_eq]
          generalize past after = beyond at fewer' ⊢
          generalize nextKind after = k
          cases k <;> try rfl
          exact ih (by omega) (by omega)

/-- Beyond the tokens left, the number of steps of a scan does not matter. -/
theorem scans_steps (n m : Nat) (ts : List Token) :
    (2 * significant ts < n → 2 * significant ts < m → scanType n ts = scanType m ts) ∧
      (2 * significant ts < n → 2 * significant ts < m →
        scanArgumentsOf n ts = scanArgumentsOf m ts) ∧
      (2 * significant ts < n → 2 * significant ts < m →
        scanQualifiers n ts = scanQualifiers m ts) ∧
      (2 * significant ts + 1 < n → 2 * significant ts + 1 < m →
        scanArguments n ts = scanArguments m ts) := by
  -- Each token that is passed costs two steps at most. Only a list of arguments has one step more to
  -- spend, on going to its first type before anything is passed.
  induction n generalizing m ts with
  | zero => exact ⟨by omega, by omega, by omega, by omega⟩
  | succ n ih =>
      cases m with
      | zero => exact ⟨by omega, by omega, by omega, by omega⟩
      | succ m =>
      have first := significant_past ts
      have more := @significant_pos ts
      refine ⟨fun hn hm => ?_, fun hn hm => ?_, fun hn hm => ?_, fun hn hm => ?_⟩
      · rw [scanType, scanType, next_eq]
        generalize past ts = after at first ⊢
        generalize nextKind ts = k at more ⊢
        cases k
        case identifier =>
          have pos := more (by simp)
          simp only
          have arguments := (ih m after).2.1 (by omega) (by omega)
          have fewer := significant_le_of_suffix (scans_suffix m after).2.1
          rw [arguments]
          generalize scanArgumentsOf m after = us at fewer ⊢
          have qualifiers := (ih m us).2.2.1 (by omega) (by omega)
          have fewer' := significant_le_of_suffix (scans_suffix m us).2.2.1
          rw [qualifiers, skipRanks_steps (n := n) (m := m) (by omega) (by omega)]
        all_goals
          have ranks : skipRanks n after = skipRanks m after := skipRanks_steps (by omega) (by omega)
          simp only [ranks]
      · rw [scanArgumentsOf, scanArgumentsOf, next_eq]
        generalize past ts = after at first ⊢
        generalize nextKind ts = k at more ⊢
        cases k <;> try rfl
        have pos := more (by simp)
        simp only [(ih m after).2.2.2 (by omega) (by omega)]
      · rw [scanQualifiers, scanQualifiers, next_eq]
        generalize past ts = after at first ⊢
        generalize nextKind ts = k at more ⊢
        cases k <;> try rfl
        have pos := more (by simp)
        have second := significant_past after
        simp only [next_eq]
        generalize past after = beyond at second ⊢
        generalize nextKind after = k
        cases k <;> try rfl
        have fewer := significant_le_of_suffix (scans_suffix m beyond).2.1
        simp only [(ih m beyond).2.1 (by omega) (by omega)]
        exact (ih m _).2.2.1 (by omega) (by omega)
      · rw [scanArguments, scanArguments, (ih m ts).1 (by omega) (by omega)]
        cases scanned : scanType m ts with
        | none => rfl
        | some rest =>
            have fewer := significant_le_of_suffix ((scans_suffix m ts).1 rest scanned)
            have second := significant_past rest
            have more' := @significant_pos rest
            simp only [next_eq]
            generalize past rest = beyond at second ⊢
            generalize nextKind rest = k at more' ⊢
            cases k <;> try rfl
            have pos := more' (by simp)
            exact (ih m beyond).2.2.2 (by omega) (by omega)

/-! The scans with steps to spare. -/

def afterArgumentsOf (ts : List Token) : List Token := scanArgumentsOf (steps ts) ts

def afterQualifiers (ts : List Token) : List Token := scanQualifiers (steps ts) ts

def afterArguments? (ts : List Token) : Option (List Token) := scanArguments (steps ts) ts

def afterRanks (ts : List Token) : List Token := skipRanks (steps ts) ts

theorem scanType_eq {n : Nat} {ts : List Token} (h : 2 * significant ts < n) :
    scanType n ts = afterType? ts :=
  (scans_steps n _ ts).1 h (by unfold steps; omega)

theorem scanArgumentsOf_eq {n : Nat} {ts : List Token} (h : 2 * significant ts < n) :
    scanArgumentsOf n ts = afterArgumentsOf ts :=
  (scans_steps n _ ts).2.1 h (by unfold steps; omega)

theorem scanQualifiers_eq {n : Nat} {ts : List Token} (h : 2 * significant ts < n) :
    scanQualifiers n ts = afterQualifiers ts :=
  (scans_steps n _ ts).2.2.1 h (by unfold steps; omega)

theorem scanArguments_eq {n : Nat} {ts : List Token} (h : 2 * significant ts + 1 < n) :
    scanArguments n ts = afterArguments? ts :=
  (scans_steps n _ ts).2.2.2 h (by unfold steps; omega)

theorem skipRanks_eq {n : Nat} {ts : List Token} (h : significant ts ≤ n) :
    skipRanks n ts = afterRanks ts :=
  skipRanks_steps h (by unfold steps; omega)

/-! One equation for each form. -/

section Forms

variable {ts : List Token}

theorem afterType?_name (h : nextKind ts = .identifier) :
    afterType? ts = some (afterRanks (afterQualifiers (afterArgumentsOf (past ts)))) := by
  have pos : 0 < significant ts := significant_pos (by simp [h])
  have first := significant_past ts
  have fewer := significant_le_of_suffix (scans_suffix (4 * significant ts + 3) (past ts)).2.1
  rw [scanArgumentsOf_eq (by omega)] at fewer
  have fewer' := significant_le_of_suffix
    (scans_suffix (4 * significant ts + 3) (afterArgumentsOf (past ts))).2.2.1
  rw [scanQualifiers_eq (by omega)] at fewer'
  rw [afterType?, steps, scanType, next_eq, h]
  simp only
  rw [scanArgumentsOf_eq (by omega), scanQualifiers_eq (by omega), skipRanks_eq (by omega)]

theorem afterType?_keyword (h : (nextKind ts).isPredefinedType) :
    afterType? ts = some (afterRanks (past ts)) := by
  have first := significant_past ts
  have ranks : skipRanks (4 * significant ts + 3) (past ts) = afterRanks (past ts) :=
    skipRanks_eq (by omega)
  rw [afterType?, steps, scanType, next_eq]
  generalize nextKind ts = k at h
  cases k <;> first | exact congrArg some ranks | cases h

theorem afterType?_of_ne (name : nextKind ts ≠ .identifier)
    (keyword : (nextKind ts).isPredefinedType = false) : afterType? ts = none := by
  rw [afterType?, steps, scanType, next_eq]
  generalize nextKind ts = k at name keyword
  cases k <;> first | rfl | exact absurd rfl name | cases keyword

theorem afterArgumentsOf_less (h : nextKind ts = .less) :
    afterArgumentsOf ts = (afterArguments? (past ts)).getD ts := by
  have pos : 0 < significant ts := significant_pos (by simp [h])
  have first := significant_past ts
  rw [afterArgumentsOf, steps, scanArgumentsOf, next_eq, h]
  simp only
  rw [scanArguments_eq (by omega)]

theorem afterArgumentsOf_of_ne (h : nextKind ts ≠ .less) : afterArgumentsOf ts = ts := by
  rw [afterArgumentsOf, steps, scanArgumentsOf, next_eq]
  generalize nextKind ts = k at h
  cases k <;> first | rfl | exact absurd rfl h

theorem afterQualifiers_dot (h : nextKind ts = .dot) (name : nextKind (past ts) = .identifier) :
    afterQualifiers ts = afterQualifiers (afterArgumentsOf (past (past ts))) := by
  have pos : 0 < significant ts := significant_pos (by simp [h])
  have first := significant_past ts
  have second := significant_past (past ts)
  have fewer := significant_le_of_suffix
    (scans_suffix (4 * significant ts + 3) (past (past ts))).2.1
  rw [scanArgumentsOf_eq (by omega)] at fewer
  rw [afterQualifiers, steps, scanQualifiers, next_eq, h]
  simp only
  rw [next_eq, name]
  simp only
  rw [scanArgumentsOf_eq (by omega), scanQualifiers_eq (by omega)]

theorem afterQualifiers_of_ne (h : nextKind ts = .dot → nextKind (past ts) ≠ .identifier) :
    afterQualifiers ts = ts := by
  rw [afterQualifiers, steps, scanQualifiers, next_eq]
  generalize nextKind ts = k at h
  cases k <;> try rfl
  have h := h rfl
  simp only [next_eq]
  generalize nextKind (past ts) = k at h
  cases k <;> first | rfl | exact absurd rfl h

theorem afterRanks_rank (h : nextKind ts = .lBracket) (closed : nextKind (past ts) = .rBracket) :
    afterRanks ts = afterRanks (past (past ts)) := by
  have first := significant_past ts
  have second := significant_past (past ts)
  rw [afterRanks, steps, skipRanks, next_eq, h]
  simp only
  rw [next_eq, closed]
  simp only
  rw [skipRanks_eq (by omega)]

theorem afterRanks_of_ne (h : nextKind ts = .lBracket → nextKind (past ts) ≠ .rBracket) :
    afterRanks ts = ts := by
  rw [afterRanks, steps, skipRanks, next_eq]
  generalize nextKind ts = k at h
  cases k <;> try rfl
  have h := h rfl
  simp only [next_eq]
  generalize nextKind (past ts) = k at h
  cases k <;> first | rfl | exact absurd rfl h

theorem afterArguments?_eq_some_iff {rest : List Token} :
    afterArguments? ts = some rest ↔ ∃ after, afterType? ts = some after ∧
      (nextKind after = .comma ∧ afterArguments? (past after) = some rest ∨
        nextKind after = .greater ∧ past after = rest) := by
  rw [afterArguments?, steps, scanArguments, scanType_eq (by omega)]
  cases scanned : afterType? ts with
  | none => simp
  | some after =>
      have fewer := significant_le_of_suffix ((scans_suffix _ ts).1 after scanned)
      have second := significant_past after
      simp only [next_eq, Option.some.injEq, exists_eq_left']
      have go : scanArguments (4 * significant ts + 3) (past after) =
          afterArguments? (past after) := scanArguments_eq (by omega)
      generalize nextKind after = k
      cases k <;> simp [go]

theorem afterTypeArguments?_eq : afterTypeArguments? ts =
    if nextKind (past ts) = .less then afterArguments? (past (past ts)) else none := by
  have second : next ts = (nextKind ts, past ts) := rfl
  rw [afterTypeArguments?, second]
  simp only [next_eq, afterArguments?]
  generalize nextKind (past ts) = k
  cases k <;> rfl

end Forms

theorem afterType?_suffix {ts rest : List Token} (h : afterType? ts = some rest) : rest <:+ ts :=
  (scans_suffix _ ts).1 rest h

theorem afterArgumentsOf_suffix (ts : List Token) : afterArgumentsOf ts <:+ ts :=
  (scans_suffix _ ts).2.1

theorem afterRanks_suffix (ts : List Token) : afterRanks ts <:+ ts := skipRanks_suffix _ ts

end Lookahead
end SharpRefactor
