import SharpRefactor.Text.Quoted

/-!
The quoted form of a text says where it ends and what it stands for. A character stands for itself,
or it begins with a backslash and is told by a letter or by a code point in braces; the mark at the
end has none of these forms. So a quoted text can be read back out of whatever follows it.
-/

namespace SharpRefactor.Text

/-- A list can be cut where the first element without a property stands. -/
theorem append_cons_inj {α : Type} {p : α → Bool} {xs ys front back : List α} {a b : α}
    (each : ∀ x ∈ xs, p x) (each' : ∀ y ∈ ys, p y) (ends : p a = false) (ends' : p b = false)
    (same : xs ++ a :: front = ys ++ b :: back) : xs = ys ∧ a = b ∧ front = back := by
  have first := congrArg (List.takeWhile p) same
  have rest := congrArg (List.dropWhile p) same
  rw [List.takeWhile_append_of_pos each, List.takeWhile_append_of_pos each',
    List.takeWhile_cons_of_neg (by simp [ends]), List.takeWhile_cons_of_neg (by simp [ends']),
    List.append_nil, List.append_nil] at first
  rw [List.dropWhile_append_of_pos each, List.dropWhile_append_of_pos each',
    List.dropWhile_cons_of_neg (by simp [ends]), List.dropWhile_cons_of_neg (by simp [ends'])] at rest
  exact ⟨first, List.cons.inj rest⟩

/-! ### Code points -/

theorem brace_ne_digitChar : ∀ d < 16, Nat.digitChar d ≠ '\x7d' := by decide

theorem digitChar_inj : ∀ d < 16, ∀ e < 16, Nat.digitChar d = Nat.digitChar e → d = e := by decide

theorem brace_not_mem_toDigits (n : Nat) : '\x7d' ∉ Nat.toDigits 16 n := by
  induction n using Nat.strongRecOn with
  | ind n ih =>
      rw [Nat.toDigits_eq_if (by decide)]
      split
      · next small => simp [(brace_ne_digitChar n small).symm]
      · next large =>
          have last := brace_ne_digitChar (n % 16) (Nat.mod_lt _ (by decide))
          simpa [last.symm] using ih (n / 16) (by omega)

theorem toDigits_inj {m n : Nat} (same : Nat.toDigits 16 m = Nat.toDigits 16 n) : m = n := by
  induction m using Nat.strongRecOn generalizing n with
  | ind m ih =>
      have last (k : Nat) : k % 16 < 16 := Nat.mod_lt _ (by decide)
      rw [Nat.toDigits_eq_if (by decide), Nat.toDigits_eq_if (n := n) (by decide)] at same
      split at same <;> split at same
      · next small small' => exact digitChar_inj m small n small' (List.singleton_inj.mp same)
      · exact absurd (List.append_eq_singleton_iff.mp same.symm) (by simp [Nat.toDigits_ne_nil])
      · exact absurd (List.append_eq_singleton_iff.mp same) (by simp [Nat.toDigits_ne_nil])
      · obtain ⟨front, digit⟩ := List.append_inj' same rfl
        have high := ih (m / 16) (by omega) front
        have low := digitChar_inj _ (last m) _ (last n) (List.singleton_inj.mp digit)
        omega

/-! ### Characters -/

def letters : List (Char × Char) :=
  [('"', '"'), ('\\', '\\'), ('\n', 'n'), ('\r', 'r'), ('\t', 't'), ('\x00', '0')]

theorem letters_inj : ∀ p ∈ letters, ∀ q ∈ letters, p.2 = q.2 → p.1 = q.1 := by decide

theorem letters_ne : ∀ p ∈ letters, p.2 ≠ 'u' := by decide

theorem escapeCode_eq (c : Char) :
    escapeCode c = '\\' :: 'u' :: '\x7b' :: (Nat.toDigits 16 c.toNat ++ ['\x7d']) := by
  simp [escapeCode]

inductive Stands : Char → List Char → Prop where
  | itself {c : Char} (noEscape : c ≠ '\\') (noMark : c ≠ '"') : Stands c [c]
  | letter {c l : Char} (known : (c, l) ∈ letters) : Stands c ['\\', l]
  | code (c : Char) : Stands c (escapeCode c)

theorem stands_quoteChar (c : Char) : Stands c (quoteChar c) := by
  unfold quoteChar
  split
  case h_7 mark escape _ _ _ _ =>
    split
    · exact .itself escape mark
    · exact .code c
  all_goals exact .letter (by decide)

namespace Stands

variable {c d : Char} {cs ds front back : List Char}

theorem head_ne (stands : Stands c cs) : cs ++ front ≠ '"' :: back := by
  cases stands with
  | itself _ noMark => exact fun same => noMark (List.cons.inj same).1
  | letter => exact fun same => absurd (List.cons.inj same).1 (by decide)
  | code => simp [escapeCode_eq]

/-- A character is read back whatever follows it. -/
theorem inj (first : Stands c cs) (second : Stands d ds) (same : cs ++ front = ds ++ back) :
    c = d ∧ front = back := by
  cases first with
  | itself noEscape =>
      cases second with
      | itself => exact List.cons.inj same
      | letter => exact absurd (List.cons.inj same).1 noEscape
      | code =>
          rw [escapeCode_eq] at same
          exact absurd (List.cons.inj same).1 noEscape
  | letter known =>
      cases second with
      | itself noEscape => exact absurd (List.cons.inj same).1.symm noEscape
      | letter known' =>
          obtain ⟨sameLetter, rest⟩ := List.cons.inj (List.cons.inj same).2
          exact ⟨letters_inj _ known _ known' sameLetter, rest⟩
      | code =>
          rw [escapeCode_eq] at same
          exact absurd (List.cons.inj (List.cons.inj same).2).1 (letters_ne _ known)
  | code =>
      rw [escapeCode_eq] at same
      cases second with
      | itself noEscape => exact absurd (List.cons.inj same).1.symm noEscape
      | letter known =>
          exact absurd (List.cons.inj (List.cons.inj same).2).1.symm (letters_ne _ known)
      | code =>
          have digits : Nat.toDigits 16 c.toNat ++ '\x7d' :: front =
              Nat.toDigits 16 d.toNat ++ '\x7d' :: back := by
            simpa [escapeCode_eq] using same
          have noBrace (n : Nat) : ∀ x ∈ Nat.toDigits 16 n, (x != '\x7d') = true := by
            intro x member
            exact bne_iff_ne.mpr fun brace => brace_not_mem_toDigits n (brace ▸ member)
          obtain ⟨number, -, rest⟩ := append_cons_inj (noBrace _) (noBrace _) (by decide)
            (by decide) digits
          exact ⟨Char.toNat_inj.mp (toDigits_inj number), rest⟩

end Stands

/-- A quoted text is read back whatever follows it. -/
theorem quoteChars_append_inj {cs ds front back : List Char}
    (same : quoteChars cs ++ front = quoteChars ds ++ back) : cs = ds ∧ front = back := by
  have bodies : cs.flatMap quoteChar ++ '"' :: front = ds.flatMap quoteChar ++ '"' :: back := by
    simpa [quoteChars] using same
  clear same
  induction cs generalizing ds with
  | nil =>
      cases ds with
      | nil => exact ⟨rfl, (List.cons.inj bodies).2⟩
      | cons d ds =>
          rw [List.flatMap_cons, List.append_assoc] at bodies
          exact absurd bodies.symm (stands_quoteChar d).head_ne
  | cons c cs ih =>
      rw [List.flatMap_cons, List.append_assoc] at bodies
      cases ds with
      | nil => exact absurd bodies (stands_quoteChar c).head_ne
      | cons d ds =>
          rw [List.flatMap_cons, List.append_assoc] at bodies
          obtain ⟨rfl, later⟩ := (stands_quoteChar c).inj (stands_quoteChar d) bodies
          obtain ⟨rfl, rest⟩ := ih later
          exact ⟨rfl, rest⟩

end SharpRefactor.Text
