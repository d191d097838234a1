import SharpRefactor.Proofs.Lexing.Tiling
import SharpRefactor.Proofs.Syntax.Names

/-!
A token stands by itself. Every form of token looks at characters behind its own: the digit after a
point, the quote after a sign, the second quote of a pair, the line feed after a backslash, the
letters after a number. Where the text is cut off at the end of the token, or anywhere behind it,
each of those looks falls the same way, so the text of a token alone is that token again, fault and
all.
-/

namespace SharpRefactor

open Unicode

namespace Lexer

/-! ### A front part that holds what is read reads alike -/

section Readers

variable {cs : List Char} {n : Nat}

theorem eq_append_of_take {ds : List Char} (front : cs.take n = ds) : cs = ds ++ cs.drop n := by
  rw [← front, List.take_append_drop]

theorem run_take {p : Char → Bool} (within : run p cs ≤ n) : run p (cs.take n) = run p cs := by
  induction cs generalizing n with
  | nil => rw [List.take_nil]
  | cons c cs ih =>
      unfold run at within ih ⊢
      rw [List.takeWhile_cons] at within ⊢
      split at within
      · next goesOn =>
        obtain ⟨n, rfl⟩ : ∃ m, n = m + 1 := ⟨n - 1, by simp at within; omega⟩
        rw [List.take_succ_cons, List.takeWhile_cons_of_pos goesOn, List.length_cons,
          ih (Nat.le_of_succ_le_succ within), if_pos goesOn, List.length_cons]
      · next stops =>
        rw [if_neg stops]
        cases n with
        | zero => rfl
        | succ n => rw [List.take_succ_cons, List.takeWhile_cons_of_neg stops]

theorem blockComment_take (within : (blockComment cs).1 ≤ n) :
    blockComment (cs.take n) = blockComment cs := by
  fun_induction blockComment cs generalizing n with
  | case1 cs =>
    obtain ⟨n, rfl⟩ : ∃ m, n = m + 2 := ⟨n - 2, by simp at within; omega⟩
    rfl
  | case2 c cs other k closed inside ih =>
    obtain ⟨n, rfl⟩ : ∃ m, n = m + 1 := ⟨n - 1, by simp at within; omega⟩
    rw [List.take_succ_cons, blockComment, ih (by simpa [inside] using within), inside]
    exact fun ds star slash => other _ star (eq_append_of_take slash)
  | case3 => simp [blockComment]

theorem quoted_take {quote : Char} (real : quote ≠ '\\') (within : (quoted quote cs).1 ≤ n) :
    quoted quote (cs.take n) = quoted quote cs := by
  fun_induction quoted quote cs generalizing n with
  | case1 => simp [quoted]
  | case2 cs =>
    obtain ⟨n, rfl⟩ : ∃ m, n = m + 1 := ⟨n - 1, by simp at within; omega⟩
    cases n <;> simp [quoted, real.symm]
  | case3 c cs notFeed k closed inside ih =>
    obtain ⟨n, rfl⟩ : ∃ m, n = m + 2 := ⟨n - 2, by simp at within; omega⟩
    simp [quoted, notFeed, inside, ih (n := n) (by simpa [inside] using within)]
  | case4 cs plain =>
    obtain ⟨n, rfl⟩ : ∃ m, n = m + 1 := ⟨n - 1, by simp at within; omega⟩
    rw [List.take_succ_cons, quoted, if_pos rfl]
    exact fun d ds back => absurd back real
  | case5 c cs plain notQuote ends =>
    cases n with
    | zero => rfl
    | succ n =>
      rw [List.take_succ_cons, quoted, if_neg notQuote, if_pos ends]
      rintro d ds rfl
      simp at ends
  | case6 c cs plain notQuote goesOn k closed inside ih =>
    obtain ⟨n, rfl⟩ : ∃ m, n = m + 1 := ⟨n - 1, by simp at within; omega⟩
    rw [List.take_succ_cons, quoted, if_neg notQuote, if_neg goesOn,
      ih (by simpa [inside] using within), inside]
    exact fun d ds back next => plain d _ back (eq_append_of_take next)

theorem verbatim_take (within : (verbatim cs).1 ≤ n) : verbatim (cs.take n) = verbatim cs := by
  fun_induction verbatim cs generalizing n with
  | case1 cs k closed inside ih =>
    obtain ⟨n, rfl⟩ : ∃ m, n = m + 2 := ⟨n - 2, by simp at within; omega⟩
    simp [verbatim, inside, ih (n := n) (by simpa [inside] using within)]
  | case2 cs alone =>
    obtain ⟨n, rfl⟩ : ∃ m, n = m + 1 := ⟨n - 1, by simp at within; omega⟩
    rw [List.take_succ_cons, verbatim]
    exact fun ds next => alone _ (eq_append_of_take next)
  | case3 c cs _ notQuote k closed inside ih =>
    obtain ⟨n, rfl⟩ : ∃ m, n = m + 1 := ⟨n - 1, by simp at within; omega⟩
    rw [List.take_succ_cons, verbatim, ih (by simpa [inside] using within), inside]
    · exact fun _ quote _ => notQuote quote
    · exact notQuote
  | case4 => simp [verbatim]

/-- A point without a digit behind it is no fraction, in the text or cut off from it. -/
theorem fraction_eq_zero {cs : List Char}
    (other : ∀ d ds, cs = '.' :: d :: ds → d.isDigit = false) : fraction cs = 0 := by
  unfold fraction
  split
  · rw [other _ _ rfl]; rfl
  · rfl

theorem fraction_take (within : fraction cs ≤ n) : fraction (cs.take n) = fraction cs := by
  by_cases point : ∃ d ds, cs = '.' :: d :: ds ∧ d.isDigit
  · obtain ⟨d, ds, rfl, digit⟩ := point
    have first : run isDigitOrLine (d :: ds) = run isDigitOrLine ds + 1 := by
      simp [run, isDigitOrLine, digit]
    simp only [fraction, digit, if_true] at within
    obtain ⟨n, rfl⟩ : ∃ m, n = m + 2 := ⟨n - 2, by omega⟩
    have digits := run_take (show run isDigitOrLine (d :: ds) ≤ n + 1 by omega)
    rw [List.take_succ_cons] at digits
    simp only [List.take_succ_cons, fraction, digit, if_true, digits]
  · have none : ∀ d ds, cs = '.' :: d :: ds → d.isDigit = false := by
      intro d ds front
      exact Bool.eq_false_iff.mpr fun digit => point ⟨d, ds, front, digit⟩
    rw [fraction_eq_zero none]
    exact fraction_eq_zero fun d ds front => none d _ (eq_append_of_take front)

theorem exponent_take (within : exponent cs ≤ n) : exponent (cs.take n) = exponent cs := by
  cases cs with
  | nil => rw [List.take_nil]
  | cons e cs =>
    by_cases mark : e = 'e' ∨ e = 'E'
    · simp only [exponent, if_pos mark] at within
      obtain ⟨n, rfl⟩ : ∃ m, n = m + 1 := ⟨n - 1, by omega⟩
      have sign : run (fun c => c = '+' || c = '-') ((cs.take n).take 1) =
          run (fun c => c = '+' || c = '-') (cs.take 1) := by
        rw [List.take_take, Nat.min_comm, ← List.take_take]
        exact run_take (by omega)
      simp only [List.take_succ_cons, exponent, if_pos mark, sign, List.drop_take]
      rw [run_take (p := Char.isDigit) (by omega)]
    · cases n <;> simp [exponent, mark]

theorem suffix_take (within : (suffix cs).1 ≤ n) : suffix (cs.take n) = suffix cs := by
  cases cs with
  | nil => rw [List.take_nil]
  | cons c cs =>
    by_cases real : c ∈ ['f', 'F', 'd', 'D', 'm', 'M']
    · rw [suffix, if_pos real] at within
      obtain ⟨n, rfl⟩ : ∃ m, n = m + 1 := ⟨n - 1, by simp at within; omega⟩
      rw [List.take_succ_cons, suffix, if_pos real, suffix, if_pos real]
    · rw [suffix, if_neg real] at within ⊢
      have letters := run_take within
      cases n with
      | zero => rw [← letters]; rfl
      | succ n =>
        rw [List.take_succ_cons] at letters ⊢
        rw [suffix, if_neg real, letters]

theorem isPrefixOf_take {w : List Char} (fits : w.isPrefixOf cs → w.length ≤ n) :
    w.isPrefixOf (cs.take n) = w.isPrefixOf cs := by
  rw [Bool.eq_iff_iff, List.isPrefixOf_iff_prefix, List.isPrefixOf_iff_prefix, List.prefix_take_iff]
  rw [List.isPrefixOf_iff_prefix] at fits
  exact ⟨And.left, fun front => ⟨front, fits front⟩⟩

/-- The length of a number without its suffix, and whether it has a fraction or an exponent. -/
def body (cs : List Char) : Nat × Bool :=
  if ['0', 'x'].isPrefixOf cs || ['0', 'X'].isPrefixOf cs then
    (2 + run (fun c => isHexDigit c || c = '_') (cs.drop 2), false)
  else
    let whole := run isDigitOrLine cs
    let part := fraction (cs.drop whole)
    let power := exponent (cs.drop (whole + part))
    (whole + part + power, 0 < part + power)

theorem number_eq (cs : List Char) :
    number cs =
      (if (body cs).2 || (suffix (cs.drop (body cs).1)).2 then .realLiteral else .intLiteral,
        (body cs).1 + (suffix (cs.drop (body cs).1)).1) :=
  rfl

theorem body_take (within : (body cs).1 ≤ n) : body (cs.take n) = body cs := by
  by_cases hex : ['0', 'x'].isPrefixOf cs || ['0', 'X'].isPrefixOf cs
  · simp only [body, hex, if_true] at within
    have mark (w : List Char) (two : w.length = 2) : w.isPrefixOf (cs.take n) = w.isPrefixOf cs :=
      isPrefixOf_take fun _ => by omega
    rw [body, body, mark _ rfl, mark _ rfl, if_pos hex, if_pos hex, List.drop_take,
      run_take (by omega)]
  · have mark (w : List Char) (no : ¬ w.isPrefixOf cs) : w.isPrefixOf (cs.take n) = w.isPrefixOf cs :=
      isPrefixOf_take fun yes => absurd yes no
    rw [Bool.or_eq_true, not_or] at hex
    simp only [body, hex, Bool.or_self, Bool.false_eq_true, if_false] at within
    rw [body, body, mark _ hex.1, mark _ hex.2, if_neg (by simp [hex]), if_neg (by simp [hex])]
    have whole : run isDigitOrLine (cs.take n) = run isDigitOrLine cs := run_take (by omega)
    have part : fraction ((cs.drop (run isDigitOrLine cs)).take (n - run isDigitOrLine cs)) =
        fraction (cs.drop (run isDigitOrLine cs)) := fraction_take (by omega)
    simp only [whole, List.drop_take, part]
    rw [exponent_take (by omega)]

theorem number_take (within : (number cs).2 ≤ n) : number (cs.take n) = number cs := by
  rw [number_eq] at within
  have front : body (cs.take n) = body cs := body_take (by omega)
  rw [number_eq, front, List.drop_take, suffix_take (by omega), ← number_eq]

theorem mark?_take {k : Kind} (found : mark? cs = some k) (within : (Token.fixed k).text.length ≤ n) :
    mark? (cs.take n) = some k := by
  obtain ⟨fits, before, after, listed, longer⟩ := List.find?_eq_some_iff_append.mp found
  refine List.find?_eq_some_iff_append.mpr ⟨?_, before, after, listed, fun m member => ?_⟩
  · rwa [isPrefixOf_take fun _ => within]
  · have no := longer m member
    rw [Bool.not_eq_true'] at no ⊢
    rw [isPrefixOf_take fun yes => by simp [no] at yes, no]

theorem mark?_take_none (unknown : mark? cs = none) : mark? (cs.take n) = none := by
  rw [mark?, List.find?_eq_none] at unknown ⊢
  intro k listed fits
  rw [isPrefixOf_take fun yes => absurd yes (unknown k listed)] at fits
  exact unknown k listed fits

theorem head?_take (some : 0 < n) : (cs.take n).head? = cs.head? := by
  rw [List.head?_take, if_neg (Nat.pos_iff_ne_zero.mp some)]

theorem head?_of_take {d : Char} (front : (cs.take n).head? = some d) : cs.head? = some d := by
  rw [List.head?_take] at front
  split at front
  · cases front
  · exact front

theorem startsWith_take {p : Char → Bool} (begins : startsWith p (cs.take n)) : startsWith p cs := by
  rw [startsWith, List.head?_take] at begins
  split at begins
  · cases begins
  · exact begins

theorem startsWith_mono {p q : Char → Bool} (every : ∀ {c}, p c → q c) (begins : startsWith p cs) :
    startsWith q cs := by
  rw [startsWith, Option.any_eq_true] at begins ⊢
  obtain ⟨c, front, yes⟩ := begins
  exact ⟨c, front, every yes⟩

theorem run_pos {p : Char → Bool} (begins : startsWith p cs) : 0 < run p cs := by
  cases cs with
  | nil => cases begins
  | cons c cs =>
    have first : p c := by simpa [startsWith] using begins
    simp [run, List.takeWhile_cons_of_pos first]

/-- A number that begins with its point takes the digit behind it. -/
theorem number_point (begins : startsWith Char.isDigit cs) : 2 ≤ (number ('.' :: cs)).2 := by
  cases cs with
  | nil => cases begins
  | cons d cs =>
    have digit : d.isDigit = true := by simpa [startsWith] using begins
    have first : 0 < run isDigitOrLine (d :: cs) := run_pos (by simp [startsWith, isDigitOrLine, digit])
    have whole : run isDigitOrLine ('.' :: d :: cs) = 0 := by rfl
    have length : 2 ≤ (body ('.' :: d :: cs)).1 := by
      simp [body, List.isPrefixOf, whole, fraction, digit]
      omega
    rw [number_eq]
    omega

end Readers

/-- Choices that fall alike on a text and on its front part. -/
theorem ite_take {A A' : Prop} [Decidable A] [Decidable A'] {f f' g g' : Cut} {n : Nat}
    (kept : A → f.more ≤ n → A') (only : A' → A) (yes : A → f.more ≤ n → f' = f)
    (no : ¬ A → g.more ≤ n → g' = g) (within : (if A then f else g).more ≤ n) :
    (if A' then f' else g') = if A then f else g := by
  by_cases h : A
  · rw [if_pos h] at within ⊢
    rw [if_pos (kept h within), yes h within]
  · rw [if_neg h] at within ⊢
    rw [if_neg (h ∘ only), no h within]

theorem cut_take {c : Char} {cs : List Char} {n : Nat} (within : (cut c cs).more ≤ n) :
    cut c (cs.take n) = cut c cs := by
  rw [cut] at within
  rw [cut, cut]
  refine ite_take (fun h _ => h) id (fun _ within => ?_) (fun _ => ?_) within
  · rw [run_take within]
  refine ite_take (fun marks within => ⟨marks.1, ?_⟩) (And.imp_right head?_of_take)
    (fun _ within => ?_) (fun _ => ?_)
  · have some : 0 < n := Nat.lt_of_lt_of_le (run_pos (by rw [startsWith, marks.2]; rfl)) within
    exact (head?_take some).trans marks.2
  · rw [run_take within]
  refine ite_take (fun marks within => ⟨marks.1, ?_⟩) (And.imp_right head?_of_take)
    (fun _ within => ?_) (fun _ => ?_)
  · exact (head?_take (Nat.zero_lt_of_lt within)).trans marks.2
  · rw [List.drop_take, blockComment_take (Nat.le_sub_of_add_le within)]
  refine ite_take (fun marks within => ⟨marks.1, ?_⟩) (And.imp_right head?_of_take)
    (fun _ within => ?_) (fun _ => ?_)
  · exact (head?_take (Nat.zero_lt_of_lt within)).trans marks.2
  · rw [List.drop_take, verbatim_take (Nat.le_sub_of_add_le within)]
  refine ite_take (fun sign within => ⟨sign.1, ?_⟩) (And.imp_right startsWith_take)
    (fun _ within => ?_) (fun _ => ?_)
  · have letters : 0 < run isIdentContinue cs :=
      run_pos (startsWith_mono isIdentContinue_of_isIdentStart sign.2)
    rw [startsWith, head?_take (Nat.lt_of_lt_of_le letters within)]
    exact sign.2
  · rw [run_take within]
  refine ite_take (fun h _ => h) id (fun _ within => ?_) (fun _ => ?_)
  · have letters : run isIdentContinue cs ≤ n := within
    simp only [run_take letters, List.take_take, Nat.min_eq_left letters]
  refine ite_take (fun first within => ?_) (Or.imp_right (And.imp_right startsWith_take))
    (fun _ within => ?_) (fun _ => ?_)
  · rcases first with digit | ⟨rfl, digit⟩
    · exact .inl digit
    · have fits : (number ('.' :: cs)).2 - 1 ≤ n := within
      have some : 0 < n := by have := number_point digit; omega
      exact .inr ⟨rfl, by rwa [startsWith, head?_take some]⟩
  · have fits : (number (c :: cs)).2 ≤ n + 1 := Nat.le_add_of_sub_le within
    rw [← List.take_succ_cons, number_take fits]
  refine ite_take (fun h _ => h) id (fun _ within => ?_) (fun _ => ?_)
  · rw [quoted_take (by decide) within]
  refine ite_take (fun h _ => h) id (fun _ within => ?_) (fun _ => ?_)
  · rw [quoted_take (by decide) within]
  intro within
  cases found : mark? (c :: cs) with
  | none => rw [← List.take_succ_cons, mark?_take_none found]
  | some k =>
    rw [found] at within
    rw [← List.take_succ_cons, mark?_take found (Nat.le_add_of_sub_le within)]

/-- The only spelling of a kind is what was cut as that kind. -/
theorem cut_fixedText {c : Char} {cs : List Char} {w : String} :
    (cut c cs).kind.fixedText? = some w → String.ofList (c :: cs.take (cut c cs).more) = w := by
  apply cut_cases (P := fun found => found.kind.fixedText? = some w →
    String.ofList (c :: cs.take found.more) = w)
  case keyword =>
    intro k word fixed
    exact Option.some.inj ((Kind.fixedText?_of_ofKeyword? word).symm.trans fixed)
  case numeral => rcases number_kind (c :: cs) with h | h <;> rw [h] <;> exact nofun
  case mark =>
    intro k found fixed
    have filled : ∀ k ∈ Kind.marks, 0 < (Token.fixed k).text.length := by decide
    have front := mark?_begins found
    have text : (Token.fixed k).text = w := by rw [Token.fixed, fixed]; rfl
    have some : w.length - 1 + 1 = w.length :=
      Nat.sub_add_cancel (text ▸ filled k (List.mem_of_find?_eq_some found))
    rw [text] at front ⊢
    rw [← List.take_succ_cons, some, ← String.length_toList, ← List.prefix_iff_eq_take.mp front,
      String.ofList_toList]
  case quotedText =>
    have free : ∀ k ∈ [Kind.stringLiteral, .charLiteral], k.fixedText? = none := by decide
    intro k listed _ _ fixed
    cases (free k listed).symm.trans fixed
  all_goals intros; contradiction

end Lexer

/-- A word that is read as an identifier is not reserved. -/
theorem Token.ofKeyword?_of_word {w : String} (plain : Token.word w = ⟨.identifier, w⟩) :
    Kind.ofKeyword? w = none := by
  cases word : Kind.ofKeyword? w with
  | none => rfl
  | some k =>
    have kind : k = .identifier := by simpa [Token.word, word] using plain
    subst kind
    exact absurd (List.mem_of_find?_eq_some word) (by decide)

/-- What is cut from the front of a text is all there is to cut from it alone. -/
theorem lexChars_take (c : Char) (cs : List Char) :
    lexChars (c :: cs.take (Lexer.cut c cs).more) =
      [⟨⟨(Lexer.cut c cs).kind, String.ofList (c :: cs.take (Lexer.cut c cs).more)⟩,
        (Lexer.cut c cs).fault⟩] := by
  rw [lexChars, Lexer.cut_take (Nat.le_refl _), List.take_take, Nat.min_self, List.drop_take,
    Nat.sub_self, List.take_zero, lexChars]

/-- The text of a token decides the token: by itself it is that one token again, with the same fault
or none. A kind with one spelling is only ever spelt so, and no identifier spells a reserved
word. -/
theorem lex_alone (text : String) : ∀ l ∈ lex text,
    lex l.token.text = [l] ∧
    (∀ w, l.token.kind.fixedText? = some w → l.token.text = w) ∧
    (l.token.kind = .identifier → Kind.ofKeyword? l.token.text = none) := by
  refine forall_lexemes (fun c cs => ⟨?_, fun w => Lexer.cut_fixedText, fun kind => ?_⟩) text.toList
  · rw [lex, String.toList_ofList, lexChars_take]
  · exact Token.ofKeyword?_of_word (Lexer.cut_identifier_word kind).2

/-- A string that a line feed ends in spite of the backslash in front of it, behind a number with an
exponent but no digit in it, and a point that no digit follows. -/
theorem lex_alone_backslash :
    let found := lex "1e+.\"a\\\nb"
    ⟨⟨.stringLiteral, "\"a\\"⟩, some .unterminatedString⟩ ∈ found ∧
      ⟨⟨.dot, "."⟩, none⟩ ∈ found ∧
      lex "\"a\\" = [⟨⟨.stringLiteral, "\"a\\"⟩, some .unterminatedString⟩] ∧
      lex "." = [⟨⟨.dot, "."⟩, none⟩] := by
  intro found
  obtain ⟨string, point⟩ : ⟨⟨.stringLiteral, "\"a\\"⟩, some .unterminatedString⟩ ∈ found ∧
      ⟨⟨.dot, "."⟩, none⟩ ∈ found := by decide +kernel
  exact ⟨string, point, (lex_alone _ _ string).1, (lex_alone _ _ point).1⟩

end SharpRefactor
