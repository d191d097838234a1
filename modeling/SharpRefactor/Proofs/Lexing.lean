import SharpRefactor.Syntax.Lexer
import SharpRefactor.Syntax.Tree

/-!
The tokens of a text, whatever it is. Written one after the other they spell the text, none of them
is empty, and none of them claims to be the end of the text.
-/

namespace SharpRefactor
namespace Kind

theorem ne_eof_of_marks {k : Kind} (h : k ∈ marks) : k ≠ .eof := by
  rintro rfl
  exact absurd h (by decide)

theorem ne_eof_of_ofKeyword? {word : String} {k : Kind} (h : ofKeyword? word = some k) :
    k ≠ .eof := by
  rintro rfl
  exact absurd (List.mem_of_find?_eq_some h) (by decide)

end Kind

namespace Lexer

theorem number_kind (cs : List Char) :
    (number cs).1 = .realLiteral ∨ (number cs).1 = .intLiteral := by
  unfold number
  split
  split
  simp only []
  split
  · exact .inl rfl
  · exact .inr rfl

/-- What holds of every form of a token holds of what is cut. -/
theorem cut_cases {P : Cut → Prop} (c : Char) (cs : List Char)
    (white : Unicode.isWhiteSpace c → P ⟨.whitespace, run Unicode.isWhiteSpace cs, none⟩)
    (line : c = '/' → ∀ p, P ⟨.lineComment, run p cs, none⟩)
    (block : c = '/' → cs.head? = some '*' → ∀ fault,
      P ⟨.blockComment, (blockComment (cs.drop 1)).1 + 1, fault⟩)
    (verbatimText : cs.head? = some '"' → ∀ fault,
      P ⟨.stringLiteral, (verbatim (cs.drop 1)).1 + 1, fault⟩)
    (quotedText : ∀ k ∈ [Kind.stringLiteral, .charLiteral], ∀ quote fault,
      P ⟨k, (quoted quote cs).1, fault⟩)
    (name : c = '@' ∧ startsWith Unicode.isIdentStart cs ∨ Unicode.isIdentStart c ∧
        Kind.ofKeyword? (String.ofList (c :: cs.take (run Unicode.isIdentContinue cs))) = none →
      P ⟨.identifier, run Unicode.isIdentContinue cs, none⟩)
    (keyword : ∀ k, Kind.ofKeyword?
        (String.ofList (c :: cs.take (run Unicode.isIdentContinue cs))) = some k →
      P ⟨k, run Unicode.isIdentContinue cs, none⟩)
    (numeral : P ⟨(number (c :: cs)).1, (number (c :: cs)).2 - 1, none⟩)
    (mark : ∀ k, mark? (c :: cs) = some k → P ⟨k, (Token.fixed k).text.length - 1, none⟩)
    (unknown : P ⟨.error, 0, some (.unexpectedCharacter c)⟩) : P (cut c cs) := by
  rw [cut]
  refine iteInduction (fun here => white here) fun _ => ?_
  refine iteInduction (fun here => line here.1 _) fun _ => ?_
  refine iteInduction (fun here => block here.1 here.2 _) fun _ => ?_
  refine iteInduction (fun here => verbatimText here.2 _) fun _ => ?_
  refine iteInduction (fun here => name (.inl here)) fun _ => ?_
  refine iteInduction (fun start => ?_) fun _ => ?_
  · simp only
    cases word : Kind.ofKeyword? (String.ofList (c :: cs.take (run Unicode.isIdentContinue cs))) with
    | none => exact name (.inr ⟨start, word⟩)
    | some k => exact keyword k word
  refine iteInduction (fun _ => numeral) fun _ => ?_
  refine iteInduction (fun _ => quotedText _ (by simp) _ _) fun _ => ?_
  refine iteInduction (fun _ => quotedText _ (by simp) _ _) fun _ => ?_
  cases found : mark? (c :: cs) with
  | none => exact unknown
  | some k => exact mark k found

/-- No token claims to be the end of the text. -/
theorem cut_kind_ne_eof (c : Char) (cs : List Char) : (cut c cs).kind ≠ .eof := by
  apply cut_cases (P := fun found => found.kind ≠ .eof)
  case keyword => exact fun _ word => Kind.ne_eof_of_ofKeyword? word
  case numeral => rcases number_kind (c :: cs) with h | h <;> simp [h]
  case mark => exact fun _ found => Kind.ne_eof_of_marks (List.mem_of_find?_eq_some found)
  all_goals simp

end Lexer

def spelledChars (ts : List Token) : List Char := ts.flatMap (·.text.toList)

theorem tokensText_eq (ts : List Token) : tokensText ts = String.ofList (spelledChars ts) := by
  induction ts with
  | nil => rfl
  | cons t ts ih =>
      simp only [tokensText, List.map_cons, String.join_cons] at ih ⊢
      rw [ih]
      simp [spelledChars, String.ofList_append]

theorem spelledChars_lexChars (cs : List Char) :
    spelledChars ((lexChars cs).map Lexeme.token) = cs := by
  induction cs using lexChars.induct with
  | case1 => simp [lexChars, spelledChars]
  | case2 c cs found ih =>
      rw [lexChars]
      simp only [spelledChars, List.map_cons, List.flatMap_cons, String.toList_ofList] at ih ⊢
      rw [ih, List.cons_append, List.take_append_drop]

/-- A text is its tokens. -/
theorem tokensText_lex (text : String) : tokensText ((lex text).map Lexeme.token) = text := by
  rw [tokensText_eq, lex, spelledChars_lexChars, String.ofList_toList]

/-- What holds of every token that can be cut, with its fault, holds of those of a text. -/
theorem forall_lexemes {P : Lexeme → Prop}
    (each : ∀ c cs, P ⟨⟨(Lexer.cut c cs).kind, String.ofList (c :: cs.take (Lexer.cut c cs).more)⟩,
      (Lexer.cut c cs).fault⟩)
    (cs : List Char) : ∀ l ∈ lexChars cs, P l := by
  induction cs using lexChars.induct with
  | case1 => simp [lexChars]
  | case2 c cs found ih =>
      rw [lexChars, List.forall_mem_cons]
      exact ⟨each c cs, ih⟩

theorem forall_lexChars {P : Token → Prop}
    (each : ∀ c cs, P ⟨(Lexer.cut c cs).kind, String.ofList (c :: cs.take (Lexer.cut c cs).more)⟩)
    (cs : List Char) : ∀ t ∈ (lexChars cs).map Lexeme.token, P t :=
  List.forall_mem_map.mpr (forall_lexemes (P := fun l => P l.token) each cs)

theorem lex_kind_ne_eof {text : String} {t : Token} (h : t ∈ (lex text).map Lexeme.token) :
    t.kind ≠ .eof :=
  forall_lexChars (P := fun t => t.kind ≠ .eof) Lexer.cut_kind_ne_eof _ t h

end SharpRefactor
