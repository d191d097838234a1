import SharpRefactor.Proofs.Syntax.Paths

/-!
The nodes on the open level. Moving tokens adds none, closing a level brings those inside to those
outside, and wrapping it makes one node of which something must hold.
-/

namespace SharpRefactor
namespace ParseState

variable {own : Kind → Forest → Prop} {s : ParseState}

def Every (own : Kind → Forest → Prop) (s : ParseState) : Prop := ∀ t ∈ s.level, t.Every own

theorem every_opened (s : ParseState) : s.opened.Every own := List.forall_mem_nil _

theorem every_start (ts : List Token) : (start ts).Every own := List.forall_mem_nil _

namespace Every

theorem takeWhile (every : s.Every own) (p : Kind → Bool) : (s.takeWhile p).Every own :=
  forall_level_takeWhile .leaf every p

theorem trivia (every : s.Every own) : s.trivia.Every own := every.takeWhile _

theorem takeOne (every : s.Every own) : s.takeOne.Every own := forall_level_takeOne .leaf every

theorem closed {siblings : List Tree} (inside : s.Every own) (outside : ∀ t ∈ siblings, t.Every own) :
    (s.closed siblings).Every own :=
  List.forall_mem_append.mpr ⟨inside, outside⟩

theorem wrapped {k : Kind} (inside : s.Every own) (here : own k s.level.reverse) :
    (s.wrapped k).Every own :=
  List.forall_mem_singleton.mpr (.node here fun t member => inside t (List.mem_reverse.mp member))

end Every
end ParseState

/-- A file is read as its root is closed: what holds of the nodes that are left on the level holds
of the nodes in the parts of the file. -/
theorem every_children_parse {own : Kind → Forest → Prop} {text : String}
    (read : (readFile ((lex text).map Lexeme.token)).Every own) :
    ∀ t ∈ (parse text).root.children, t.Every own := by
  intro t member
  simp only [parse, Tree.children, List.mem_reverse] at member
  exact read t member

theorem every_parse {own : Kind → Forest → Prop} {text : String}
    (read : (readFile ((lex text).map Lexeme.token)).Every own)
    (file : ∀ ts, own .compilationUnit ts) : (parse text).root.Every own :=
  .node (file _) fun t member => read t (List.mem_reverse.mp member)

end SharpRefactor
