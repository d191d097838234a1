import SharpRefactor.Proofs.Types.Answers.Conversions
import SharpRefactor.Proofs.Types.Answers.Expressions

/-!
What answers about nodes are built from. The questions about one node lead to nodes around it and to
nodes inside those, so it is enough to say which type parameters may occur at each node and that a
node passes what may occur at it on to the nodes inside. Every rule by which an answer is found then
stays within that, and so do all answers, by induction on how deep the questions go.
-/

namespace SharpRefactor
namespace Table

variable {t : Table} {v : View} {keys : TypeKey → Prop} {stray : String → Prop}
  (closed : t.Closed keys stray) (fits : v.Fits t stray)

include closed fits

theorem judge_within (n : Nat) : (t.judge n).Within v keys := by
  induction n with
  | zero => exact ⟨fun _ _ _ found => (nomatch found), fun _ _ _ found => (nomatch found)⟩
  | succ n ih =>
      exact ⟨fun m good d found =>
          ⟨denotesWith_plain found, denotesWith_built closed fits ih good found⟩,
        fun m good type found => targetWith_built closed fits ih good found⟩

/-- The type of a node is built from what its view allows. -/
theorem typeOf?_built {n : Node} {type : Ty} (good : v.good n) (found : t.typeOf? n = some type) :
    type.BuiltFrom keys (v.sees n) := by
  have within := judge_within closed fits maxDepth
  have asked : v.Passes (n.memberAccessOfName?.getD n) n := by
    cases access : n.memberAccessOfName? with
    | none => exact .refl good
    | some m =>
        obtain ⟨-, access⟩ := Option.ite_none_right_eq_some.mp access
        exact (View.Passes.refl good).parent fits (Option.filter_eq_some_iff.mp access).1
  unfold typeOf? at found
  dsimp only at found
  split at found
  case h_1 denoted | h_2 denoted =>
    cases found
    exact within.denotes_at asked.reaches denoted
  case h_3 | h_4 => exact within.target_at asked (Option.filter_eq_some_iff.mp found).1
  case h_5 | h_6 => cases found

end Table
end SharpRefactor
