import SharpRefactor.Proofs.Parsing.Depth.Declarations

/-!
The depth to which constructs are read does not matter once it is beyond the weight of the
construct: every construct met inside another one is lighter than it. So the bound that the parser
reads to is no bound on what it accepts, and the rules of the grammar always come to an end.
-/

namespace SharpRefactor
namespace Construct

/-- A construct is heavier than every construct met inside it. -/
theorem rule_fits {read : Construct → ParseState → ParseState} {c : Construct} {s : ParseState}
    (reads : Parse.Reads read (c.weight s)) : c.rule.Fits read (c.weight s) s := by
  cases c with
  | namespaceBody braced => exact Parse.fits_namespaceBody reads (by simp [weight, rank]) braced
  | usings => exact Parse.fits_usings reads (by simp [weight])
  | namespaceMembers braced => exact Parse.fits_namespaceMembers reads (by simp [weight]) braced
  | typeParameters => exact Parse.fits_typeParameters reads (by simp [weight])
  | baseTypes => exact Parse.fits_baseTypes reads (by simp [weight, rank])
  | members => exact Parse.fits_members reads (by simp [weight, rank])
  | accessors => exact Parse.fits_accessors reads (by simp [weight])
  | parameters => exact Parse.fits_parameters reads (by simp [weight, rank])
  | block => exact Parse.fits_block reads (Nat.le_refl _)
  | statements => exact Parse.fits_statements reads (by simp [weight, rank])
  | statement => exact Parse.fits_statement reads (by simp [weight, rank])
  | declarators => exact Parse.fits_declarators reads (by simp [weight])
  | type => exact Parse.fits_type reads (by simp [weight])
  | qualifiers => exact Parse.fits_qualifiers reads (by simp [weight])
  | ranks => exact Parse.fits_ranks reads (by simp [weight])
  | typeArguments => exact Parse.fits_typeArguments reads (by simp [weight, rank])
  | expression power => exact Parse.fits_expression reads (by simp [weight, rank]) power
  | operators power => exact Parse.fits_operators reads (by simp [weight]) power
  | unary => exact Parse.fits_unary reads (by simp [weight, rank])
  | suffixes => exact Parse.fits_suffixes reads (by simp [weight])
  | arguments => exact Parse.fits_arguments reads (by simp [weight, rank])

/-- Beyond the weight of a construct the depth it is read to does not matter. -/
theorem read_deeper {d d' : Nat} {c : Construct} {s : ParseState} (h : c.weight s < d)
    (h' : c.weight s < d') : c.read d s = c.read d' s := by
  induction d generalizing d' c s with
  | zero => omega
  | succ d ih =>
      obtain ⟨d', rfl⟩ : ∃ e, d' = e + 1 := ⟨d' - 1, by omega⟩
      have agree : ∀ (c' : Construct) (s' : ParseState), c'.weight s' < c.weight s →
          c'.read d s' = c'.read d' s' := fun c' s' light => ih (by omega) (by omega)
      have fits := rule_fits (reads (c.weight s) d (by omega))
      simp only [read, Parse.run_congr agree c.rule s fits]

/-- Reading to a depth beyond the weight is following the rule. -/
theorem read_rule {d : Nat} {c : Construct} {s : ParseState} (h : c.weight s < d) :
    c.read d s = (c.rule.run (read d) s).2 :=
  read_deeper h (Nat.lt_succ_of_lt h)

end Construct
end SharpRefactor
