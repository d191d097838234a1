import Mathlib.Data.List.Infix
import SharpRefactor.Proofs.Types.Dotted

/-!
The namespaces around a node, read off the headers of the declarations around it. The names in all
these headers, from the outermost one in, make one path, and the namespaces in scope are the ways to
it, the longest first; it does not count where one header ends and the next begins. The directives
of a header are in scope with its last name only.
-/

namespace SharpRefactor

namespace Node

def headers (n : Node) : List Node := (n.ancestors.filter (·.kind == .namespaceDeclaration)).reverse

def spaces (n : Node) : List String :=
  ((n.ancestors.filter (·.kind == .namespaceDeclaration)).reverse).flatMap fun header =>
    Dotted.segments (Scope.headerPath header)

end Node

namespace Scope

def headerNames (header : Node) : List String := Dotted.segments (headerPath header)

theorem headerNames_ne_empty (header : Node) : ∀ w ∈ headerNames header, w ≠ "" :=
  Dotted.segments_ne_empty _

/-- Whether some namespaces are those on the way to a path, the longest first. -/
def Lead (spaces : List NamespaceScope) (path : List String) : Prop :=
  spaces.map (·.name) = path.inits.reverse.map Dotted.ofSegments

variable {header : Node} {names path : List String} {space : NamespaceScope}
  {spaces : List NamespaceScope}

theorem inits_concat (path : List String) (w : String) :
    (path ++ [w]).inits.reverse = (path ++ [w]) :: path.inits.reverse := by
  simp [List.inits_append]

namespace Lead

theorem innermost (lead : Lead spaces path) : innermost spaces = Dotted.ofSegments path := by
  have first : spaces.head?.map (·.name) = some (Dotted.ofSegments path) := by
    rw [← List.head?_map, show spaces.map (·.name) = _ from lead]
    rcases List.eq_nil_or_concat path with rfl | ⟨front, w, rfl⟩
    · rfl
    · rw [List.concat_eq_append, inits_concat]
      rfl
  rw [Scope.innermost, first]
  rfl

theorem cons {w : String} (lead : Lead spaces path)
    (named : space.name = Dotted.ofSegments (path ++ [w])) : Lead (space :: spaces) (path ++ [w]) := by
  rw [Lead, inits_concat, List.map_cons, List.map_cons, named, show spaces.map (·.name) = _ from lead]

theorem enterAll (lead : Lead spaces path) (before : ∀ w ∈ path, w ≠ "") (each : ∀ w ∈ names, w ≠ "") :
    Lead (enterAll header names spaces) (path ++ names) := by
  induction names generalizing spaces path with
  | nil => rwa [List.append_nil]
  | cons w names ih =>
      rw [List.forall_mem_cons] at each
      have entered : Dotted.join (Scope.innermost spaces) w = Dotted.ofSegments (path ++ [w]) := by
        rw [lead.innermost, Dotted.join_ofSegments before]
      cases names with
      | nil => exact lead.cons ((name_withUsings _ _).trans entered)
      | cons v names =>
          have before' : ∀ w' ∈ path ++ [w], w' ≠ "" := by
            simpa [or_imp, forall_and] using ⟨before, each.1⟩
          rw [List.append_cons]
          exact ih (lead.cons entered) before' each.2

theorem foldl_enter {headers : List Node} (lead : Lead spaces path) (before : ∀ w ∈ path, w ≠ "") :
    Lead (headers.foldl enter spaces) (path ++ headers.flatMap headerNames) := by
  induction headers generalizing spaces path with
  | nil => simpa using lead
  | cons header headers ih =>
      rw [List.foldl_cons, List.flatMap_cons, ← List.append_assoc]
      refine ih (lead.enterAll before (headerNames_ne_empty header)) ?_
      exact List.forall_mem_append.mpr ⟨before, headerNames_ne_empty header⟩

end Lead

theorem lead_global (n : Node) : Lead [global n] [] := by
  simp [Lead, global_name, Dotted.ofSegments]

/-- The namespaces around a node are the ways to the path that the headers around it make. -/
theorem namespacesAt_lead (n : Node) : Lead (namespacesAt n) n.spaces :=
  (lead_global n).foldl_enter (by simp)

theorem namespaceAt_eq (n : Node) : namespaceAt n = Dotted.ofSegments n.spaces :=
  (namespacesAt_lead n).innermost

/-! ### Directives -/

/-- The namespace that a header opens inside a path, when all but some of its last names are read:
the directives come with the last name. -/
def opened (header : Node) (path : List String) (left : Nat) : NamespaceScope :=
  let names := headerNames header
  let name := Dotted.ofSegments (path ++ names.take (names.length - left))
  if left = 0 then .withUsings name header else .bare name

theorem enterAll_eq (before : ∀ w ∈ path, w ≠ "") (each : ∀ w ∈ names, w ≠ "")
    (inner : innermost spaces = Dotted.ofSegments path) :
    enterAll header names spaces = ((List.range names.length).map fun left =>
      let name := Dotted.ofSegments (path ++ names.take (names.length - left))
      if left = 0 then .withUsings name header else .bare name) ++ spaces := by
  induction names generalizing spaces path with
  | nil => rfl
  | cons w names ih =>
      rw [List.forall_mem_cons] at each
      have entered : Dotted.join (innermost spaces) w = Dotted.ofSegments (path ++ [w]) := by
        rw [inner, Dotted.join_ofSegments before]
      cases names with
      | nil => simp [enterAll, entered]
      | cons v names =>
          have before' : ∀ w' ∈ path ++ [w], w' ≠ "" := by
            simpa [or_imp, forall_and] using ⟨before, each.1⟩
          rw [enterAll, entered, ih before' each.2 rfl, List.length_cons (a := w), List.range_succ,
            List.map_append, List.append_assoc]
          congr 1
          · refine List.map_congr_left fun left member => ?_
            have within := List.mem_range.mp member
            have more : (v :: names).length + 1 - left = (v :: names).length - left + 1 := by omega
            simp only [more, List.take_succ_cons, List.append_assoc, List.singleton_append]
          · simp

theorem enter_eq_opened (before : ∀ w ∈ path, w ≠ "")
    (inner : innermost spaces = Dotted.ofSegments path) :
    enter spaces header =
      ((List.range (headerNames header).length).map (opened header path)) ++ spaces :=
  enterAll_eq before (headerNames_ne_empty header) inner

/-- As many namespaces come to those around as there are names in the headers. -/
theorem foldl_enter_eq_append (headers : List Node) (spaces : List NamespaceScope) :
    ∃ front, headers.foldl enter spaces = front ++ spaces ∧
      front.length = (headers.flatMap headerNames).length := by
  have all : ∀ (header : Node) (names : List String) (spaces : List NamespaceScope),
      ∃ front, enterAll header names spaces = front ++ spaces ∧ front.length = names.length := by
    intro header names
    induction names with
    | nil => exact fun spaces => ⟨[], rfl, rfl⟩
    | cons w names ih =>
        intro spaces
        cases names with
        | nil => exact ⟨[_], rfl, rfl⟩
        | cons v names =>
            obtain ⟨front, entered, length⟩ :=
              ih (.bare (Dotted.join (innermost spaces) w) :: spaces)
            refine ⟨front ++ [.bare (Dotted.join (innermost spaces) w)], ?_, by simp [length]⟩
            rw [enterAll, entered, List.append_assoc, List.singleton_append]
  induction headers generalizing spaces with
  | nil => exact ⟨[], rfl, rfl⟩
  | cons header headers ih =>
      obtain ⟨own, entered, length⟩ := all header (headerNames header) spaces
      obtain ⟨front, rest, length'⟩ := ih (enter spaces header)
      refine ⟨front ++ own, ?_, ?_⟩
      · rw [List.foldl_cons, rest, List.append_assoc]
        exact congrArg (front ++ ·) entered
      · simp only [List.length_append, List.flatMap_cons, length, length']
        omega

/-- The global namespace is the last one, and each header has its names in a row before the names of
the headers around it. -/
theorem namespacesAt_opened (n : Node) :
    (namespacesAt n).getLast? = some (global n) ∧
      ∀ before header after, n.headers = before ++ header :: after →
        ∀ left < (headerNames header).length,
          (namespacesAt n)[(after.flatMap headerNames).length + left]? =
            some (opened header (before.flatMap headerNames) left) := by
  constructor
  · obtain ⟨front, all, -⟩ := foldl_enter_eq_append n.headers [global n]
    rw [show namespacesAt n = n.headers.foldl enter [global n] from rfl, all]
    simp
  · intro before header after split left within
    have lead : Lead (before.foldl enter [global n]) (before.flatMap headerNames) :=
      (lead_global n).foldl_enter (by simp)
    have nonempty : ∀ w ∈ before.flatMap headerNames, w ≠ "" := by
      intro w member
      obtain ⟨h, -, named⟩ := List.mem_flatMap.mp member
      exact headerNames_ne_empty h w named
    obtain ⟨front, entered, length⟩ :=
      foldl_enter_eq_append after (enter (before.foldl enter [global n]) header)
    rw [show namespacesAt n = n.headers.foldl enter [global n] from rfl, split, List.foldl_append,
      List.foldl_cons, entered, ← length, List.getElem?_append_right (Nat.le_add_right ..),
      Nat.add_sub_cancel_left, enter_eq_opened nonempty lead.innermost,
      List.getElem?_append_left (by simpa using within)]
    simp [within]

end Scope
end SharpRefactor
