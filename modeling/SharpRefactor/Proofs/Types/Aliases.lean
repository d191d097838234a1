import Mathlib.Data.Prod.Lex
import SharpRefactor.Types.Lookup

/-!
Names that lead through aliases come to an end. The look-up of types and namespaces is a system of
four questions that ask one another, and the target of an alias may be any spelling, one that names
the alias itself included. But the target is read without the directives that the alias stands
among, so each alias that is followed leaves fewer namespaces with aliases in scope. The questions
thus have answers in one way only, and the bounded look-up finds them.
-/

namespace SharpRefactor

/-- A question about names in a scope: the type that a spelling means, the type that a simple name
or one behind a dot means, and the namespace that a spelling means. -/
inductive Inquiry where
  | type (s : Scope) (a : TypeSyntax)
  | name (s : Scope) (name : String) (args : List Ty)
  | member (s : Scope) (left : TypeSyntax) (name : String) (args : List Ty)
  | space (s : Scope) (a : TypeSyntax)

namespace Inquiry

def scope : Inquiry → Scope
  | .type s _ | .name s _ _ | .member s _ _ _ | .space s _ => s

abbrev Answer : Inquiry → Type
  | .space _ _ => String
  | _ => Ty

inductive Asks : Inquiry → Inquiry → Prop where
  | simple (s : Scope) (name : String) : Asks (.type s (.simple name)) (.name s name [])
  | generic (s : Scope) (name : String) (args : List TypeSyntax) (types : List Ty) :
      Asks (.type s (.generic name args)) (.name s name types)
  | argument (s : Scope) (name : String) {args : List TypeSyntax} {a : TypeSyntax} (own : a ∈ args) :
      Asks (.type s (.generic name args)) (.type s a)
  | member (s : Scope) (left : TypeSyntax) (name : String) :
      Asks (.type s (.qualified left (.simple name))) (.member s left name [])
  | genericMember (s : Scope) (left : TypeSyntax) (name : String) (args : List TypeSyntax)
      (types : List Ty) :
      Asks (.type s (.qualified left (.generic name args))) (.member s left name types)
  | memberArgument (s : Scope) (left : TypeSyntax) (name : String) {args : List TypeSyntax}
      {a : TypeSyntax} (own : a ∈ args) :
      Asks (.type s (.qualified left (.generic name args))) (.type s a)
  | element (s : Scope) (element : TypeSyntax) (rank : Nat) :
      Asks (.type s (.array element rank)) (.type s element)
  | container (s : Scope) (left : TypeSyntax) (name : String) (args : List Ty) :
      Asks (.member s left name args) (.type s left)
  | space (s : Scope) (left : TypeSyntax) (name : String) (args : List Ty) :
      Asks (.member s left name args) (.space s left)

/-- A question follows an alias: it asks what the target means in the scope that belongs to it. -/
inductive Follows : Inquiry → Inquiry → Prop where
  | type {s : Scope} {name : String} {i : Nat} {space : NamespaceScope} {target : TypeSyntax}
      (visible : s.namespaces[i]? = some space) (given : (name, target) ∈ space.aliases) :
      Follows (.name s name []) (.type (s.forAlias i) target)
  | space {s : Scope} {a : TypeSyntax} {path : String} {i : Nat} {space : NamespaceScope}
      {target : TypeSyntax} (spelt : a.path? = some path) (visible : s.namespaces[i]? = some space)
      (given : ((Dotted.cutFirst path).1, target) ∈ space.aliases) :
      Follows (.space s a) (.space (s.forAlias i) target)

def Calls (p q : Inquiry) : Prop := p.Asks q ∨ p.Follows q

/-- A question leads to another one, and `n` aliases are followed on the way. -/
inductive Leads : Nat → Inquiry → Inquiry → Prop where
  | start (p : Inquiry) : Leads 0 p p
  | asks {n : Nat} {p q r : Inquiry} (led : Leads n p q) (asks : q.Asks r) : Leads n p r
  | follows {n : Nat} {p q r : Inquiry} (led : Leads n p q) (follows : q.Follows r) :
      Leads (n + 1) p r

end Inquiry

/-! ### Questions come to an end -/

/-- How many of the namespaces around give aliases. -/
def Scope.aliasing (s : Scope) : Nat := s.namespaces.countP (!·.aliases.isEmpty)

theorem Scope.aliasing_le (s : Scope) : s.aliasing ≤ s.namespaces.length := List.countP_le_length

/-- The scope of a target has lost the aliases of its own namespace and of those inside it. -/
theorem Scope.aliasing_forAlias {s : Scope} {i : Nat} {space : NamespaceScope}
    {entry : String × TypeSyntax} (visible : s.namespaces[i]? = some space)
    (given : entry ∈ space.aliases) : (s.forAlias i).aliasing < s.aliasing := by
  obtain ⟨inside, rfl⟩ := List.getElem?_eq_some_iff.mp visible
  have cut : s.namespaces.drop i = s.namespaces[i] :: s.namespaces.drop (i + 1) :=
    List.drop_eq_getElem_cons inside
  have some : s.namespaces[i].aliases.isEmpty = false := by
    simpa using List.ne_nil_of_mem given
  have bare : (s.forAlias i).aliasing = (s.namespaces.drop (i + 1)).countP (!·.aliases.isEmpty) := by
    rw [aliasing, forAlias]
    simp only [cut]
    exact List.countP_cons_of_neg (by simp [NamespaceScope.bare])
  have whole : s.aliasing = (s.namespaces.take i).countP (!·.aliases.isEmpty) +
      (s.namespaces.drop i).countP (!·.aliases.isEmpty) := by
    rw [← List.countP_append, List.take_append_drop, aliasing]
  rw [cut, List.countP_cons_of_pos (by simp [some])] at whole
  omega

namespace Inquiry

variable {p q : Inquiry}

theorem Asks.scope_eq (h : p.Asks q) : q.scope = p.scope := by
  cases h <;> rfl

theorem Follows.aliasing_lt (h : p.Follows q) : q.scope.aliasing < p.scope.aliasing := by
  cases h with
  | type visible given => exact Scope.aliasing_forAlias visible given
  | space _ visible given => exact Scope.aliasing_forAlias visible given

noncomputable def weight : Inquiry → Nat
  | .type _ a => 2 * sizeOf a
  | .member _ left _ _ => 2 * sizeOf left + 1
  | .name _ _ _ | .space _ _ => 0

theorem Asks.weight_lt (h : p.Asks q) : q.weight < p.weight := by
  cases h with
  | argument _ _ own | memberArgument _ _ _ own =>
      have := List.sizeOf_lt_of_mem own
      simp only [weight, TypeSyntax.generic.sizeOf_spec, TypeSyntax.qualified.sizeOf_spec]
      omega
  | container | space =>
      simp only [weight]
      omega
  | _ =>
      simp only [weight, TypeSyntax.simple.sizeOf_spec, TypeSyntax.generic.sizeOf_spec,
        TypeSyntax.qualified.sizeOf_spec, TypeSyntax.array.sizeOf_spec]
      omega

/-- No chain of questions is endless. -/
theorem wellFounded_calls : WellFounded fun q p : Inquiry => p.Calls q := by
  let order : Inquiry → Nat ×ₗ Nat := fun p => toLex (p.scope.aliasing, p.weight)
  refine Subrelation.wf (r := fun q p => order q < order p) (fun h => ?_)
    (InvImage.wf order wellFounded_lt)
  refine Prod.Lex.toLex_lt_toLex.mpr ?_
  rcases h with asks | follows
  · exact .inr ⟨congrArg Scope.aliasing asks.scope_eq, asks.weight_lt⟩
  · exact .inl follows.aliasing_lt

theorem Leads.aliasing_le {n : Nat} (h : Leads n p q) : n + q.scope.aliasing ≤ p.scope.aliasing := by
  induction h with
  | start p => exact Nat.le_of_eq (Nat.zero_add _)
  | asks _ asks ih => rwa [asks.scope_eq]
  | follows _ follows ih =>
      have := follows.aliasing_lt
      omega

end Inquiry

/-! ### The look-up -/

variable {t : Table} {s : Scope} {p : Inquiry}

namespace Table

/-- One step of the look-up: the answer to a question, given the answers in `ask` to those about the
same scope and in `follow` to those about the targets of aliases. -/
def answerFrom (t : Table) (ask follow : (p : Inquiry) → Option p.Answer) :
    (p : Inquiry) → Option p.Answer
  | .type _ .missing => none
  | .type _ (.predefined keyword) => keyword.bind Ty.ofKeyword?
  | .type s (.simple name) => ask (.name s name [])
  | .type s (.generic name args) =>
    (args.mapM fun a => ask (.type s a)).bind fun types => ask (.name s name types)
  | .type s (.qualified left (.simple name)) => ask (.member s left name [])
  | .type s (.qualified left (.generic name args)) =>
    (args.mapM fun a => ask (.type s a)).bind fun types => ask (.member s left name types)
  | .type _ (.qualified _ _) => none
  | .type s (.array element rank) =>
    (ask (.type s element)).map fun type => Nat.repeat Ty.array (max rank 1) type
  | .name s name args => t.lookupWith (fun s a => follow (.type s a)) s name args
  | .member s left name args => t.lookupAfter (ask (.type s left)) (ask (.space s left)) name args
  | .space s a => t.namespaceWith (fun s a => follow (.space s a)) s a

def answerIn (t : Table) (follow : (p : Inquiry) → Option p.Answer) : (p : Inquiry) → Option p.Answer
  | .type s a => a.resolveWith t (fun s a => follow (.type s a)) (fun s a => follow (.space s a)) s
  | .name s name args => t.lookupWith (fun s a => follow (.type s a)) s name args
  | .member s left name args =>
    t.lookupAfter
      (left.resolveWith t (fun s a => follow (.type s a)) (fun s a => follow (.space s a)) s)
      (t.namespaceWith (fun s a => follow (.space s a)) s left) name args
  | .space s a => t.namespaceWith (fun s a => follow (.space s a)) s a

theorem resolveAllWith_eq_mapM {expand : Expand Ty} {expandSpace : Expand String}
    (args : List TypeSyntax) : TypeSyntax.resolveAllWith t expand expandSpace s args =
      args.mapM fun a => a.resolveWith t expand expandSpace s := by
  induction args with
  | nil => rfl
  | cons a args ih =>
      rw [TypeSyntax.resolveAllWith, ih, List.mapM_cons]
      cases a.resolveWith t expand expandSpace s with
      | none => rfl
      | some type => cases args.mapM fun a => a.resolveWith t expand expandSpace s <;> rfl

theorem answerIn_eq (follow : (p : Inquiry) → Option p.Answer) (p : Inquiry) :
    t.answerIn follow p = t.answerFrom (t.answerIn follow) follow p := by
  match p with
  | .type s .missing | .type s (.predefined _) | .type s (.simple _)
  | .type s (.qualified _ (.simple _)) | .type s (.array _ _) | .type s (.qualified _ .missing)
  | .type s (.qualified _ (.predefined _)) | .type s (.qualified _ (.qualified _ _))
  | .type s (.qualified _ (.array _ _)) | .name s name args | .member s left name args
  | .space s a => rfl
  | .type s (.generic name args) => exact congrArg (Option.bind · _) (resolveAllWith_eq_mapM args)
  | .type s (.qualified left (.generic name args)) =>
      exact congrArg (Option.bind · _) (resolveAllWith_eq_mapM args)

end Table

/-! ### What an answer rests on -/

theorem NamespaceScope.mem_aliases {space : NamespaceScope} {name own : String} {target : TypeSyntax}
    (found : space.aliases.find? (·.1 == name) = some (own, target)) :
    (name, target) ∈ space.aliases := by
  obtain rfl : own = name := by simpa using List.find?_some found
  exact List.mem_of_find?_eq_some found

theorem Scope.alias?_eq_some {name : String} {spaces : List NamespaceScope} {i : Nat}
    {target : TypeSyntax} (found : Scope.alias? name spaces = some (i, target)) :
    ∃ space, spaces[i]? = some space ∧ (name, target) ∈ space.aliases := by
  induction spaces generalizing i with
  | nil => cases found
  | cons space spaces ih =>
      rw [alias?] at found
      split at found
      · next here =>
        obtain ⟨rfl, rfl⟩ := Prod.mk.inj (Option.some.inj found)
        exact ⟨space, rfl, NamespaceScope.mem_aliases here⟩
      · obtain ⟨⟨j, _⟩, later, same⟩ := Option.map_eq_some_iff.mp found
        obtain ⟨rfl, rfl⟩ := Prod.mk.inj same
        obtain ⟨space', at_j, given⟩ := ih later
        exact ⟨space', by simpa using at_j, given⟩

namespace Table

section Lookup

variable {expand expand' : Expand Ty} {name : String} {args : List Ty}
  (same : ∀ s' a, (Inquiry.name s name args).Follows (.type s' a) → expand s' a = expand' s' a)

include same

theorem lookupIn_congr {i : Nat} {space : NamespaceScope} (visible : s.namespaces[i]? = some space) :
    t.lookupIn expand s i space name args = t.lookupIn expand' s i space name args := by
  unfold lookupIn
  split
  · rfl
  · split
    · next target given =>
      split at given
      · next bare =>
        obtain rfl := List.isEmpty_iff.mp bare
        rw [same _ _ (.type visible (NamespaceScope.mem_aliases given))]
      · cases given
    · rfl

theorem lookupOutward_congr {i : Nat} {spaces : List NamespaceScope}
    (visible : s.namespaces.drop i = spaces) :
    t.lookupOutward expand s name args i spaces = t.lookupOutward expand' s name args i spaces := by
  induction spaces generalizing i with
  | nil => rfl
  | cons space spaces ih =>
      have here : s.namespaces[i]? = some space := by
        rw [← List.head?_drop, visible, List.head?_cons]
      have outer : s.namespaces.drop (i + 1) = spaces := by
        rw [← List.tail_drop, visible, List.tail_cons]
      rw [lookupOutward, lookupOutward, lookupIn_congr same here, ih outer]

theorem lookupWith_congr : t.lookupWith expand s name args = t.lookupWith expand' s name args := by
  rw [lookupWith, lookupWith, lookupOutward_congr same List.drop_zero]

end Lookup

theorem namespaceWith_congr {expand expand' : Expand String} {a : TypeSyntax}
    (same : ∀ s' a', (Inquiry.space s a).Follows (.space s' a') → expand s' a' = expand' s' a') :
    t.namespaceWith expand s a = t.namespaceWith expand' s a := by
  rw [namespaceWith, namespaceWith]
  refine Option.bind_congr fun path spelt => ?_
  dsimp only
  split
  · next i target given =>
    obtain ⟨space, visible, given⟩ := Scope.alias?_eq_some given
    rw [same _ _ (.space spelt visible given)]
  · rfl

theorem mapM_congr {α β : Type} {f g : α → Option β} {as : List α} (same : ∀ a ∈ as, f a = g a) :
    as.mapM f = as.mapM g := by
  have mapped := congrArg (List.mapM id) (List.map_congr_left same)
  rwa [List.mapM_map, List.mapM_map] at mapped

/-- An answer rests only on those to the questions that are asked for it. -/
theorem answerFrom_congr {ask ask' follow follow' : (p : Inquiry) → Option p.Answer}
    (asked : ∀ q, p.Asks q → ask q = ask' q) (followed : ∀ q, p.Follows q → follow q = follow' q) :
    t.answerFrom ask follow p = t.answerFrom ask' follow' p := by
  have each {args : List TypeSyntax} {s : Scope} (own : ∀ a ∈ args, p.Asks (.type s a)) :
      (args.mapM fun a => ask (.type s a)) = args.mapM fun a => ask' (.type s a) :=
    mapM_congr fun a given => asked _ (own a given)
  match p with
  | .type s .missing | .type s (.predefined _) | .type s (.qualified _ .missing)
  | .type s (.qualified _ (.predefined _)) | .type s (.qualified _ (.qualified _ _))
  | .type s (.qualified _ (.array _ _)) => rfl
  | .type s (.simple name) => exact asked _ (.simple s name)
  | .type s (.qualified left (.simple name)) => exact asked _ (.member s left name)
  | .type s (.array element rank) => simp only [answerFrom, asked _ (.element s element rank)]
  | .type s (.generic name args) =>
      simp only [answerFrom]
      rw [each fun a => .argument s name]
      exact Option.bind_congr fun types _ => asked _ (.generic s name args types)
  | .type s (.qualified left (.generic name args)) =>
      simp only [answerFrom]
      rw [each fun a => .memberArgument s left name]
      exact Option.bind_congr fun types _ => asked _ (.genericMember s left name args types)
  | .name s name args => exact lookupWith_congr fun s' a next => followed _ next
  | .member s left name args =>
      simp only [answerFrom, asked _ (.container s left name args), asked _ (.space s left name args)]
  | .space s a => exact namespaceWith_congr fun s' a' next => followed _ next

/-- The answers with at most `n` questions about targets of aliases one after the other. -/
def answers (t : Table) : Nat → (p : Inquiry) → Option p.Answer
  | 0, .type _ _ | 0, .name _ _ _ | 0, .member _ _ _ _ | 0, .space _ _ => none
  | n + 1, p => t.answerIn (answers t n) p

theorem expandNamespace_eq (n : Nat) : t.expandNamespace n = fun s a => t.answers n (.space s a) := by
  induction n with
  | zero => rfl
  | succ n ih =>
      funext s a
      rw [expandNamespace, ih]
      rfl

theorem expandType_eq (n : Nat) : t.expandType n = fun s a => t.answers n (.type s a) := by
  induction n with
  | zero => rfl
  | succ n ih =>
      funext s a
      rw [expandType, ih, expandNamespace_eq]
      rfl

/-- Once every namespace with aliases can be counted off, more makes no difference. -/
theorem answers_eq {m n : Nat} (p : Inquiry) (m_enough : p.scope.aliasing < m)
    (n_enough : p.scope.aliasing < n) : t.answers m p = t.answers n p := by
  -- along the questions: one about the same scope leaves both bounds as they are, and one about a
  -- target takes one off each of them, but also one namespace with aliases out of its scope
  induction p using Inquiry.wellFounded_calls.induction generalizing m n with
  | _ p ih =>
    obtain ⟨m, rfl⟩ := Nat.exists_eq_add_one_of_ne_zero (Nat.ne_zero_of_lt m_enough)
    obtain ⟨n, rfl⟩ := Nat.exists_eq_add_one_of_ne_zero (Nat.ne_zero_of_lt n_enough)
    rw [answers, answers, answerIn_eq, answerIn_eq]
    refine answerFrom_congr (fun q asks => ?_) fun q follows => ?_
    · rw [← asks.scope_eq] at m_enough n_enough
      exact ih q (.inl asks) m_enough n_enough
    · have fewer := follows.aliasing_lt
      exact ih q (.inr follows) (by omega) (by omega)

def resolveNamespace (t : Table) (s : Scope) (a : TypeSyntax) : Option String :=
  t.expandNamespace (s.namespaces.length + 1) s a

def answer (t : Table) : (p : Inquiry) → Option p.Answer
  | .type s a => t.resolve s a
  | .name s name args => t.lookup s name args
  | .member s left name args => t.lookupAfter (t.resolve s left) (t.resolveNamespace s left) name args
  | .space s a => t.resolveNamespace s a

theorem answer_eq (p : Inquiry) : t.answer p = t.answers (p.scope.namespaces.length + 1) p := by
  cases p with
  | type s a => exact congrFun (congrFun (expandType_eq _) s) a
  | name s name args =>
      rw [answer, lookup, expandType_eq]
      rfl
  | member s left name args =>
      rw [answer, resolve, resolveNamespace, expandType_eq, expandNamespace_eq]
      rfl
  | space s a => exact congrFun (congrFun (expandNamespace_eq _) s) a

/-- The answers in the table fit together. -/
theorem answer_eq_answerFrom (p : Inquiry) : t.answer p = t.answerFrom t.answer t.answer p := by
  rw [answer_eq, answers, answerIn_eq]
  refine answerFrom_congr (fun q asks => ?_) fun q follows => ?_
  · rw [answer_eq, asks.scope_eq]
    rfl
  · have fewer := follows.aliasing_lt
    have most := p.scope.aliasing_le
    rw [answer_eq]
    exact answers_eq q (by omega) (Nat.lt_succ_of_le q.scope.aliasing_le)

/-- Nothing else fits together. -/
theorem eq_answer {ask : (p : Inquiry) → Option p.Answer} (fits : ∀ p, ask p = t.answerFrom ask ask p) :
    ask = t.answer := by
  funext p
  induction p using Inquiry.wellFounded_calls.induction with
  | _ p ih =>
    rw [fits, answer_eq_answerFrom]
    exact answerFrom_congr (fun q asks => ih q (.inl asks)) fun q follows => ih q (.inr follows)

/-- The look-up of names comes to an end, whatever the aliases around lead to: the four questions
ask one another in no endless chain, no more aliases are followed than there are namespaces around,
and the questions thus have answers that fit together in one way, which is that of the table. -/
theorem lookup_ends (t : Table) :
    (WellFounded fun q p : Inquiry => p.Calls q) ∧
      (∀ n p q, Inquiry.Leads n p q → n ≤ p.scope.namespaces.length) ∧
      (∀ ask ask' p, (∀ q, p.Calls q → ask q = ask' q) →
        t.answerFrom ask ask p = t.answerFrom ask' ask' p) ∧
      ∀ ask, (∀ p, ask p = t.answerFrom ask ask p) ↔ ask = t.answer := by
  refine ⟨Inquiry.wellFounded_calls, fun n p q led => ?_, fun ask ask' p same => ?_, fun ask => ?_⟩
  · exact (Nat.le_add_right n _).trans (led.aliasing_le.trans p.scope.aliasing_le)
  · exact answerFrom_congr (fun q asks => same q (.inl asks)) fun q follows => same q (.inr follows)
  · refine ⟨eq_answer, ?_⟩
    rintro rfl
    exact answer_eq_answerFrom

/-- The bound is met where a name is an alias of itself in every namespace around. -/
theorem lookup_ends_after_all :
    let t : Table := ⟨[], ["A", "A.B"]⟩
    let own (name : String) : NamespaceScope := ⟨name, [], [("X", .simple "X")]⟩
    let s : Scope := ⟨[own "A.B", own "A", own ""], [], []⟩
    ∃ q, Inquiry.Leads s.namespaces.length (.name s "X" []) q ∧ 3 ≤ s.namespaces.length ∧
      t.answer q = none ∧ t.lookup s "X" [] = none := by
  intro t own s
  have self (s : Scope) (i : Nat) {space : NamespaceScope} (visible : s.namespaces[i]? = some space)
      (given : ("X", .simple "X") ∈ space.aliases) {n : Nat} {p : Inquiry}
      (led : Inquiry.Leads n p (.name s "X" [])) :
      Inquiry.Leads (n + 1) p (.name (s.forAlias i) "X" []) :=
    .asks (.follows led (.type visible given)) (.simple _ "X")
  have led := self _ 1 rfl (.head _) (self _ 1 rfl (.head _) (self s 0 rfl (.head _) (.start _)))
  obtain ⟨-, bounded, -, -⟩ := lookup_ends t
  exact ⟨_, led, bounded _ _ _ led, by decide, by decide⟩

end Table
end SharpRefactor
