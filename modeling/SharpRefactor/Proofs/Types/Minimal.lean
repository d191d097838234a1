import SharpRefactor.Proofs.Types.Minimal.Meanings
import SharpRefactor.Proofs.Types.Returned

/-!
The shortest way to write a type means that type. What is written for the arguments of a type can
differ from what stands in its full name, but each of them means the argument it is written for, so
the name before them leads to the same type.
-/

namespace SharpRefactor
namespace Table

variable {t : Table} {s : Scope}

/-- A text that is written for a tree that spells a type and means it. -/
def Writing (t : Table) (s : Scope) (type : Ty) (text : String) : Prop :=
  ∃ T : Tree, Writes text T.tokens ∧ Spells .whole [T] ∧ t.resolve s T.typeSyntax = some type

theorem Writing.accepted {type : Ty} {text : String} (h : t.Writing s type text) :
    ∃ tree, parseTypeName text = .ok tree ∧ t.resolve s tree.typeSyntax = some type := by
  obtain ⟨T, writes, whole, means⟩ := h
  obtain ⟨read, fine⟩ := writes.lexed
  obtain ⟨tree, accepted, bare⟩ := parseTypeName_complete
    (tight_lex_plain writes.plain) fine whole read.symm
  rw [Tree.typeSyntax_bare tree T bare] at means
  exact ⟨tree, accepted, means⟩

/-- A text that was seen to mean a type is written for it. -/
theorem Writing.of_binds {type : Ty} {text : String} {ts : List Token} (writes : Writes text ts)
    (binds : t.bindsTo s type text = .ok true) : t.Writing s type text := by
  obtain ⟨tree, T, bare, whole, rfl, -, means⟩ := writes.means binds
  rw [← Tree.typeSyntax_bare tree T bare] at means
  exact ⟨T, writes, whole, means⟩

theorem Writing.all {args : List Ty} {texts : List String}
    (each : List.Forall₂ (t.Writing s) args texts) :
    ∃ Ts, WritesAll texts Ts ∧ (∀ T ∈ Ts, Spells .whole [T]) ∧
      List.Forall₂ (fun T a => t.resolve s (Tree.typeSyntax T) = some a) Ts args := by
  induction each with
  | nil => exact ⟨[], .nil, by simp, .nil⟩
  | cons own _ ih =>
      obtain ⟨T, writes, whole, means⟩ := own
      obtain ⟨Ts, others, spelt, meant⟩ := ih
      exact ⟨T :: Ts, .cons writes others, List.forall_mem_cons.mpr ⟨whole, spelt⟩, .cons means meant⟩

end Table

def Scope.Plain (s : Scope) : Prop :=
  ∀ space ∈ s.namespaces, ∀ entry ∈ space.aliases, IsName entry.1 ∧ IsPlain entry.1

namespace Table

variable {t : Table} {s : Scope}

/-- An alias of a type is written for it. -/
theorem Writing.ofAlias (aliases : s.Plain) {type : Ty} {word : String}
    (found : t.aliasFor? s type = some word) : t.Writing s type word := by
  obtain ⟨⟨space, visible, entry, own, rfl⟩, means⟩ := aliasFor?_eq_some found
  obtain ⟨name, plain⟩ := aliases space visible entry own
  refine ⟨.ofWord entry.1, by simpa using Writes.word name.isWord,
    .plain (.named (.undotted (.ofWord plain))), ?_⟩
  rw [Tree.typeSyntax_ofWord plain name, resolve, expandType, TypeSyntax.resolveWith]
  exact means

section InFull

variable {space name : String} {args : List Ty}

/-- What means a type with arguments has arguments that mean those of the type. -/
theorem means_named (own : IsName name) (order : Orderly (Tree.named space name (Ty.trees args)).tokens)
    (spells : ∀ a ∈ args, Spells .whole [a.tree]) (given : args ≠ [])
    (means : t.resolve s (Tree.named space name (Ty.trees args)).typeSyntax =
      some (.named space name args)) :
    (∀ a ∈ args, t.resolve s a.tree.typeSyntax = some a) ∧
      t.lookupBehind s (Dotted.segments space) name args = some (.named space name args) := by
  rw [Ty.trees_eq_map] at order means
  have listed : args.map Ty.tree ≠ [] := by simpa using given
  obtain ⟨path, last⟩ := order.named_words
  have plain := last.resolve_right fun keyword => listed keyword.2.1
  obtain ⟨found, each, leads⟩ :=
    (resolve_behind own plain path listed (List.forall_mem_map.mpr spells)).mp means
  have filled : found ≠ [] := by
    rintro rfl
    exact listed (List.forall₂_nil_right_iff.mp each)
  obtain rfl : args = found := lookupBehind_args filled leads
  rw [List.forall₂_map_left_iff, List.forall₂_same] at each
  exact ⟨each, leads⟩

/-- The full name of a type is written for it, with anything that is written for its arguments. -/
theorem Writing.inFull (key : IsPath space) (own : IsName name)
    (order : Orderly (Tree.named space name (Ty.trees args)).tokens)
    (spells : ∀ a ∈ args, Spells .whole [a.tree])
    (means : t.resolve s (Tree.named space name (Ty.trees args)).typeSyntax =
      some (.named space name args))
    {texts : List String} (each : List.Forall₂ (t.Writing s) args texts) :
    t.Writing s (.named space name args) (Dotted.join space name ++ bracketed texts) := by
  obtain ⟨Ts, writes, spelt, meant⟩ := Writing.all each
  by_cases given : args = []
  · subst given
    cases meant
    exact ⟨_, writes.named key own, order.spells_named id spelt, means⟩
  · have listed : Ty.trees args ≠ [] := by simpa [Ty.trees_eq_map] using given
    have filled : Ts ≠ [] := by
      rintro rfl
      cases meant
      exact given rfl
    obtain ⟨path, last⟩ := order.named_words
    have plain := last.resolve_right fun keyword => listed keyword.2.1
    refine ⟨_, writes.named key own, order.spells_named (fun none => absurd none listed) spelt, ?_⟩
    exact (resolve_behind own plain path filled spelt).mpr
      ⟨args, meant, (means_named own order spells given means).2⟩

end InFull

/-- If its full name can be read in a scope and means a type there, what is written for the type
means it as well. -/
theorem spell_writing (aliases : s.Plain) {type : Ty} (named : type.Named)
    (order : Orderly type.tree.tokens) (means : t.resolve s type.tree.typeSyntax = some type) :
    ∃ text, t.spell s type = .ok text ∧ t.Writing s type text := by
  have full : ∀ {type : Ty}, type.Named → Orderly type.tree.tokens →
      t.resolve s type.tree.typeSyntax = some type → t.Writing s type type.describe :=
    fun named order means => ⟨_, named.writes, named.spells order, means⟩
  induction named with
  | void => exact ⟨"void", rfl, full .void order means⟩
  | parameter word => exact ⟨_, rfl, full (.parameter word) order means⟩
  | array element ih =>
      rw [Ty.tree, Tree.tokens_ranked] at order
      have inside := order.within (List.prefix_append _ _).isInfix
      rw [Ty.tree, resolve_ranked (Ty.Named.spells element inside)] at means
      obtain ⟨own, meant, same⟩ := Option.map_eq_some_iff.mp means
      obtain rfl := Ty.array.inj same
      obtain ⟨text, written, T, writes, whole, leads⟩ := ih inside meant
      refine ⟨text ++ "[]", by rw [spell, written], T.ranked, ?_, whole.ranked, ?_⟩
      · rw [Tree.tokens_ranked]
        exact writes.array
      · rw [resolve_ranked whole, leads, Option.map_some]
  | @named space name args key each ih =>
      cases keyword : (Ty.named space name args).keyword? with
      | some word =>
          have whole := full (.named key each) order means
          rw [Ty.describe, keyword] at whole
          exact ⟨word, spell_keyword keyword, whole⟩
      | none =>
          have tree : (Ty.named space name args).tree = .named space name (Ty.trees args) := by
            rw [Ty.tree, keyword]
          rw [tree] at order means
          have inside : ∀ a ∈ args, Orderly a.tree.tokens := fun a member =>
            order.argument _ (by rw [Ty.trees_eq_map]; exact List.mem_map_of_mem member)
          have spells : ∀ a ∈ args, Spells .whole [a.tree] := fun a member =>
            Ty.Named.spells (each a member) (inside a member)
          have meant : ∀ a ∈ args, t.resolve s a.tree.typeSyntax = some a := fun a member =>
            (means_named key.name order spells (List.ne_nil_of_mem member) means).1 a member
          obtain ⟨texts, written, all⟩ := spellAll_ok fun a member =>
            ih a member (inside a member) (meant a member)
          have plain : ∀ text ∈ texts, Uncommented text := by
            refine forall_of_forall₂ (all.imp fun a text own => ?_)
            obtain ⟨T, writes, -⟩ := own
            exact writes.plain
          obtain ⟨Ts, writes, -, -⟩ := Writing.all all
          obtain ⟨text, shortest, found | ⟨candidate, binds⟩ | rfl⟩ :=
            spell_named keyword key.space key.name written plain
          · exact ⟨text, shortest, .ofAlias aliases found⟩
          · obtain ⟨q, listed, rfl⟩ := List.mem_map.mp candidate
            exact ⟨_, shortest,
              .of_binds (writes.named (qualifiers_path key.space listed) key.name) binds⟩
          · exact ⟨_, shortest, .inFull key.space key.name order spells means all⟩

end Table

/-! ### Texts -/

namespace Node

variable {t : Tree} {n : Node}

/-- The name of an alias has its identifier, however malformed the text is. -/
theorem firstIdentifier?_of_alias (complete : t.Complete) (inside : n ∈ (root t).descendants)
    {name : Node} (given : n.alias? = some name) : ∃ token, name.firstIdentifier? = some token := by
  obtain ⟨equals, first, kind, second, named⟩ := alias?_eq_some given
  have own := complete_of_mem_descendants complete (mem_descendants_of_mem_children inside first)
  have isNode := isNode_of_mem_children second
  have child := tree_mem_of_mem_children second
  have last := isNode_of_mem_children first
  obtain ⟨token, placed, identifier⟩ :
      ∃ token, .leaf token ∈ name.tree.children ∧ token.kind = .identifier := by
    unfold Node.kind at kind named
    generalize name.tree = tree at child isNode named
    generalize equals.tree = outer at own kind child last
    cases own with
    | leaf _ => cases last
    | node own _ =>
        cases kind
        cases tree with
        | leaf _ => cases isNode
        | node k us =>
            cases named
            exact own us child
  obtain ⟨p, member, leaf⟩ := exists_mem_elements placed
  have listed : (⟨token, p.start⟩ : PlacedToken) ∈ name.tokens :=
    List.mem_filterMap.mpr ⟨p, member, by rw [leaf]; rfl⟩
  exact Option.isSome_iff_exists.mp (List.find?_isSome.mpr ⟨_, listed, beq_iff_eq.mpr identifier⟩)

/-- Whether the aliases that a file or namespace around a node declares are written without the sign
that keeps a name from being a keyword. -/
def PlainAliases (n : Node) : Prop :=
  ∀ a ∈ n.ancestors, a.kind = .compilationUnit ∨ a.kind = .namespaceDeclaration →
    ∀ directive ∈ a.usings, ∀ token ∈ directive.alias?.bind firstIdentifier?,
      token.text.toList.head? ≠ some '@'

end Node

theorem Scope.around_plain {t : Tree} {n : Node} (lexed : t.Lexed) (complete : t.Complete)
    (inside : n ∈ (Node.root t).descendants) (aliases : n.PlainAliases) : (Scope.around n).Plain := by
  intro space visible entry own
  obtain ⟨a, outer, kind, directive, listed, name, given, same⟩ := alias_written visible own
  have member := Node.mem_descendants_of_mem_children
    (Node.mem_descendants_of_mem_ancestors inside a outer) (List.mem_filter.mp listed).1
  obtain ⟨token, found⟩ := Node.firstIdentifier?_of_alias complete member given
  have plain := aliases a outer kind directive listed token (by rw [given]; exact found)
  obtain ⟨equals, first, -, second, -⟩ := Node.alias?_eq_some given
  have named := Node.mem_descendants_of_mem_children
    (Node.mem_descendants_of_mem_children member first) second
  obtain ⟨placed, identifier⟩ := Node.firstIdentifier?_eq_some found
  obtain ⟨word, cut⟩ :=
    lexed token.token (Node.tokens_subset named _ (Node.token_mem_tree placed)) identifier
  have own : IsName token.text := word.resolve_right fun ⟨v, _, sign⟩ => plain (by
    change token.text.toList = _ at sign
    rw [sign]
    rfl)
  rw [← same, Node.nameText, found, Option.map_some, Option.getD_some, own.plainName_eq]
  exact ⟨own, (congrArg Token.kind cut).trans identifier⟩

/-- If the full name of a type can be read at an offset and means the type there, so does what is
written for the type at that offset. -/
theorem Resolver.display_binds (text : String) (serial offset : Nat) (type : Ty) (name : Tree) :
    let root := (parse text).root
    let tree : SyntaxTree := ⟨root, .parsed serial root⟩
    let place := (tree.nodeAt offset).toOption.getD tree.rootNode
    let table := Table.ofRoot tree.rootNode
    place.PlainAliases → parseTypeName type.describe = .ok name →
    table.resolve (.around place) name.typeSyntax = some type →
    ∃ spelling short, (ofTree tree).display type offset = .ok spelling ∧
      parseTypeName spelling = .ok short ∧
      table.resolve (.around place) short.typeSyntax = some type := by
  intro root tree place table aliases accepted means
  have lexed : tree.root.Lexed := parse_lexed text
  have inside : place ∈ tree.rootNode.descendants := SyntaxTree.place_mem_descendants rfl offset
  have plain := Scope.around_plain lexed (parse_complete text) inside aliases
  have named : type.Named := Table.resolve_named lexed inside means
  have binds : table.bindsTo (.around place) type type.describe = .ok true := by
    rw [Table.bindsTo, accepted]
    simp [means]
  obtain ⟨spells, full, bare, meant⟩ := named.means binds
  rw [← Tree.typeSyntax_bare full _ bare] at meant
  have order : Orderly type.tree.tokens := by simpa using spells.linked.toOrderly
  obtain ⟨spelling, written, writing⟩ := Table.spell_writing plain named order meant
  obtain ⟨short, read, leads⟩ := writing.accepted
  exact ⟨spelling, short, written, read, leads⟩

/-- An alias and an import shorten a type and its arguments. -/
theorem Resolver.display_binds_alias :
    let root := (parse "using System;using D=System.Action;namespace N{class C{}}").root
    let tree : SyntaxTree := ⟨root, .parsed 0 root⟩
    let place := (tree.nodeAt 55).toOption.getD tree.rootNode
    let table := Table.ofRoot tree.rootNode
    let type : Ty :=
      .named "System" "Func" [.named "System" "Action" [], .array (.named "N" "C" [])]
    (ofTree tree).display type 55 = .ok "Func<D, C[]>" ∧ ∃ name : Tree,
      place.PlainAliases ∧ parseTypeName type.describe = .ok name ∧
      table.resolve (.around place) name.typeSyntax = some type ∧
      ∃ spelling short, (ofTree tree).display type 55 = .ok spelling ∧
        parseTypeName spelling = .ok short ∧
        table.resolve (.around place) short.typeSyntax = some type := by
  intro root tree place table type
  have shown : (ofTree tree).display type 55 = .ok "Func<D, C[]>" := by decide +kernel
  have plain : place.PlainAliases := by
    unfold Node.PlainAliases
    decide +kernel
  let name := (parseTypeName type.describe).toOption.getD type.tree
  have accepted : parseTypeName type.describe = .ok name := by decide +kernel
  have means : table.resolve (.around place) name.typeSyntax = some type := by decide +kernel
  exact ⟨shown, name, plain, accepted, means, display_binds _ 0 55 type name plain accepted means⟩

end SharpRefactor
