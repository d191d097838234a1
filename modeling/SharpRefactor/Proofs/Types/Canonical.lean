import Mathlib.Data.List.Forall2
import SharpRefactor.Proofs.Types.Written

/-!
The tree of a type that is written out in full, and the text of it.
-/

namespace SharpRefactor

namespace Tree

def ofWord (w : String) : Tree :=
  .node (if (Token.word w).kind.isPredefinedType then .predefinedType else .identifierName)
    [.leaf (.word w)]

def simpleName (name : String) (args : Forest) : Tree :=
  if args.isEmpty then ofWord name else .node .genericName [.leaf (.word name), argumentList args]

def dotted (left right : Tree) : Tree := .node .qualifiedName [left, .leaf (.fixed .dot), right]

def extended (left : Tree) (names : List String) : Tree :=
  names.foldl (fun left w => dotted left (ofWord w)) left

def qualified : List String → Tree → Tree
  | [], last => last
  | w :: names, last => dotted (extended (ofWord w) names) last

def rank : Tree := .node .arrayRankSpecifier [.leaf (.fixed .lBracket), .leaf (.fixed .rBracket)]

/-- An array type; arrays of arrays are one node with all their brackets. -/
def ranked : Tree → Tree
  | .node .arrayType ts => .node .arrayType (ts ++ [rank])
  | T => .node .arrayType [T, rank]

def named (space name : String) (args : Forest) : Tree :=
  qualified (Dotted.segments space) (simpleName name args)

end Tree

mutual

def Ty.tree : Ty → Tree
  | .void => .ofWord "void"
  | .named space name args =>
    match (Ty.named space name args).keyword? with
    | some word => .ofWord word
    | none => .named space name (Ty.trees args)
  | .parameter name => .ofWord name
  | .array element => element.tree.ranked

def Ty.trees : List Ty → Forest
  | [] => []
  | t :: ts => t.tree :: Ty.trees ts

end

theorem Ty.trees_eq_map (ts : List Ty) : Ty.trees ts = ts.map Ty.tree := by
  induction ts with
  | nil => rfl
  | cons t ts ih => rw [Ty.trees, ih, List.map_cons]

theorem Ty.describeAll_eq_map (ts : List Ty) : Ty.describeAll ts = ts.map Ty.describe := by
  induction ts with
  | nil => rfl
  | cons t ts ih => rw [Ty.describeAll, ih, List.map_cons]

theorem Forest.mem_separated {T : Tree} {Ts : Forest} (member : T ∈ Ts) : T ∈ Ts.separated := by
  induction Ts with
  | nil => cases member
  | cons U Us ih =>
      cases Us with
      | nil => exact member
      | cons V Vs =>
          rcases List.mem_cons.mp member with rfl | later
          · exact List.mem_cons_self
          · exact List.mem_cons_of_mem U (List.mem_cons_of_mem _ (ih later))

namespace Tree

@[simp] theorem tokens_ofWord (w : String) : (ofWord w).tokens = [.word w] := by simp [ofWord]

@[simp] theorem tokens_dotted (left right : Tree) :
    (dotted left right).tokens = left.tokens ++ .fixed .dot :: right.tokens := by
  simp [dotted]

theorem tokens_simpleName (name : String) (args : Forest) :
    (simpleName name args).tokens =
      .word name :: if args.isEmpty then [] else (argumentList args).tokens := by
  unfold simpleName
  split <;> simp

def pathTokens (names : List String) : List Token :=
  names.flatMap fun w => [.word w, .fixed .dot]

theorem tokens_extended (left : Tree) (names : List String) :
    (left.extended names).tokens ++ [.fixed .dot] = left.tokens ++ .fixed .dot :: pathTokens names := by
  induction names generalizing left with
  | nil => rfl
  | cons w names ih =>
      rw [extended, List.foldl_cons]
      refine (ih (dotted left (ofWord w))).trans ?_
      simp [pathTokens]

theorem tokens_qualified (names : List String) (last : Tree) :
    (qualified names last).tokens = pathTokens names ++ last.tokens := by
  cases names with
  | nil => rfl
  | cons w names =>
      rw [qualified, tokens_dotted, List.append_cons, tokens_extended]
      simp [pathTokens]

theorem tokens_ranked (T : Tree) :
    T.ranked.tokens = T.tokens ++ [.fixed .lBracket, .fixed .rBracket] := by
  unfold ranked
  split <;> simp [rank, Forest.tokens_append]

end Tree

namespace Writes

theorem extended {text : String} {T : Tree} (h : Writes text T.tokens) {names : List String}
    (each : ∀ w ∈ names, IsName w) :
    Writes (names.foldl (fun text w => s!"{text}.{w}") text) (T.extended names).tokens := by
  induction names generalizing text T with
  | nil => exact h
  | cons w names ih =>
      rw [List.forall_mem_cons] at each
      exact ih (T := .dotted T (.ofWord w)) (by simpa using h.dot each.1) each.2

end Writes

theorem Dotted.ofSegments_append {front : List String} (some : front ≠ []) (names : List String) :
    ofSegments (front ++ names) = names.foldl (fun text w => s!"{text}.{w}") (ofSegments front) := by
  induction names generalizing front with
  | nil => rw [List.append_nil, List.foldl_nil]
  | cons w names ih =>
      rw [List.append_cons, ih (by simp), ofSegments_concat some, List.foldl_cons]

theorem Writes.path {names : List String} (each : ∀ w ∈ names, IsName w) {name : String}
    (own : IsName name) :
    Writes (Dotted.ofSegments (names ++ [name])) (Tree.pathTokens names ++ [.word name]) := by
  cases names with
  | nil => simpa [Tree.pathTokens, Dotted.ofSegments] using Writes.word own.isWord
  | cons w names =>
      rw [List.forall_mem_cons] at each
      have first : Writes (Dotted.ofSegments [w]) (Tree.ofWord w).tokens := by
        simpa [Dotted.ofSegments] using Writes.word each.1.isWord
      have all := (first.extended each.2).dot own
      have tokens : (Tree.extended (.ofWord w) names).tokens ++ [.fixed .dot, .word name] =
          Tree.pathTokens (w :: names) ++ [.word name] := by
        rw [List.append_cons, Tree.tokens_extended, Tree.tokens_ofWord]
        rfl
      rwa [← Dotted.ofSegments_append (by simp), ← Dotted.ofSegments_concat (by simp), tokens] at all

/-- A path with arguments is written for its tree. -/
theorem WritesAll.named {space name : String} (path : IsPath space) (own : IsName name)
    {texts : List String} {Ts : Forest} (each : WritesAll texts Ts) :
    Writes (Dotted.join space name ++ bracketed texts) (Tree.named space name Ts).tokens := by
  obtain ⟨names, words, rfl⟩ := path
  have whole := (Writes.path words own).bracketed each
  rw [List.append_assoc, List.singleton_append, ← Tree.tokens_simpleName,
    ← Tree.tokens_qualified] at whole
  rwa [Dotted.join_ofSegments fun w member => (words w member).ne_empty, Tree.named,
    Dotted.segments_ofSegments words]

/-- A type in full is written for its tree. -/
theorem Ty.Named.writes {type : Ty} (named : type.Named) : Writes type.describe type.tree.tokens := by
  have keyword : ∀ entry ∈ Ty.predefined, IsName entry.2.1 := by decide
  induction named with
  | void =>
      have name : IsName "void" := by decide
      simpa [describe, tree] using Writes.word name.isWord
  | @parameter name word => simpa [describe, tree] using Writes.word word
  | array _ ih =>
      rw [describe, tree, Tree.tokens_ranked]
      exact ih.array
  | @named space name args key _ ih =>
      rw [describe, tree]
      cases found : (Ty.named space name args).keyword? with
      | some word =>
          obtain ⟨-, -, entry, listed, -, rfl⟩ := Ty.keyword?_eq_some found
          simpa using Writes.word (keyword entry listed).isWord
      | none =>
          have each : WritesAll (Ty.describeAll args) (Ty.trees args) := by
            rw [describeAll_eq_map, trees_eq_map, WritesAll, List.forall₂_map_left_iff,
              List.forall₂_map_right_iff, List.forall₂_same]
            exact ih
          exact each.named key.space key.name

end SharpRefactor
