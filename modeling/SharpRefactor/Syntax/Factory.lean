import SharpRefactor.Syntax.Tree

/-!
New trees from parts. Each factory gives the shape in which the parser reads the same text, blanks
included, so that what it builds can be put into a tree that was read.
-/

namespace SharpRefactor.Factory

def blank : Tree := .leaf .blank

/-- A keyword or mark by itself. -/
def fixed (k : Kind) : Tree := .leaf (.fixed k)

/-- Items between an opening and a closing mark, with a comma and a blank between two of them. -/
def separated (opening closing : Kind) : Forest → Forest
  | [] => [fixed opening, fixed closing]
  | item :: items =>
    fixed opening :: item :: items.flatMap (fun t => [fixed .comma, blank, t]) ++ [fixed closing]

def identifierName (name : String) : Tree := .node .identifierName [.leaf ⟨.identifier, name⟩]

def argument (expression : Tree) : Tree := .node .argument [expression]

/-- The argument list of some expressions. -/
def argumentList (expressions : Forest) : Tree :=
  .node .argumentList (separated .lParen .rParen (expressions.map argument))

def invocation (callee arguments : Tree) : Tree := .node .invocationExpression [callee, arguments]

def parameter (type : Tree) (name : String) : Tree :=
  .node .parameter [type, blank, .leaf ⟨.identifier, name⟩]

def parameterList (parameters : Forest) : Tree :=
  .node .parameterList (separated .lParen .rParen parameters)

def expressionStatement (expression : Tree) : Tree :=
  .node .expressionStatement [expression, fixed .semicolon]

def returnStatement (expression : Tree) : Tree :=
  .node .returnStatement [fixed .returnKw, blank, expression, fixed .semicolon]

/-- Statements in braces, with a blank before the first and after each. -/
def block (statements : Forest) : Tree :=
  .node .block
    (fixed .lBrace :: blank :: statements.flatMap (fun t => [t, blank]) ++ [fixed .rBrace])

/-- An anonymous method; without parameters it has no parameter list at all. -/
def anonymousMethod (parameters : Option Tree) (body : Tree) : Tree :=
  .node .anonymousMethodExpression
    (fixed .delegateKw :: parameters.toList ++ [blank, body])

end SharpRefactor.Factory
