import SharpRefactor.Syntax.Lexer

/-!
What the parser can object to, and the words it uses.
-/

namespace SharpRefactor

/-- What the grammar asked for where something else was found. -/
inductive Expected where
  | leftParen | leftParenAfterIf | rightParen | semicolon | semicolonAfterDelegate
  | semicolonAfterEvent | semicolonAfterBody | semicolonAfterExpression | semicolonAfterField
  | semicolonAfterLocal | semicolonAfterInitializer | semicolonAfterReturn | semicolonAfterUsing
  | arrow | rightAngle | namespaceKeyword | usingKeyword | leftBrace | namespaceBody | typeBody
  | rightBrace | endOfAccessors | endOfNamespace | endOfType | accessor | accessorKeyword
  | accessorBody | baseType | delegateName | returnType | eventName | eventType | expression
  | identifier | member | memberName | nameAfterDot | methodBody | namespaceName
  | namespaceOrType | parameter | parameterName | statement | type | typeAfterNew | typeArgument
  | typeDeclaration | typeName | typeParameterName | variableName
  deriving DecidableEq, Repr

def Expected.phrase : Expected → String
  | .leftParen => "`(`"
  | .leftParenAfterIf => "`(` after `if`"
  | .rightParen => "`)`"
  | .semicolon => "`;`"
  | .semicolonAfterDelegate => "`;` after delegate declaration"
  | .semicolonAfterEvent => "`;` after event declaration"
  | .semicolonAfterBody => "`;` after expression body"
  | .semicolonAfterExpression => "`;` after expression"
  | .semicolonAfterField => "`;` after field declaration"
  | .semicolonAfterLocal => "`;` after local declaration"
  | .semicolonAfterInitializer => "`;` after property initializer"
  | .semicolonAfterReturn => "`;` after return statement"
  | .semicolonAfterUsing => "`;` after using directive"
  | .arrow => "`=>`"
  | .rightAngle => "`>`"
  | .namespaceKeyword => "`namespace`"
  | .usingKeyword => "`using`"
  | .leftBrace => "`\x7b`"
  | .namespaceBody => "`\x7b` or `;` after namespace name"
  | .typeBody => "`\x7b` to start type body"
  | .rightBrace => "`\x7d`"
  | .endOfAccessors => "`\x7d` to close accessor list"
  | .endOfNamespace => "`\x7d` to close namespace"
  | .endOfType => "`\x7d` to close type body"
  | .accessor => "accessor"
  | .accessorKeyword => "accessor keyword"
  | .accessorBody => "accessor body or `;`"
  | .baseType => "base type"
  | .delegateName => "delegate name"
  | .returnType => "delegate return type"
  | .eventName => "event name"
  | .eventType => "event type"
  | .expression => "expression"
  | .identifier => "identifier"
  | .member => "member declaration"
  | .memberName => "member name"
  | .nameAfterDot => "member name after `.`"
  | .methodBody => "method body or `;`"
  | .namespaceName => "namespace name"
  | .namespaceOrType => "namespace or type name"
  | .parameter => "parameter"
  | .parameterName => "parameter name"
  | .statement => "statement"
  | .type => "type"
  | .typeAfterNew => "type after `new`"
  | .typeArgument => "type argument"
  | .typeDeclaration => "type declaration"
  | .typeName => "type name"
  | .typeParameterName => "type parameter name"
  | .variableName => "variable name"

/-- A reason to call a text malformed. -/
inductive SyntaxError where
  | lexical (fault : LexError)
  | expected (what : Expected)
  | unexpectedAtTopLevel
  /-- A text to be read as a type that does not even begin like one. -/
  | notATypeName (text : String)
  /-- A text to be read as a type that goes on after it. -/
  | trailingTokens
  deriving DecidableEq, Repr

def SyntaxError.message : SyntaxError → String
  | .lexical fault => fault.message
  | .expected what => s!"expected {what.phrase}"
  | .unexpectedAtTopLevel => "unexpected token at top level"
  | .notATypeName text => s!"`{text}` is not a type name"
  | .trailingTokens => "unexpected trailing tokens after type name"

/-- An objection with the place it is about. -/
structure Diagnostic where
  error : SyntaxError
  range : TextRange
  deriving DecidableEq

/-- The message with its place. -/
def Diagnostic.describe (d : Diagnostic) : String := s!"{d.error.message} at {d.range.describe}"

end SharpRefactor
