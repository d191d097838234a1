/-!
The kinds of tokens and nodes of a source file, in one enumeration whose order is their numbering on
the wire. The classes of kinds (trivia, modifiers, types, expressions, ...) are predicates on it.
Main statements: numbering and its inverse, and that a keyword is found by its own spelling.
-/

namespace SharpRefactor

/-- What a token or a node is. -/
inductive Kind where
  -- trivia
  | whitespace | lineComment | blockComment
  -- identifiers and literals
  | identifier | intLiteral | realLiteral | charLiteral | stringLiteral
  -- keywords
  | abstractKw | boolKw | byteKw | charKw | classKw | constKw | decimalKw | delegateKw | doubleKw
  | elseKw | eventKw | falseKw | floatKw | ifKw | interfaceKw | internalKw | intKw | longKw
  | namespaceKw | newKw | nullKw | objectKw | overrideKw | privateKw | protectedKw | publicKw
  | readonlyKw | returnKw | sbyteKw | sealedKw | shortKw | staticKw | stringKw | structKw
  | thisKw | trueKw | uintKw | ulongKw | ushortKw | usingKw | virtualKw | voidKw
  -- operators and punctuation
  | lParen | rParen | lBrace | rBrace | lBracket | rBracket | semicolon | comma | dot | colon
  | question | fatArrow | plus | minus | star | slash | percent | tilde | bang | amp | pipe
  | caret | eq | eqEq | bangEq | less | lessEq | greater | greaterEq | ampAmp | pipePipe
  | plusPlus | minusMinus | plusEq | minusEq | starEq | slashEq
  -- special
  | error | eof
  -- nodes
  | compilationUnit | usingDirective | nameEquals | namespaceDeclaration | classDeclaration
  | structDeclaration | interfaceDeclaration | delegateDeclaration | typeParameterList
  | typeParameter | baseList | methodDeclaration | constructorDeclaration | fieldDeclaration
  | propertyDeclaration | eventFieldDeclaration | eventDeclaration | explicitInterfaceSpecifier
  | accessorList | accessorDeclaration | arrowExpressionClause | variableDeclaration
  | variableDeclarator | equalsValueClause | parameterList | parameter | block
  | localDeclarationStatement | expressionStatement | returnStatement | ifStatement | elseClause
  | emptyStatement
  -- types
  | identifierName | genericName | typeArgumentList | qualifiedName | predefinedType | arrayType
  | arrayRankSpecifier
  -- expressions
  | memberAccessExpression | invocationExpression | argumentList | argument
  | objectCreationExpression | anonymousMethodExpression | simpleLambdaExpression
  | parenthesizedLambdaExpression | assignmentExpression | binaryExpression
  | prefixUnaryExpression | postfixUnaryExpression | castExpression | parenthesizedExpression
  | literalExpression | thisExpression
  deriving DecidableEq, Repr

namespace Kind

/-- Every kind, in the order of the numbering. -/
def all : List Kind :=
  [.whitespace, .lineComment, .blockComment, .identifier, .intLiteral, .realLiteral,
   .charLiteral, .stringLiteral, .abstractKw, .boolKw, .byteKw, .charKw, .classKw, .constKw,
   .decimalKw, .delegateKw, .doubleKw, .elseKw, .eventKw, .falseKw, .floatKw, .ifKw,
   .interfaceKw, .internalKw, .intKw, .longKw, .namespaceKw, .newKw, .nullKw, .objectKw,
   .overrideKw, .privateKw, .protectedKw, .publicKw, .readonlyKw, .returnKw, .sbyteKw, .sealedKw,
   .shortKw, .staticKw, .stringKw, .structKw, .thisKw, .trueKw, .uintKw, .ulongKw, .ushortKw,
   .usingKw, .virtualKw, .voidKw, .lParen, .rParen, .lBrace, .rBrace, .lBracket, .rBracket,
   .semicolon, .comma, .dot, .colon, .question, .fatArrow, .plus, .minus, .star, .slash,
   .percent, .tilde, .bang, .amp, .pipe, .caret, .eq, .eqEq, .bangEq, .less, .lessEq, .greater,
   .greaterEq, .ampAmp, .pipePipe, .plusPlus, .minusMinus, .plusEq, .minusEq, .starEq, .slashEq,
   .error, .eof, .compilationUnit, .usingDirective, .nameEquals, .namespaceDeclaration,
   .classDeclaration, .structDeclaration, .interfaceDeclaration, .delegateDeclaration,
   .typeParameterList, .typeParameter, .baseList, .methodDeclaration, .constructorDeclaration,
   .fieldDeclaration, .propertyDeclaration, .eventFieldDeclaration, .eventDeclaration,
   .explicitInterfaceSpecifier, .accessorList, .accessorDeclaration, .arrowExpressionClause,
   .variableDeclaration, .variableDeclarator, .equalsValueClause, .parameterList, .parameter,
   .block, .localDeclarationStatement, .expressionStatement, .returnStatement, .ifStatement,
   .elseClause, .emptyStatement, .identifierName, .genericName, .typeArgumentList,
   .qualifiedName, .predefinedType, .arrayType, .arrayRankSpecifier, .memberAccessExpression,
   .invocationExpression, .argumentList, .argument, .objectCreationExpression,
   .anonymousMethodExpression, .simpleLambdaExpression, .parenthesizedLambdaExpression,
   .assignmentExpression, .binaryExpression, .prefixUnaryExpression, .postfixUnaryExpression,
   .castExpression, .parenthesizedExpression, .literalExpression, .thisExpression]

/-- The number of a kind on the wire. -/
def number (k : Kind) : Nat := k.ctorIdx

/-- The kind with a number; numbers beyond the table stand for malformed input. -/
def ofNumber (n : Nat) : Kind := (all[n]?).getD .error

/-- The name under which a kind is printed. -/
def name : Kind → String
  | .whitespace => "Whitespace"
  | .lineComment => "LineComment"
  | .blockComment => "BlockComment"
  | .identifier => "Identifier"
  | .intLiteral => "IntLiteral"
  | .realLiteral => "RealLiteral"
  | .charLiteral => "CharLiteral"
  | .stringLiteral => "StringLiteral"
  | .abstractKw => "AbstractKw"
  | .boolKw => "BoolKw"
  | .byteKw => "ByteKw"
  | .charKw => "CharKw"
  | .classKw => "ClassKw"
  | .constKw => "ConstKw"
  | .decimalKw => "DecimalKw"
  | .delegateKw => "DelegateKw"
  | .doubleKw => "DoubleKw"
  | .elseKw => "ElseKw"
  | .eventKw => "EventKw"
  | .falseKw => "FalseKw"
  | .floatKw => "FloatKw"
  | .ifKw => "IfKw"
  | .interfaceKw => "InterfaceKw"
  | .internalKw => "InternalKw"
  | .intKw => "IntKw"
  | .longKw => "LongKw"
  | .namespaceKw => "NamespaceKw"
  | .newKw => "NewKw"
  | .nullKw => "NullKw"
  | .objectKw => "ObjectKw"
  | .overrideKw => "OverrideKw"
  | .privateKw => "PrivateKw"
  | .protectedKw => "ProtectedKw"
  | .publicKw => "PublicKw"
  | .readonlyKw => "ReadonlyKw"
  | .returnKw => "ReturnKw"
  | .sbyteKw => "SbyteKw"
  | .sealedKw => "SealedKw"
  | .shortKw => "ShortKw"
  | .staticKw => "StaticKw"
  | .stringKw => "StringKw"
  | .structKw => "StructKw"
  | .thisKw => "ThisKw"
  | .trueKw => "TrueKw"
  | .uintKw => "UintKw"
  | .ulongKw => "UlongKw"
  | .ushortKw => "UshortKw"
  | .usingKw => "UsingKw"
  | .virtualKw => "VirtualKw"
  | .voidKw => "VoidKw"
  | .lParen => "LParen"
  | .rParen => "RParen"
  | .lBrace => "LBrace"
  | .rBrace => "RBrace"
  | .lBracket => "LBracket"
  | .rBracket => "RBracket"
  | .semicolon => "Semicolon"
  | .comma => "Comma"
  | .dot => "Dot"
  | .colon => "Colon"
  | .question => "Question"
  | .fatArrow => "FatArrow"
  | .plus => "Plus"
  | .minus => "Minus"
  | .star => "Star"
  | .slash => "Slash"
  | .percent => "Percent"
  | .tilde => "Tilde"
  | .bang => "Bang"
  | .amp => "Amp"
  | .pipe => "Pipe"
  | .caret => "Caret"
  | .eq => "Eq"
  | .eqEq => "EqEq"
  | .bangEq => "BangEq"
  | .less => "Less"
  | .lessEq => "LessEq"
  | .greater => "Greater"
  | .greaterEq => "GreaterEq"
  | .ampAmp => "AmpAmp"
  | .pipePipe => "PipePipe"
  | .plusPlus => "PlusPlus"
  | .minusMinus => "MinusMinus"
  | .plusEq => "PlusEq"
  | .minusEq => "MinusEq"
  | .starEq => "StarEq"
  | .slashEq => "SlashEq"
  | .error => "Error"
  | .eof => "Eof"
  | .compilationUnit => "CompilationUnit"
  | .usingDirective => "UsingDirective"
  | .nameEquals => "NameEquals"
  | .namespaceDeclaration => "NamespaceDeclaration"
  | .classDeclaration => "ClassDeclaration"
  | .structDeclaration => "StructDeclaration"
  | .interfaceDeclaration => "InterfaceDeclaration"
  | .delegateDeclaration => "DelegateDeclaration"
  | .typeParameterList => "TypeParameterList"
  | .typeParameter => "TypeParameter"
  | .baseList => "BaseList"
  | .methodDeclaration => "MethodDeclaration"
  | .constructorDeclaration => "ConstructorDeclaration"
  | .fieldDeclaration => "FieldDeclaration"
  | .propertyDeclaration => "PropertyDeclaration"
  | .eventFieldDeclaration => "EventFieldDeclaration"
  | .eventDeclaration => "EventDeclaration"
  | .explicitInterfaceSpecifier => "ExplicitInterfaceSpecifier"
  | .accessorList => "AccessorList"
  | .accessorDeclaration => "AccessorDeclaration"
  | .arrowExpressionClause => "ArrowExpressionClause"
  | .variableDeclaration => "VariableDeclaration"
  | .variableDeclarator => "VariableDeclarator"
  | .equalsValueClause => "EqualsValueClause"
  | .parameterList => "ParameterList"
  | .parameter => "Parameter"
  | .block => "Block"
  | .localDeclarationStatement => "LocalDeclarationStatement"
  | .expressionStatement => "ExpressionStatement"
  | .returnStatement => "ReturnStatement"
  | .ifStatement => "IfStatement"
  | .elseClause => "ElseClause"
  | .emptyStatement => "EmptyStatement"
  | .identifierName => "IdentifierName"
  | .genericName => "GenericName"
  | .typeArgumentList => "TypeArgumentList"
  | .qualifiedName => "QualifiedName"
  | .predefinedType => "PredefinedType"
  | .arrayType => "ArrayType"
  | .arrayRankSpecifier => "ArrayRankSpecifier"
  | .memberAccessExpression => "MemberAccessExpression"
  | .invocationExpression => "InvocationExpression"
  | .argumentList => "ArgumentList"
  | .argument => "Argument"
  | .objectCreationExpression => "ObjectCreationExpression"
  | .anonymousMethodExpression => "AnonymousMethodExpression"
  | .simpleLambdaExpression => "SimpleLambdaExpression"
  | .parenthesizedLambdaExpression => "ParenthesizedLambdaExpression"
  | .assignmentExpression => "AssignmentExpression"
  | .binaryExpression => "BinaryExpression"
  | .prefixUnaryExpression => "PrefixUnaryExpression"
  | .postfixUnaryExpression => "PostfixUnaryExpression"
  | .castExpression => "CastExpression"
  | .parenthesizedExpression => "ParenthesizedExpression"
  | .literalExpression => "LiteralExpression"
  | .thisExpression => "ThisExpression"

/-- The name that a number stands for in stored data: the kinds, and one mark past the last kind. -/
def storedName? (n : Nat) : Option String :=
  if n = all.length then some "__Last" else (all[n]?).map name

/-- White space and comments. -/
def isTrivia : Kind → Bool
  | .whitespace | .lineComment | .blockComment => true
  | _ => false

/-- Reserved words. -/
def isKeyword (k : Kind) : Bool := abstractKw.number ≤ k.number && k.number ≤ voidKw.number

/-- Reserved words that name a built-in type. -/
def isPredefinedType : Kind → Bool
  | .boolKw | .byteKw | .charKw | .decimalKw | .doubleKw | .floatKw | .intKw | .longKw | .objectKw
  | .sbyteKw | .shortKw | .stringKw | .uintKw | .ulongKw | .ushortKw | .voidKw => true
  | _ => false

/-- Reserved words that may stand in front of a declaration. -/
def isModifier : Kind → Bool
  | .abstractKw | .constKw | .internalKw | .newKw | .overrideKw | .privateKw | .protectedKw
  | .publicKw | .readonlyKw | .sealedKw | .staticKw | .virtualKw => true
  | _ => false

/-- Tokens that are an expression by themselves. -/
def isLiteral : Kind → Bool
  | .intLiteral | .realLiteral | .charLiteral | .stringLiteral | .trueKw | .falseKw | .nullKw => true
  | _ => false

/-- The plain and the compound assignment signs. -/
def isAssignment : Kind → Bool
  | .eq | .plusEq | .minusEq | .starEq | .slashEq => true
  | _ => false

/-- Nodes that spell a type. -/
def isType : Kind → Bool
  | .identifierName | .genericName | .qualifiedName | .predefinedType | .arrayType => true
  | _ => false

/-- Nodes that can be read as an expression; names and built-in types can also spell a type. -/
def isExpression : Kind → Bool
  | .identifierName | .genericName | .predefinedType | .memberAccessExpression
  | .invocationExpression | .objectCreationExpression | .anonymousMethodExpression
  | .simpleLambdaExpression | .parenthesizedLambdaExpression | .assignmentExpression
  | .binaryExpression | .prefixUnaryExpression | .postfixUnaryExpression | .castExpression
  | .parenthesizedExpression | .literalExpression | .thisExpression => true
  | _ => false

/-- Declarations that open a type with members. -/
def isTypeDeclaration : Kind → Bool
  | .classDeclaration | .structDeclaration | .interfaceDeclaration => true
  | _ => false

/-- The only spelling of a keyword or a mark, and nothing for kinds with many spellings. -/
def fixedText? : Kind → Option String
  | .abstractKw => some "abstract"
  | .boolKw => some "bool"
  | .byteKw => some "byte"
  | .charKw => some "char"
  | .classKw => some "class"
  | .constKw => some "const"
  | .decimalKw => some "decimal"
  | .delegateKw => some "delegate"
  | .doubleKw => some "double"
  | .elseKw => some "else"
  | .eventKw => some "event"
  | .falseKw => some "false"
  | .floatKw => some "float"
  | .ifKw => some "if"
  | .interfaceKw => some "interface"
  | .internalKw => some "internal"
  | .intKw => some "int"
  | .longKw => some "long"
  | .namespaceKw => some "namespace"
  | .newKw => some "new"
  | .nullKw => some "null"
  | .objectKw => some "object"
  | .overrideKw => some "override"
  | .privateKw => some "private"
  | .protectedKw => some "protected"
  | .publicKw => some "public"
  | .readonlyKw => some "readonly"
  | .returnKw => some "return"
  | .sbyteKw => some "sbyte"
  | .sealedKw => some "sealed"
  | .shortKw => some "short"
  | .staticKw => some "static"
  | .stringKw => some "string"
  | .structKw => some "struct"
  | .thisKw => some "this"
  | .trueKw => some "true"
  | .uintKw => some "uint"
  | .ulongKw => some "ulong"
  | .ushortKw => some "ushort"
  | .usingKw => some "using"
  | .virtualKw => some "virtual"
  | .voidKw => some "void"
  | .lParen => some "("
  | .rParen => some ")"
  | .lBrace => some "\x7b"
  | .rBrace => some "\x7d"
  | .lBracket => some "["
  | .rBracket => some "]"
  | .semicolon => some ";"
  | .comma => some ","
  | .dot => some "."
  | .colon => some ":"
  | .question => some "?"
  | .fatArrow => some "=>"
  | .plus => some "+"
  | .minus => some "-"
  | .star => some "*"
  | .slash => some "/"
  | .percent => some "%"
  | .tilde => some "~"
  | .bang => some "!"
  | .amp => some "&"
  | .pipe => some "|"
  | .caret => some "^"
  | .eq => some "="
  | .eqEq => some "=="
  | .bangEq => some "!="
  | .less => some "<"
  | .lessEq => some "<="
  | .greater => some ">"
  | .greaterEq => some ">="
  | .ampAmp => some "&&"
  | .pipePipe => some "||"
  | .plusPlus => some "++"
  | .minusMinus => some "--"
  | .plusEq => some "+="
  | .minusEq => some "-="
  | .starEq => some "*="
  | .slashEq => some "/="
  | _ => none

/-- The reserved words. -/
def keywords : List Kind := all.filter isKeyword

/-- The keyword that a word spells. -/
def ofKeyword? (word : String) : Option Kind := keywords.find? (fun k => k.fixedText? = some word)

/-- Operator and punctuation marks, those of two characters first so that the longest one is met
first. Shift signs are not among them: a run of closing angle brackets may end nested argument
lists. -/
def marks : List Kind :=
  [.fatArrow, .eqEq, .bangEq, .lessEq, .greaterEq, .ampAmp, .pipePipe, .plusPlus, .minusMinus,
   .plusEq, .minusEq, .starEq, .slashEq, .lParen, .rParen, .lBrace, .rBrace, .lBracket, .rBracket,
   .semicolon, .comma, .dot, .colon, .question, .plus, .minus, .star, .slash, .percent, .tilde,
   .bang, .amp, .pipe, .caret, .eq, .less, .greater]

theorem getElem?_all_number (k : Kind) : all[k.number]? = some k := by
  cases k <;> rfl

@[simp] theorem ofNumber_number (k : Kind) : ofNumber k.number = k := by
  simp [ofNumber, getElem?_all_number]

theorem fixedText?_of_ofKeyword? {word : String} {k : Kind} (h : ofKeyword? word = some k) :
    k.fixedText? = some word := by
  simpa using List.find?_some h

end Kind
end SharpRefactor
