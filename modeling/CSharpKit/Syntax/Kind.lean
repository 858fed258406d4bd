/-! # Kinds of tokens and nodes

One enumeration names everything that occurs in a tree of C# source: the
tokens, trivia included, and the nodes above them. -/

namespace CSharpKit.Syntax

/-- The kind of a token or node. -/
inductive Kind where
  -- trivia
  | whitespace | lineComment | multiLineComment | docComment | preprocessorDirective
  -- identifiers and literals
  | identifier | intLiteral | realLiteral | charLiteral | stringLiteral
  -- reserved keywords
  | abstractKw | asKw | baseKw | boolKw | breakKw | byteKw | caseKw | catchKw | charKw
  | checkedKw | classKw | constKw | continueKw | decimalKw | defaultKw | delegateKw | doKw
  | doubleKw | elseKw | enumKw | eventKw | explicitKw | externKw | falseKw | finallyKw | fixedKw
  | floatKw | forKw | foreachKw | gotoKw | ifKw | implicitKw | inKw | intKw | interfaceKw
  | internalKw | isKw | lockKw | longKw | namespaceKw | newKw | nullKw | objectKw | operatorKw
  | outKw | overrideKw | paramsKw | privateKw | protectedKw | publicKw | readonlyKw | refKw
  | returnKw | sbyteKw | sealedKw | shortKw | sizeofKw | stackallocKw | staticKw | stringKw
  | structKw | switchKw | thisKw | throwKw | trueKw | tryKw | typeofKw | uintKw | ulongKw
  | uncheckedKw | unsafeKw | ushortKw | usingKw | virtualKw | voidKw | volatileKw | whileKw
  -- punctuation and operators
  | lParen | rParen | lBrace | rBrace | lBracket | rBracket | semicolon | comma | dot | colon
  | colonColon | question | questionQuestion | questionQuestionEq | questionDot | arrow | eq
  | eqEq | bang | bangEq | tilde | plus | plusPlus | plusEq | minus | minusMinus | minusEq | star
  | starEq | slash | slashEq | percent | percentEq | amp | ampAmp | ampEq | pipe | pipePipe
  | pipeEq | caret | caretEq | less | lessEq | leftShift | leftShiftEq | greater | greaterEq
  -- text that is no token, and the end of the text
  | error | eof
  -- declarations and their parts
  | compilationUnit | usingDirective | namespaceDeclaration | fileScopedNamespaceDeclaration
  | classDeclaration | structDeclaration | interfaceDeclaration | enumDeclaration
  | enumMemberDeclaration | delegateDeclaration | methodDeclaration | constructorDeclaration
  | fieldDeclaration | propertyDeclaration | accessorList | accessorDeclaration
  | arrowExpressionClause | equalsValueClause | modifiers | attributeList | typeParameterList
  | typeParameter | typeParameterConstraintClause | baseList | parameterList | parameter
  | argumentList | bracketedArgumentList | argument | nameColon
  -- types; names are expressions too
  | predefinedType | identifierName | genericName | typeArgumentList | qualifiedName
  | aliasQualifiedName | arrayType | arrayRankSpecifier | nullableType
  -- statements
  | block | localDeclarationStatement | variableDeclaration | variableDeclarator
  | expressionStatement | returnStatement | ifStatement | elseClause | whileStatement
  | forStatement | forEachStatement | throwStatement | breakStatement | continueStatement
  | emptyStatement
  -- expressions
  | literalExpression | thisExpression | baseExpression | parenthesizedExpression
  | memberAccessExpression | invocationExpression | elementAccessExpression
  | objectCreationExpression | initializerExpression | simpleLambdaExpression
  | parenthesizedLambdaExpression | prefixUnaryExpression | postfixUnaryExpression
  | binaryExpression | isExpression | asExpression | conditionalExpression | assignmentExpression
  | castExpression | typeOfExpression | defaultExpression
  deriving DecidableEq, Hashable, Inhabited

namespace Kind

/-- Every kind, in the order of declaration. -/
def all : List Kind := [
  .whitespace, .lineComment, .multiLineComment, .docComment, .preprocessorDirective,
  .identifier, .intLiteral, .realLiteral, .charLiteral, .stringLiteral, .abstractKw, .asKw,
  .baseKw, .boolKw, .breakKw, .byteKw, .caseKw, .catchKw, .charKw, .checkedKw, .classKw,
  .constKw, .continueKw, .decimalKw, .defaultKw, .delegateKw, .doKw, .doubleKw, .elseKw,
  .enumKw, .eventKw, .explicitKw, .externKw, .falseKw, .finallyKw, .fixedKw, .floatKw, .forKw,
  .foreachKw, .gotoKw, .ifKw, .implicitKw, .inKw, .intKw, .interfaceKw, .internalKw, .isKw,
  .lockKw, .longKw, .namespaceKw, .newKw, .nullKw, .objectKw, .operatorKw, .outKw, .overrideKw,
  .paramsKw, .privateKw, .protectedKw, .publicKw, .readonlyKw, .refKw, .returnKw, .sbyteKw,
  .sealedKw, .shortKw, .sizeofKw, .stackallocKw, .staticKw, .stringKw, .structKw, .switchKw,
  .thisKw, .throwKw, .trueKw, .tryKw, .typeofKw, .uintKw, .ulongKw, .uncheckedKw, .unsafeKw,
  .ushortKw, .usingKw, .virtualKw, .voidKw, .volatileKw, .whileKw, .lParen, .rParen, .lBrace,
  .rBrace, .lBracket, .rBracket, .semicolon, .comma, .dot, .colon, .colonColon, .question,
  .questionQuestion, .questionQuestionEq, .questionDot, .arrow, .eq, .eqEq, .bang, .bangEq,
  .tilde, .plus, .plusPlus, .plusEq, .minus, .minusMinus, .minusEq, .star, .starEq, .slash,
  .slashEq, .percent, .percentEq, .amp, .ampAmp, .ampEq, .pipe, .pipePipe, .pipeEq, .caret,
  .caretEq, .less, .lessEq, .leftShift, .leftShiftEq, .greater, .greaterEq, .error, .eof,
  .compilationUnit, .usingDirective, .namespaceDeclaration, .fileScopedNamespaceDeclaration,
  .classDeclaration, .structDeclaration, .interfaceDeclaration, .enumDeclaration,
  .enumMemberDeclaration, .delegateDeclaration, .methodDeclaration, .constructorDeclaration,
  .fieldDeclaration, .propertyDeclaration, .accessorList, .accessorDeclaration,
  .arrowExpressionClause, .equalsValueClause, .modifiers, .attributeList, .typeParameterList,
  .typeParameter, .typeParameterConstraintClause, .baseList, .parameterList, .parameter,
  .argumentList, .bracketedArgumentList, .argument, .nameColon, .predefinedType,
  .identifierName, .genericName, .typeArgumentList, .qualifiedName, .aliasQualifiedName,
  .arrayType, .arrayRankSpecifier, .nullableType, .block, .localDeclarationStatement,
  .variableDeclaration, .variableDeclarator, .expressionStatement, .returnStatement,
  .ifStatement, .elseClause, .whileStatement, .forStatement, .forEachStatement,
  .throwStatement, .breakStatement, .continueStatement, .emptyStatement, .literalExpression,
  .thisExpression, .baseExpression, .parenthesizedExpression, .memberAccessExpression,
  .invocationExpression, .elementAccessExpression, .objectCreationExpression,
  .initializerExpression, .simpleLambdaExpression, .parenthesizedLambdaExpression,
  .prefixUnaryExpression, .postfixUnaryExpression, .binaryExpression, .isExpression,
  .asExpression, .conditionalExpression, .assignmentExpression, .castExpression,
  .typeOfExpression, .defaultExpression]

/-- The number of a kind in the order of declaration. -/
def index (k : Kind) : Nat := k.ctorIdx

/-- The name a kind is shown by. -/
def name : Kind → String
  | .whitespace => "Whitespace"
  | .lineComment => "LineComment"
  | .multiLineComment => "MultiLineComment"
  | .docComment => "DocComment"
  | .preprocessorDirective => "PreprocessorDirective"
  | .identifier => "Identifier"
  | .intLiteral => "IntLiteral"
  | .realLiteral => "RealLiteral"
  | .charLiteral => "CharLiteral"
  | .stringLiteral => "StringLiteral"
  | .abstractKw => "AbstractKw"
  | .asKw => "AsKw"
  | .baseKw => "BaseKw"
  | .boolKw => "BoolKw"
  | .breakKw => "BreakKw"
  | .byteKw => "ByteKw"
  | .caseKw => "CaseKw"
  | .catchKw => "CatchKw"
  | .charKw => "CharKw"
  | .checkedKw => "CheckedKw"
  | .classKw => "ClassKw"
  | .constKw => "ConstKw"
  | .continueKw => "ContinueKw"
  | .decimalKw => "DecimalKw"
  | .defaultKw => "DefaultKw"
  | .delegateKw => "DelegateKw"
  | .doKw => "DoKw"
  | .doubleKw => "DoubleKw"
  | .elseKw => "ElseKw"
  | .enumKw => "EnumKw"
  | .eventKw => "EventKw"
  | .explicitKw => "ExplicitKw"
  | .externKw => "ExternKw"
  | .falseKw => "FalseKw"
  | .finallyKw => "FinallyKw"
  | .fixedKw => "FixedKw"
  | .floatKw => "FloatKw"
  | .forKw => "ForKw"
  | .foreachKw => "ForeachKw"
  | .gotoKw => "GotoKw"
  | .ifKw => "IfKw"
  | .implicitKw => "ImplicitKw"
  | .inKw => "InKw"
  | .intKw => "IntKw"
  | .interfaceKw => "InterfaceKw"
  | .internalKw => "InternalKw"
  | .isKw => "IsKw"
  | .lockKw => "LockKw"
  | .longKw => "LongKw"
  | .namespaceKw => "NamespaceKw"
  | .newKw => "NewKw"
  | .nullKw => "NullKw"
  | .objectKw => "ObjectKw"
  | .operatorKw => "OperatorKw"
  | .outKw => "OutKw"
  | .overrideKw => "OverrideKw"
  | .paramsKw => "ParamsKw"
  | .privateKw => "PrivateKw"
  | .protectedKw => "ProtectedKw"
  | .publicKw => "PublicKw"
  | .readonlyKw => "ReadonlyKw"
  | .refKw => "RefKw"
  | .returnKw => "ReturnKw"
  | .sbyteKw => "SbyteKw"
  | .sealedKw => "SealedKw"
  | .shortKw => "ShortKw"
  | .sizeofKw => "SizeofKw"
  | .stackallocKw => "StackallocKw"
  | .staticKw => "StaticKw"
  | .stringKw => "StringKw"
  | .structKw => "StructKw"
  | .switchKw => "SwitchKw"
  | .thisKw => "ThisKw"
  | .throwKw => "ThrowKw"
  | .trueKw => "TrueKw"
  | .tryKw => "TryKw"
  | .typeofKw => "TypeofKw"
  | .uintKw => "UintKw"
  | .ulongKw => "UlongKw"
  | .uncheckedKw => "UncheckedKw"
  | .unsafeKw => "UnsafeKw"
  | .ushortKw => "UshortKw"
  | .usingKw => "UsingKw"
  | .virtualKw => "VirtualKw"
  | .voidKw => "VoidKw"
  | .volatileKw => "VolatileKw"
  | .whileKw => "WhileKw"
  | .lParen => "LParen"
  | .rParen => "RParen"
  | .lBrace => "LBrace"
  | .rBrace => "RBrace"
  | .lBracket => "LBracket"
  | .rBracket => "RBracket"
  | .semicolon => "Semicolon"
  | .comma => "Comma"
  | .dot => "Dot"
  | .colon => "Colon"
  | .colonColon => "ColonColon"
  | .question => "Question"
  | .questionQuestion => "QuestionQuestion"
  | .questionQuestionEq => "QuestionQuestionEq"
  | .questionDot => "QuestionDot"
  | .arrow => "Arrow"
  | .eq => "Eq"
  | .eqEq => "EqEq"
  | .bang => "Bang"
  | .bangEq => "BangEq"
  | .tilde => "Tilde"
  | .plus => "Plus"
  | .plusPlus => "PlusPlus"
  | .plusEq => "PlusEq"
  | .minus => "Minus"
  | .minusMinus => "MinusMinus"
  | .minusEq => "MinusEq"
  | .star => "Star"
  | .starEq => "StarEq"
  | .slash => "Slash"
  | .slashEq => "SlashEq"
  | .percent => "Percent"
  | .percentEq => "PercentEq"
  | .amp => "Amp"
  | .ampAmp => "AmpAmp"
  | .ampEq => "AmpEq"
  | .pipe => "Pipe"
  | .pipePipe => "PipePipe"
  | .pipeEq => "PipeEq"
  | .caret => "Caret"
  | .caretEq => "CaretEq"
  | .less => "Less"
  | .lessEq => "LessEq"
  | .leftShift => "LeftShift"
  | .leftShiftEq => "LeftShiftEq"
  | .greater => "Greater"
  | .greaterEq => "GreaterEq"
  | .error => "Error"
  | .eof => "Eof"
  | .compilationUnit => "CompilationUnit"
  | .usingDirective => "UsingDirective"
  | .namespaceDeclaration => "NamespaceDeclaration"
  | .fileScopedNamespaceDeclaration => "FileScopedNamespaceDeclaration"
  | .classDeclaration => "ClassDeclaration"
  | .structDeclaration => "StructDeclaration"
  | .interfaceDeclaration => "InterfaceDeclaration"
  | .enumDeclaration => "EnumDeclaration"
  | .enumMemberDeclaration => "EnumMemberDeclaration"
  | .delegateDeclaration => "DelegateDeclaration"
  | .methodDeclaration => "MethodDeclaration"
  | .constructorDeclaration => "ConstructorDeclaration"
  | .fieldDeclaration => "FieldDeclaration"
  | .propertyDeclaration => "PropertyDeclaration"
  | .accessorList => "AccessorList"
  | .accessorDeclaration => "AccessorDeclaration"
  | .arrowExpressionClause => "ArrowExpressionClause"
  | .equalsValueClause => "EqualsValueClause"
  | .modifiers => "Modifiers"
  | .attributeList => "AttributeList"
  | .typeParameterList => "TypeParameterList"
  | .typeParameter => "TypeParameter"
  | .typeParameterConstraintClause => "TypeParameterConstraintClause"
  | .baseList => "BaseList"
  | .parameterList => "ParameterList"
  | .parameter => "Parameter"
  | .argumentList => "ArgumentList"
  | .bracketedArgumentList => "BracketedArgumentList"
  | .argument => "Argument"
  | .nameColon => "NameColon"
  | .predefinedType => "PredefinedType"
  | .identifierName => "IdentifierName"
  | .genericName => "GenericName"
  | .typeArgumentList => "TypeArgumentList"
  | .qualifiedName => "QualifiedName"
  | .aliasQualifiedName => "AliasQualifiedName"
  | .arrayType => "ArrayType"
  | .arrayRankSpecifier => "ArrayRankSpecifier"
  | .nullableType => "NullableType"
  | .block => "Block"
  | .localDeclarationStatement => "LocalDeclarationStatement"
  | .variableDeclaration => "VariableDeclaration"
  | .variableDeclarator => "VariableDeclarator"
  | .expressionStatement => "ExpressionStatement"
  | .returnStatement => "ReturnStatement"
  | .ifStatement => "IfStatement"
  | .elseClause => "ElseClause"
  | .whileStatement => "WhileStatement"
  | .forStatement => "ForStatement"
  | .forEachStatement => "ForEachStatement"
  | .throwStatement => "ThrowStatement"
  | .breakStatement => "BreakStatement"
  | .continueStatement => "ContinueStatement"
  | .emptyStatement => "EmptyStatement"
  | .literalExpression => "LiteralExpression"
  | .thisExpression => "ThisExpression"
  | .baseExpression => "BaseExpression"
  | .parenthesizedExpression => "ParenthesizedExpression"
  | .memberAccessExpression => "MemberAccessExpression"
  | .invocationExpression => "InvocationExpression"
  | .elementAccessExpression => "ElementAccessExpression"
  | .objectCreationExpression => "ObjectCreationExpression"
  | .initializerExpression => "InitializerExpression"
  | .simpleLambdaExpression => "SimpleLambdaExpression"
  | .parenthesizedLambdaExpression => "ParenthesizedLambdaExpression"
  | .prefixUnaryExpression => "PrefixUnaryExpression"
  | .postfixUnaryExpression => "PostfixUnaryExpression"
  | .binaryExpression => "BinaryExpression"
  | .isExpression => "IsExpression"
  | .asExpression => "AsExpression"
  | .conditionalExpression => "ConditionalExpression"
  | .assignmentExpression => "AssignmentExpression"
  | .castExpression => "CastExpression"
  | .typeOfExpression => "TypeOfExpression"
  | .defaultExpression => "DefaultExpression"

def ofName? (s : String) : Option Kind := all.find? (·.name == s)

/-- Tokens that carry no meaning of their own: blanks, comments and directives. -/
def isTrivia : Kind → Bool
  | .whitespace | .lineComment | .multiLineComment | .docComment | .preprocessorDirective => true
  | _ => false

/-- The reserved words and their kinds. -/
def keywords : List (String × Kind) := [
  ("abstract", .abstractKw), ("as", .asKw), ("base", .baseKw), ("bool", .boolKw),
  ("break", .breakKw), ("byte", .byteKw), ("case", .caseKw), ("catch", .catchKw),
  ("char", .charKw), ("checked", .checkedKw), ("class", .classKw), ("const", .constKw),
  ("continue", .continueKw), ("decimal", .decimalKw), ("default", .defaultKw),
  ("delegate", .delegateKw), ("do", .doKw), ("double", .doubleKw), ("else", .elseKw),
  ("enum", .enumKw), ("event", .eventKw), ("explicit", .explicitKw), ("extern", .externKw),
  ("false", .falseKw), ("finally", .finallyKw), ("fixed", .fixedKw), ("float", .floatKw),
  ("for", .forKw), ("foreach", .foreachKw), ("goto", .gotoKw), ("if", .ifKw),
  ("implicit", .implicitKw), ("in", .inKw), ("int", .intKw), ("interface", .interfaceKw),
  ("internal", .internalKw), ("is", .isKw), ("lock", .lockKw), ("long", .longKw),
  ("namespace", .namespaceKw), ("new", .newKw), ("null", .nullKw), ("object", .objectKw),
  ("operator", .operatorKw), ("out", .outKw), ("override", .overrideKw), ("params", .paramsKw),
  ("private", .privateKw), ("protected", .protectedKw), ("public", .publicKw),
  ("readonly", .readonlyKw), ("ref", .refKw), ("return", .returnKw), ("sbyte", .sbyteKw),
  ("sealed", .sealedKw), ("short", .shortKw), ("sizeof", .sizeofKw),
  ("stackalloc", .stackallocKw), ("static", .staticKw), ("string", .stringKw),
  ("struct", .structKw), ("switch", .switchKw), ("this", .thisKw), ("throw", .throwKw),
  ("true", .trueKw), ("try", .tryKw), ("typeof", .typeofKw), ("uint", .uintKw),
  ("ulong", .ulongKw), ("unchecked", .uncheckedKw), ("unsafe", .unsafeKw),
  ("ushort", .ushortKw), ("using", .usingKw), ("virtual", .virtualKw), ("void", .voidKw),
  ("volatile", .volatileKw), ("while", .whileKw)]

/-- The kind of a reserved word; `none` for any other text. -/
def ofKeyword? (text : String) : Option Kind := keywords.lookup text

/-- The spelling of a keyword; empty for other kinds. -/
def keywordText (k : Kind) : String := ((keywords.find? (·.2 == k)).map (·.1)).getD ""

def isKeyword (k : Kind) : Bool := keywords.any (·.2 == k)

/-- Keywords that name a type; `void` is not one of them. -/
def isPredefinedType : Kind → Bool
  | .boolKw | .byteKw | .sbyteKw | .charKw | .decimalKw | .doubleKw | .floatKw | .intKw
  | .uintKw | .longKw | .ulongKw | .shortKw | .ushortKw | .objectKw | .stringKw => true
  | _ => false

/-- Keywords that may stand before a declaration. -/
def isModifier : Kind → Bool
  | .publicKw | .privateKw | .protectedKw | .internalKw | .staticKw | .abstractKw | .sealedKw
  | .virtualKw | .overrideKw | .readonlyKw | .constKw | .externKw | .unsafeKw | .volatileKw
  | .newKw => true
  | _ => false

/-- Nodes that write a type. -/
def isType : Kind → Bool
  | .predefinedType | .identifierName | .genericName | .qualifiedName | .aliasQualifiedName
  | .arrayType | .nullableType => true
  | _ => false

/-- Nodes that write one segment of a name. -/
def isSimpleName : Kind → Bool
  | .identifierName | .genericName => true
  | _ => false

/-- Nodes that may stand as an expression. -/
def isExpr : Kind → Bool
  | .literalExpression | .thisExpression | .baseExpression | .parenthesizedExpression
  | .memberAccessExpression | .invocationExpression | .elementAccessExpression
  | .objectCreationExpression | .initializerExpression | .simpleLambdaExpression
  | .parenthesizedLambdaExpression | .prefixUnaryExpression | .postfixUnaryExpression
  | .binaryExpression | .isExpression | .asExpression | .conditionalExpression
  | .assignmentExpression | .castExpression | .typeOfExpression | .defaultExpression
  | .identifierName | .genericName | .aliasQualifiedName | .predefinedType => true
  | _ => false

/-- Nodes that stand for a member of a file, a namespace or a type. -/
def isMember : Kind → Bool
  | .namespaceDeclaration | .fileScopedNamespaceDeclaration | .classDeclaration
  | .structDeclaration | .interfaceDeclaration | .enumDeclaration | .delegateDeclaration
  | .methodDeclaration | .constructorDeclaration | .fieldDeclaration | .propertyDeclaration
  | .error => true
  | _ => false

/-- Classes, structs and interfaces. -/
def isTypeDeclaration : Kind → Bool
  | .classDeclaration | .structDeclaration | .interfaceDeclaration => true
  | _ => false

/-- Namespaces with a block and namespaces for the rest of a file. -/
def isNamespaceDeclaration : Kind → Bool
  | .namespaceDeclaration | .fileScopedNamespaceDeclaration => true
  | _ => false

/-- Arguments in parentheses or brackets. -/
def isArgumentList : Kind → Bool
  | .argumentList | .bracketedArgumentList => true
  | _ => false

/-- Lambdas with one bare parameter or with a parameter list. -/
def isLambda : Kind → Bool
  | .simpleLambdaExpression | .parenthesizedLambdaExpression => true
  | _ => false

end Kind

end CSharpKit.Syntax
