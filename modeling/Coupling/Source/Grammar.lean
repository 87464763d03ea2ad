import Coupling.Source.Rule

/-! A source is a sequence of statements and method declarations. Keywords are reserved only where the
grammar can use them: everywhere else the same word is a name. A rule that reads a name therefore says
which words it leaves to its alternatives. -/
namespace Coupling.Source

inductive Symbol
  | topLevel
  | statement
  | block
  | classBody
  | interfaceBody
  | annotationTypeBody
  | enumBody
  | modifiers
  | annotationUse
  | elementValue
  | type (reserved : List String)
  | typeArguments
  | formalParameters
  | recordPattern
  | arrayInitializer
  | switchExpression
  | primary
  /-- Where the arrow of a switch rule may follow, an operand is no lambda expression. -/
  | operand (beforeArrow : Bool)
  | expression (beforeArrow : Bool)
  deriving DecidableEq, Repr

abbrev Pattern := Rule Symbol

namespace Grammar

open Rule

/-! ## Words -/

def primitiveWords : List String :=
  ["byte", "short", "int", "long", "char", "float", "double", "boolean", "void"]

/-- Words that open an operand and are neither a name nor a type. -/
def valueWords : List String := ["new", "this", "super", "switch", "true", "false", "null"]

def operandWords : List String := primitiveWords ++ valueWords

/-- Words that are names in expressions but never types there. -/
def contextualWords : List String := ["open", "module", "record", "with", "sealed", "yield"]

def modifierWords : List String :=
  ["public", "protected", "private", "abstract", "static", "final", "strictfp", "default",
    "synchronized", "native", "transient", "volatile"]

/-- Words that open a statement which is no expression. -/
def statementWords : List String :=
  modifierWords ++ ["assert", "break", "class", "continue", "do", "enum", "for", "if",
    "import", "interface", "package", "return", "throw", "try", "while"]

def memberWords : List String :=
  primitiveWords ++ modifierWords ++ ["sealed", "class", "interface", "enum", "record"]

def elementWords : List String :=
  primitiveWords ++ modifierWords ++ ["sealed", "class", "interface", "enum"]

def localWords : List String := statementWords ++ operandWords ++ contextualWords

def castWords : List String := operandWords ++ contextualWords

def lambdaWords : List String := valueWords ++ contextualWords.erase "sealed"

def parameterWords : List String := primitiveWords ++ modifierWords ++ ["sealed"]

def memberAccessWords : List String := ["new", "this", "super"]

/-- Behind a type that can belong to a variable, the low line is always the name of that variable. -/
def lowLine : List String := ["_"]

/-! ## Pieces -/

def sym (text : String) : Pattern := accept (.symbol text)
def key (text : String) : Pattern := accept (.keyword text)
def openBrace : Pattern := sym "\x7b"
def closeBrace : Pattern := sym "\x7d"
def braced (a : Pattern) : Pattern := all [openBrace, a, closeBrace]
def identifier : Pattern := accept (.word .identifier)
def identifierExcept (words : List String) : Pattern := all [exclude words, identifier]
def expression : Pattern := call (.expression false)
def typeOf (reserved : List String) : Pattern := call (.type reserved)
def commaList (a : Pattern) : Pattern := separated a (sym ",")
def trailingCommaList (a : Pattern) : Pattern := all [optional (commaList a), optional (sym ",")]

def wordNode (kind : Kind) (text : String) : Pattern := node kind (key text)

def qualifiedName : Pattern :=
  scope (all [identifier, many (all [sym ".", identifier, close .scopedIdentifier])])

/-- Symbols that are written with closing angle brackets. -/
def angles (first : String) (others : List String) : Pattern :=
  all (sym first :: others.map fun s => accept (.tightSymbol s))

/-! ## Annotations and modifiers -/

def elementValuePair (reserved : List String) : Pattern :=
  node .elementValuePair (all [identifierExcept reserved, sym "=", call .elementValue])

/-- The first name stands where a value could stand as well. -/
def elementValuePairs : Pattern :=
  all [elementValuePair castWords, many (all [sym ",", elementValuePair []])]

def annotationArguments : Pattern :=
  node .annotationArguments (all [sym "(", oneOf
    (all [elementValuePairs, sym ")"])
    [all [call .elementValue, sym ")"], sym ")"]])

def annotationUse : Pattern :=
  scope (all [sym "@", qualifiedName,
    oneOf (all [annotationArguments, close .annotationUse]) [close .annotationMark]])

def annotations : Pattern := many (call .annotationUse)

def elementValue : Pattern :=
  oneOf (node .elementValueArray (braced (trailingCommaList (call .elementValue))))
    [call .annotationUse, expression]

def nonSealed : Pattern :=
  all [key "non", accept (.tightSymbol "-"), accept (.tightKeyword "sealed")]

def modifier : Pattern := oneOf (call .annotationUse) (nonSealed :: key "sealed" :: modifierWords.map key)

def modifiers : Pattern := node .modifiers (atLeastOne modifier)

/-! ## Types -/

def typeWord (reserved : List String) : Pattern :=
  all [exclude reserved, accept (.word .typeIdentifier)]

def primitiveType : Pattern :=
  node .primitiveType (oneOf (key "void") (primitiveWords.map key))

def dimensions : Pattern :=
  node .dimensions (atLeastOne (all [annotations, sym "[", sym "]"]))

def genericTail : Pattern := optional (all [call .typeArguments, close .genericType])

/-- Words that are no name behind a point in a type: where an operand can stand as well, those that
would go on with the operand. -/
def afterPoint (reserved : List String) : List String :=
  if reserved.contains "new" then "class" :: memberAccessWords else []

def simpleType (reserved : List String) : Pattern :=
  oneOf primitiveType [scope (all [typeWord reserved, genericTail,
    many (all [sym ".", annotations, typeWord (afterPoint reserved), close .scopedType, genericTail])])]

def unannotatedType (reserved : List String) : Pattern :=
  scope (all [simpleType reserved, optional (all [dimensions, close .arrayType])])

def type (reserved : List String) : Pattern :=
  oneOf (unannotatedType reserved)
    [node .annotatedType (all [atLeastOne (call .annotationUse), unannotatedType reserved])]

/-- A type in a place where nothing but types can stand. -/
def plainType : Pattern := typeOf primitiveWords

def wildcard : Pattern :=
  node .wildcard (all [annotations, sym "?", optional (oneOf
    (all [key "extends", plainType])
    [all [wordNode .superName "super", plainType]])])

def typeArguments : Pattern :=
  node .typeArguments (all [sym "<", optional (commaList (oneOf wildcard [plainType])), sym ">"])

def typeParameter : Pattern :=
  node .typeParameter (all [annotations, accept (.word .typeIdentifier), optional
    (node .typeBound (all [key "extends", separated plainType (sym "&")]))])

def typeParameters : Pattern :=
  node .typeParameters (all [sym "<", commaList typeParameter, sym ">"])

def typeList : Pattern := node .typeList (commaList plainType)

/-! ## Variables and parameters -/

/-- The name that a declaration gives to a variable, with dimensions behind it. -/
def variableName (reserved : List String) : Pattern :=
  all [role .name (identifierExcept reserved), optional (role .dimensions dimensions)]

def initializer : Pattern := oneOf (call .arrayInitializer) [expression]

def arrayInitializer : Pattern := node .arrayInitializer (braced (trailingCommaList initializer))

def variableDeclarator (reserved : List String) : Pattern :=
  node .variableDeclarator (all [variableName reserved,
    optional (all [sym "=", role .value initializer])])

def declarators (reserved : List String) : Pattern :=
  commaList (role .declarator (variableDeclarator reserved))

def formalParameter : Pattern :=
  node .formalParameter (all [optional (call .modifiers), role .type (unannotatedType parameterWords),
    variableName ["this"]])

def spreadParameter : Pattern :=
  node .spreadParameter (all [optional (call .modifiers), unannotatedType parameterWords, sym "...",
    annotations, variableDeclarator []])

def receiverParameter : Pattern :=
  node .receiverParameter (all [annotations, unannotatedType parameterWords,
    optional (all [identifierExcept lowLine, sym ".", many (all [identifier, sym "."])]),
    wordNode .thisName "this"])

def formalParameters : Pattern :=
  node .formalParameters (all [sym "(", oneOf
    (all [receiverParameter, sym ")"])
    [all [optional (all [receiverParameter, sym ","]),
      optional (commaList (oneOf formalParameter [spreadParameter])), sym ")"]]])

/-! ## Declarations

Each of these goes on in a scope that holds the modifiers, and closes it. -/

def superInterfaces : Pattern := node .superInterfaces (all [key "implements", typeList])

def permits : Pattern := node .permits (all [key "permits", typeList])

def classTail : Pattern :=
  all [key "class", role .name identifier, optional typeParameters,
    optional (node .superclass (all [key "extends", plainType])), optional superInterfaces,
    optional permits, role .body (call .classBody), close .classDeclaration]

def interfaceTail : Pattern :=
  all [key "interface", role .name identifier, optional typeParameters,
    optional (node .extendsInterfaces (all [key "extends", typeList])), optional permits,
    role .body (call .interfaceBody), close .interfaceDeclaration]

def enumTail : Pattern :=
  all [key "enum", role .name identifier, optional superInterfaces, role .body (call .enumBody),
    close .enumDeclaration]

def recordTail : Pattern :=
  all [key "record", role .name identifier, optional typeParameters,
    role .parameters (call .formalParameters), optional superInterfaces, role .body (call .classBody),
    close .recordDeclaration]

def annotationTypeTail : Pattern :=
  all [sym "@interface", role .name identifier, role .body (call .annotationTypeBody),
    close .annotationTypeDeclaration]

def throws : Pattern := node .throws (all [key "throws", commaList plainType])

def methodTail (reserved nameReserved : List String) : Pattern :=
  all [oneOf
    (all [typeParameters, annotations, role .type (unannotatedType primitiveWords),
      role .name identifier])
    [all [role .type (unannotatedType reserved), role .name (identifierExcept nameReserved)]],
    role .parameters (call .formalParameters),
    optional (role .dimensions dimensions), optional throws,
    oneOf (role .body (call .block)) [sym ";"], close .methodDeclaration]

def variablesTail (kind : Kind) (reserved nameReserved : List String) : Pattern :=
  all [role .type (unannotatedType reserved), declarators nameReserved, sym ";", close kind]

def argumentList : Pattern :=
  node .argumentList (all [sym "(", optional (commaList expression), sym ")"])

def explicitConstructorInvocation : Pattern :=
  node .explicitConstructorInvocation (all [oneOf
    (all [optional (call .typeArguments),
      oneOf (wordNode .thisName "this") [wordNode .superName "super"], argumentList])
    [all [call .primary, sym ".", optional (call .typeArguments), wordNode .superName "super",
      argumentList]], sym ";"])

def constructorBody : Pattern :=
  node .constructorBody (braced (all [optional explicitConstructorInvocation,
    many (call .statement)]))

def constructorTail : Pattern :=
  all [optional typeParameters, role .name (identifierExcept memberWords),
    role .parameters (call .formalParameters), optional throws, role .body constructorBody,
    close .constructorDeclaration]

def compactConstructorTail : Pattern :=
  all [role .name (identifierExcept memberWords), role .body (call .block),
    close .compactConstructorDeclaration]

def annotationElementTail : Pattern :=
  all [role .type (unannotatedType elementWords), role .name (identifierExcept lowLine),
    sym "(", sym ")",
    optional (role .dimensions dimensions), optional (all [key "default", call .elementValue]),
    sym ";", close .annotationElementDeclaration]

/-- A declaration with modifiers, the first tail that matches. -/
def declared (tail : Pattern) (tails : List Pattern) : Pattern :=
  scope (all [optional (call .modifiers), oneOf tail tails])

def staticInitializer : Pattern := node .staticInitializer (all [key "static", call .block])

def member : Pattern :=
  oneOf (sym ";") [call .block, staticInitializer, declared classTail [interfaceTail, enumTail,
    recordTail, annotationTypeTail, constructorTail, compactConstructorTail,
    methodTail memberWords lowLine, variablesTail .fieldDeclaration memberWords []]]

def classBody : Pattern := node .classBody (braced (many member))

def interfaceBody : Pattern :=
  node .interfaceBody (braced (many (oneOf (sym ";") [declared classTail [interfaceTail, enumTail,
    recordTail, annotationTypeTail, methodTail memberWords lowLine,
    variablesTail .constantDeclaration memberWords []]])))

def annotationTypeBody : Pattern :=
  node .annotationTypeBody (braced (many (oneOf (sym ";") [declared classTail [interfaceTail, enumTail,
    annotationTypeTail, annotationElementTail,
    variablesTail .constantDeclaration elementWords []]])))

def enumConstant : Pattern :=
  node .enumConstant (all [optional (call .modifiers), role .name (identifierExcept modifierWords),
    optional argumentList, optional (call .classBody)])

def enumBody : Pattern :=
  node .enumBody (braced (all [trailingCommaList enumConstant, optional
    (node .enumBodyDeclarations (all [sym ";", many member]))]))

def importDeclaration : Pattern :=
  node .importDeclaration (all [key "import", optional (key "static"), qualifiedName,
    optional (all [sym ".", node .asterisk (sym "*")]), sym ";"])

def packageDeclaration : Pattern :=
  node .packageDeclaration (all [annotations, key "package", qualifiedName, sym ";"])

def moduleDirective : Pattern :=
  let names := commaList qualifiedName
  node .moduleDirective (all [oneOf
    (all [key "requires", many (oneOf (key "transitive") [key "static"]), qualifiedName])
    [all [oneOf (key "exports") [key "opens"], qualifiedName, optional (all [key "to", names])],
      all [key "uses", qualifiedName],
      all [key "provides", qualifiedName, key "with", names]], sym ";"])

def moduleDeclaration : Pattern :=
  node .moduleDeclaration (all [annotations, optional (key "open"), key "module", qualifiedName,
    node .moduleBody (braced (many moduleDirective))])

/-! ## Expressions -/

def interpolation : Pattern :=
  node .stringInterpolation (all [accept (.literal .splice .token), expression, closeBrace])

def stringLiteral : Pattern :=
  node .stringLiteral (all [accept (.literal .quote .token), many (oneOf
    (accept (.literal .fragment .stringFragment))
    [accept (.literal .escape .escapeSequence), interpolation]), accept (.literal .quote .token)])

def parenthesized : Pattern := node .parenthesized (all [sym "(", expression, sym ")"])

/-- The bracket in front of an operand, which could as well open the parameters of a lambda
expression. -/
def openOperand : Pattern := all [sym "(", exclude modifierWords]

/-- A created object, from the word `new` on, in a scope that may hold the object it belongs to. -/
def creationTail : Pattern :=
  all [key "new", oneOf (all [annotations, call .typeArguments, annotations]) [annotations],
    role .type (simpleType primitiveWords), argumentList, optional (call .classBody),
    close .objectCreation]

def dimensionsExpression : Pattern :=
  node .dimensionsExpression (all [annotations, sym "[", expression, sym "]"])

def arrayCreation : Pattern :=
  node .arrayCreation (all [key "new", annotations, simpleType primitiveWords, oneOf
    (all [dimensions, call .arrayInitializer])
    [all [atLeastOne dimensionsExpression, optional (all [dimensions, absent (sym "[")])]]])

def referenceTail : Pattern :=
  all [sym "::", optional (call .typeArguments), oneOf (key "new") [identifier],
    close .methodReference]

/-- What a point and a name behind an operand, or behind the word `super`, stand for. -/
def accessTail : Pattern :=
  let outer := optional (all [wordNode .superName "super", sym "."])
  oneOf
    (all [sym ".", outer, optional (call .typeArguments), identifierExcept memberAccessWords,
      argumentList, close .methodInvocation])
    [all [sym ".", outer, oneOf (identifierExcept memberAccessWords) [wordNode .thisName "this"],
      close .fieldAccess]]

def primaryTail : Pattern :=
  oneOf accessTail [
    all [sym ".", creationTail],
    all [sym ".", stringLiteral, close .templateExpression],
    all [sym "[", expression, sym "]", close .arrayAccess],
    referenceTail]

def primaryHead : Pattern :=
  oneOf (accept (.literal .number .number)) [
    accept (.literal .character .character),
    stringLiteral,
    wordNode .trueLiteral "true",
    wordNode .falseLiteral "false",
    wordNode .nullLiteral "null",
    scope (all [unannotatedType castWords, oneOf
      (all [sym ".", key "class", absent (sym "("), close .classLiteral]) [referenceTail]]),
    scope (all [call .annotationUse, typeOf castWords, referenceTail]),
    wordNode .thisName "this",
    scope (all [wordNode .superName "super", oneOf accessTail [referenceTail]]),
    scope creationTail,
    arrayCreation,
    node .parenthesized (all [openOperand, expression, sym ")"]),
    scope (all [identifierExcept operandWords, argumentList, close .methodInvocation]),
    identifierExcept operandWords]

def primary : Pattern := scope (all [primaryHead, many primaryTail])

def assignmentOperator : Pattern :=
  oneOf (sym "=") ((["+=", "-=", "*=", "/=", "&=", "|=", "^=", "%=", "<<="].map sym) ++
    [angles ">" [">", ">", "="], angles ">" [">", "="]])

def binaryOperator : Pattern :=
  oneOf (sym "||") ((["&&", "|", "^", "&", "==", "!=", "<=", "<<", "<"].map sym) ++
    [angles ">" [">", ">"], angles ">" [">"], angles ">" ["="]] ++
    ([">", "+", "-", "*", "/", "%"].map sym))

/-- Behind the bracket, where parameters with types can also stand, fewer words are names. -/
def inferredParameters : Pattern :=
  node .inferredParameters (all [sym "(", identifierExcept (operandWords ++ modifierWords),
    many (all [sym ",", identifier]), sym ")"])

def lambda : Pattern :=
  node .lambda (all [oneOf (identifierExcept operandWords)
    [inferredParameters,
      all [ahead (all [sym "(", exclude lambdaWords]), call .formalParameters]],
    sym "->", oneOf (call .block) [expression]])

def assignment : Pattern :=
  scope (all [call .primary, optional (all [last [.identifier, .fieldAccess, .arrayAccess],
    assignmentOperator, expression, close .assignment])])

def operand (beforeArrow : Bool) : Pattern :=
  let inner := call (.operand beforeArrow)
  let closed := oneOf
    (node .cast (all [openOperand, typeOf castWords, sym ")", exclude ["instanceof"], inner]))
    [node .cast (all [openOperand, typeOf castWords, sym "&", separated (typeOf castWords) (sym "&"),
        sym ")", exclude ["instanceof"], oneOf lambda [call .primary]]),
      node .operation (all [oneOf (sym "+") (["-", "!", "~", "++", "--"].map sym), inner]),
      call .switchExpression,
      assignment]
  if beforeArrow then closed else oneOf lambda [closed]

def instanceOf : Pattern :=
  node .instanceOf (all [key "instanceof", optional (key "final"), oneOf (call .recordPattern)
    [all [plainType, optional (identifierExcept ["instanceof", "when"])]]])

def operationTail (beforeArrow : Bool) : Pattern :=
  let inner := call (.operand beforeArrow)
  oneOf (all [binaryOperator, inner]) [instanceOf,
    all [sym "?", expression, sym ":", inner], sym "++", sym "--"]

/-- Operands and operators side by side: nothing here depends on how tightly operators bind. -/
def operation (beforeArrow : Bool) : Pattern :=
  scope (all [call (.operand beforeArrow),
    optional (all [atLeastOne (operationTail beforeArrow), close .operation])])

/-! ## Switch -/

def patternName : Pattern := identifierExcept ["when", "instanceof"]

def recordPattern : Pattern :=
  node .recordPattern (all [oneOf (all [identifierExcept operandWords, ahead (sym "(")])
    [all [simpleType operandWords, last [.genericType]]], sym "(", optional (commaList (oneOf
      (node .pattern (key "_"))
      [call .recordPattern, node .pattern (all [unannotatedType primitiveWords, identifier])])),
    sym ")"])

def pattern : Pattern :=
  node .pattern (oneOf (call .recordPattern) [all [unannotatedType operandWords, patternName]])

def guardClause (beforeArrow : Bool) : Pattern :=
  node .guardClause (all [key "when", call (.expression beforeArrow)])

def switchLabel (beforeArrow : Bool) : Pattern :=
  node .switchLabel (oneOf
    (all [key "case", pattern, optional (guardClause beforeArrow), ahead (oneOf (sym "->") [sym ":"])])
    [all [key "case", commaList (call (.expression beforeArrow)), optional (guardClause beforeArrow)],
      key "default"])

def throwStatement : Pattern := node .throwStatement (all [key "throw", expression, sym ";"])

def switchRule : Pattern :=
  node .switchRule (all [switchLabel true, sym "->", oneOf throwStatement
    [call .block, node .expressionStatement (all [exclude ["throw"], expression, sym ";"])]])

def switchGroup : Pattern :=
  node .switchGroup (all [atLeastOne (all [switchLabel false, sym ":"]), 
    many (all [exclude ["case"], call .statement])])

def switchExpression : Pattern :=
  node .switchExpression (all [key "switch", parenthesized, node .switchBlock (all [openBrace, oneOf
    (all [atLeastOne switchRule, closeBrace]) [all [many switchGroup, closeBrace]]])])

/-! ## Statements -/

def block : Pattern := node .block (braced (many (call .statement)))

def ifStatement : Pattern :=
  node .ifStatement (all [key "if", parenthesized, call .statement,
    oneOf (all [key "else", call .statement]) [exclude ["else"]]])

def whileStatement : Pattern :=
  node .whileStatement (all [key "while", parenthesized, call .statement])

def doStatement : Pattern :=
  node .doStatement (all [key "do", call .statement, key "while", parenthesized, sym ";"])

def localVariables : Pattern :=
  declared (variablesTail .localVariableDeclaration localWords ["instanceof"]) []

def enhancedForStatement : Pattern :=
  node .enhancedForStatement (all [key "for", sym "(", optional (call .modifiers),
    unannotatedType localWords, variableName ["instanceof"], sym ":", expression, sym ")",
    call .statement])

def forStatement : Pattern :=
  let expressions := optional (commaList expression)
  node .forStatement (all [key "for", sym "(", oneOf localVariables
    [all [exclude modifierWords, expressions, sym ";"]],
    optional expression, sym ";", expressions, sym ")", call .statement])

def catchClause : Pattern :=
  node .catchClause (all [key "catch", sym "(", node .catchParameter (all [
    optional (call .modifiers), separated (unannotatedType parameterWords) (sym "|"),
    variableName []]), sym ")", call .block])

def finallyClause : Pattern := node .finallyClause (all [key "finally", call .block])

def resource : Pattern :=
  node .resource (oneOf
    (all [optional (call .modifiers), unannotatedType localWords, variableName ["instanceof"],
      sym "=", expression])
    [all [call .primary, last [.identifier, .fieldAccess]]])

def resources : Pattern :=
  node .resources (all [sym "(", separated resource (sym ";"), optional (sym ";"), sym ")"])

/-- The end of a statement with handlers: what looks like one more handler has to be one. -/
def handled : Pattern := oneOf finallyClause [exclude ["catch", "finally"]]

def tryStatement : Pattern :=
  node .tryStatement (all [key "try", oneOf
    (all [resources, call .block, many catchClause, handled])
    [all [call .block, oneOf (all [atLeastOne catchClause, handled]) [finallyClause]]]])

/-- A switch is a statement by itself, or the first operand of an expression. -/
def switchStatement : Pattern :=
  scope (all [call .switchExpression, optional (all [atLeastOne (operationTail false),
    close .operation, sym ";", close .expressionStatement])])

def jumpStatement (kind : Kind) (word : String) : Pattern :=
  node kind (all [key word, optional identifier, sym ";"])

def labeledStatement : Pattern :=
  node .labeledStatement (all [identifierExcept localWords, sym ":", call .statement])

def expressionStatement : Pattern :=
  node .expressionStatement (all [exclude statementWords, expression, sym ";"])

/-- The declarations that are statements, where `tails` are those beside the usual ones. Behind modifiers
no operand can stand, so that fewer words are reserved. -/
def statementDeclaration (tails : List String → List Pattern) : Pattern :=
  let tailsFor (reserved : List String) : Pattern :=
    oneOf classTail ([interfaceTail, enumTail, recordTail, annotationTypeTail] ++ tails reserved ++
      [variablesTail .localVariableDeclaration reserved ["instanceof"]])
  oneOf (scope (all [call .modifiers, tailsFor memberWords])) [scope (tailsFor localWords)]

def statementWith (tails : List String → List Pattern) : Pattern :=
  oneOf (call .block) [
    sym ";",
    ifStatement,
    whileStatement,
    enhancedForStatement,
    forStatement,
    doStatement,
    tryStatement,
    switchStatement,
    node .returnStatement (all [key "return", optional expression, sym ";"]),
    jumpStatement .breakStatement "break",
    jumpStatement .continueStatement "continue",
    throwStatement,
    node .assertStatement (all [key "assert", expression, optional (all [sym ":", expression]),
      sym ";"]),
    node .synchronizedStatement (all [key "synchronized", parenthesized, call .block]),
    node .yieldStatement (all [key "yield", expression, sym ";"]),
    importDeclaration,
    packageDeclaration,
    moduleDeclaration,
    statementDeclaration tails,
    labeledStatement,
    expressionStatement]

def rule : Symbol → Pattern
  | .topLevel => statementWith fun reserved => [methodTail reserved ("instanceof" :: lowLine)]
  | .statement => statementWith fun _ => []
  | .block => block
  | .classBody => classBody
  | .interfaceBody => interfaceBody
  | .annotationTypeBody => annotationTypeBody
  | .enumBody => enumBody
  | .modifiers => modifiers
  | .annotationUse => annotationUse
  | .elementValue => elementValue
  | .type reserved => type reserved
  | .typeArguments => typeArguments
  | .formalParameters => formalParameters
  | .recordPattern => recordPattern
  | .arrayInitializer => arrayInitializer
  | .switchExpression => switchExpression
  | .primary => primary
  | .operand beforeArrow => operand beforeArrow
  | .expression beforeArrow => operation beforeArrow

end Grammar

/-- The budget of a run: between two tokens no more than this many rules are entered. -/
def depthPerToken : Nat := 512

/-- The tree of a token sequence; if there is none, the position of the first statement that could
not be read. -/
def Tree.ofTokens (tokens : List Token) : Except Position Tree :=
  let rule : Pattern := .many (.call .topLevel)
  match rule.run Grammar.rule (depthPerToken * (tokens.length + 1)) ⟨[],tokens⟩ with
  | some ⟨built,[stop]⟩ =>
    .ok (.node .none .program 0 (built.reverse ++ stop.comments.map Comment.tree))
  | some ⟨_,t :: _⟩ => .error t.position
  | _ => .error ⟨0,0⟩

end Coupling.Source
