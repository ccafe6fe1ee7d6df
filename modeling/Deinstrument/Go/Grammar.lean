import Deinstrument.Go.Form

/-!
# The grammar of Go source

The form of every phrase. Statements are accepted at top level, keywords are
reserved only where the grammar can take them, and a line break is a
terminator exactly where a phrase is complete. Where calls, conversions and
types overlap, the order of the choices decides.
-/

namespace Deinstrument.Go

namespace Form

/-- A symbol, after blanks. -/
def sym (text : String) : Form :=
  .skip >> .symbol text.toList []

/-- A keyword, after blanks. -/
def key (word : String) : Form :=
  .skip >> .keyword word.toList

/-- Any word but the reserved ones, as a leaf. -/
def name (kind : Kind) (reserved : List Text) : Form :=
  .skip >> .leaf kind (.word reserved)

/-- One given word, as a leaf. -/
def exactly (kind : Kind) (word : String) : Form :=
  .skip >> .leaf kind (.exactly word.toList)

/-- A form read into a row of its own. -/
def part (form : Form) : Form :=
  .skip >> .frame form

/-- A form that makes one node. -/
def node (kind : Kind) (form : Form) : Form :=
  part (form >> .wrap kind)

def opt (form : Form) : Form :=
  form <|> .empty

/-- One or more forms separated by commas. -/
def list (form : Form) : Form :=
  form >> .many (sym "," >> form)

/-- One or more forms separated by commas, with a comma allowed at the end. -/
def listWithEnd (form : Form) : Form :=
  list form >> opt (sym ",")

/-- One or more forms separated by terminators, with one allowed at the end. -/
def lines (form : Form) : Form :=
  form >> .many (.terminator >> form) >> opt .terminator

def parens (form : Form) : Form :=
  sym "(" >> .within .brackets form >> sym ")"

def squares (form : Form) : Form :=
  sym "[" >> .within .brackets form >> sym "]"

def braces (form : Form) : Form :=
  sym "\x7b" >> form >> sym "\x7d"

def expression : Form := .phrase .expression

def type : Form := .phrase .type

/-- A binary operator level: operands of the next level, joined to the left. -/
def level (operators : List String) (operand : Form) : Form :=
  part (operand >>
    .many (.sameLine >> .operator (operators.map String.toList) >> operand >>
      .wrap .binaryExpression))

end Form

open Form

/-- The words that start a type. -/
def typeWords : List Text :=
  ["func", "map", "struct", "chan", "interface"].map String.toList

/-- The words that start an expression and are no names. -/
def expressionWords : List Text :=
  typeWords ++ ["nil", "true", "false", "iota", "new", "make"].map String.toList

/-- The words that start a statement and no expression. -/
def statementWords : List String :=
  ["const", "type", "var", "return", "go", "defer", "if", "for", "switch", "select",
    "fallthrough", "break", "continue", "goto", "case", "default"]

/-- One of several words follows. -/
def anyKey (words : List String) : Form :=
  words.foldr (fun word rest => key word <|> rest) (.notAhead .empty)

/-! ## Types -/

/-- A dot that is not part of an ellipsis. -/
def dotSymbol : Form :=
  .skip >> .symbol ['.'] ["...".toList]

/-- A plain or qualified type name. -/
def typeName (reserved : List Text) : Form :=
  (name .packageIdentifier reserved >> .sameLine >> dotSymbol >> name .typeIdentifier [] >>
    .wrap .qualifiedType) <|>
  name .typeIdentifier reserved

def genericName (reserved : List Text) : Form :=
  part (typeName reserved >> .sameLine >> .phrase .typeArguments >> .wrap .genericType)

def namedType (reserved : List Text) : Form :=
  part (typeName reserved >> opt (.sameLine >> .phrase .typeArguments >> .wrap .genericType))

def sliceType : Form :=
  node .sliceType (sym "[" >> sym "]" >> type)

def arrayType : Form :=
  node .arrayType (squares expression >> type)

def mapType : Form :=
  node .mapType (key "map" >> squares type >> type)

def structType : Form :=
  node .structType (key "struct" >> node .fieldDeclarationList
    (braces (.within .body (opt (lines (.phrase .fieldDeclaration))))))

def interfaceElem : Form :=
  node .methodElem (name .fieldIdentifier typeWords >> .sameLine >> .phrase .parameterList >>
    opt (.sameLine >> .phrase .result)) <|>
  .phrase .typeElem

def interfaceType : Form :=
  node .interfaceType (key "interface" >> braces (.within .body (opt (lines interfaceElem))))

def channelType : Form :=
  node .channelType (
    (key "chan" >> type) <|>
    (key "chan" >> sym "<-" >> type) <|>
    (sym "<-" >> key "chan" >> type))

def functionType : Form :=
  node .functionType (key "func" >> .phrase .parameterList >> opt (.sameLine >> .phrase .result))

/-- The types that are not names and start with no operator of expressions. -/
def constructedType : Form :=
  sliceType <|> arrayType <|> mapType <|> structType <|> interfaceType <|> channelType <|>
    functionType <|> node .negatedType (sym "~" >> type)

def parenthesizedType : Form :=
  node .parenthesizedType (parens type)

/-- One parameter or one group of parameters of a type. -/
def parameter : Form :=
  node .variadicParameterDeclaration
    (opt (name .identifier typeWords) >> sym "..." >> type) <|>
  node .parameterDeclaration ((list (name .identifier typeWords) >> type) <|> type)

/-- The ways of declaring fields: an embedded generic type that ends its line,
named fields, or an embedded type. -/
def fieldDeclaration : Form :=
  let field := name .fieldIdentifier []
  let tag := opt (.sameLine >> .phrase .string)
  node .fieldDeclaration (opt (sym "*") >> genericName [] >> tag >>
    .ahead (.terminator <|> sym "\x7d")) <|>
  node .fieldDeclaration (field >> .sameLine >> type >> tag) <|>
  node .fieldDeclaration (field >> .sameLine >> sym "," >> list field >> type >> tag) <|>
  node .fieldDeclaration (opt (sym "*") >> namedType [] >> tag)

/-! ## Expressions -/

/-- Arguments of a conversion: one expression, with a comma allowed behind it. -/
def conversionArgument : Form :=
  parens (expression >> opt (sym ","))

def namedLiteral : Form :=
  .literalsAllowed >>
    part (namedType expressionWords >> .sameLine >> .phrase .literalValue >>
      .wrap .compositeLiteral)

def constructedLiteral : Form :=
  part (.within .free (sliceType <|>
      node .implicitLengthArrayType (sym "[" >> sym "..." >> sym "]" >> type) <|>
      arrayType <|> mapType <|> structType) >>
    .phrase .literalValue >> .wrap .compositeLiteral)

def namedConversion : Form :=
  part (genericName expressionWords >> .sameLine >> conversionArgument >>
    .wrap .typeConversionExpression)

def constructedConversion : Form :=
  part (.within .free constructedType >> conversionArgument >> .wrap .typeConversionExpression)

/-- A generic type, perhaps behind stars and between parentheses. -/
def markedGeneric : Form :=
  .phrase .markedGeneric

/-- A type between parentheses applied to exactly one argument. -/
def parenthesizedConversion (inner : Form) : Form :=
  part (node .parenthesizedType (parens inner) >> .sameLine >> conversionArgument >>
    .wrap .typeConversionExpression)

/-- An index between square brackets follows, or the start of a slice. -/
def indexAhead : Form :=
  .ahead (sym "[" >> .within .brackets expression >> (sym "]" <|> sym ":"))

/-- A name with type arguments that makes no index expression: one with two
lists of types, one whose argument is generic, or one whose arguments are no
expression. -/
def instantiation : Form :=
  let types := .sameLine >> squares (listWithEnd type)
  let ending := .notAhead (.sameLine >> sym "(") >> .wrap .typeInstantiationExpression
  part (genericName expressionWords >> types >> ending) <|>
  part (part (typeName expressionWords) >> .sameLine >>
    .ahead types >> (.ahead (squares markedGeneric) <|> .notAhead indexAhead) >> types >> ending)

def funcLiteral : Form :=
  node .funcLiteral (key "func" >>
    .within .free (.phrase .parameterList >> opt (.phrase .result)) >> .phrase .block)

/-- One of the functions whose first argument is a type. -/
def allocation (word : String) : Form :=
  part (exactly .identifier word >> .sameLine >>
    node .argumentList (parens (opt (type >> .many (sym "," >> expression) >> opt (sym ",")))) >>
    .wrap .callExpression) <|>
  (exactly .identifier word >> .notAhead (.sameLine >> sym "("))

/-- The expressions that no operator or suffix extends. -/
def operand : Form :=
  namedLiteral <|> namedConversion <|> instantiation <|> name .identifier expressionWords <|>
  .phrase .string <|>
  (.skip >> (.leaf .intLiteral .integer <|> .leaf .floatLiteral .float <|>
    .leaf .imaginaryLiteral .imaginary <|> .leaf .runeLiteral .rune)) <|>
  exactly .nilLiteral "nil" <|> exactly .trueLiteral "true" <|>
  exactly .falseLiteral "false" <|> exactly .iotaLiteral "iota" <|>
  funcLiteral <|> allocation "new" <|> allocation "make" <|>
  parenthesizedConversion markedGeneric <|> node .parenthesizedExpression (parens expression) <|>
  constructedLiteral <|> constructedConversion <|> parenthesizedConversion type

/-- The bounds of a slice from its first colon. -/
def sliceEnd : Form :=
  .within .brackets (sym ":" >> opt (expression >> opt (sym ":" >> expression))) >> sym "]" >>
    .wrap .sliceExpression

/-- What can extend an operand to the right. -/
def suffix : Form :=
  .sameLine >> (
    (dotSymbol >> name .fieldIdentifier [] >> .wrap .selectorExpression) <|>
    (dotSymbol >> sym "(" >> (.outsideSwitch <|> .notAhead (key "type")) >>
      .within .brackets type >> sym ")" >> .wrap .typeAssertionExpression) <|>
    (.phrase .argumentList >> .wrap .callExpression) <|>
    (.phrase .typeArguments >> .sameLine >> .phrase .argumentList >> .wrap .callExpression) <|>
    (sym "[" >> ((.within .brackets expression >>
        ((sym "]" >> .wrap .indexExpression) <|> sliceEnd)) <|> sliceEnd)))

/-- The operators in front of an operand. -/
def unaryOperator : Form :=
  sym "+" <|> sym "-" <|> sym "!" <|> sym "^" <|> sym "*" <|> sym "&" <|> sym "<-"

/-- A unary expression; a receiving channel type is a type and no operation. -/
def unary : Form :=
  (.ahead (sym "<-" >> key "chan") >> .phrase .primary) <|>
  part (unaryOperator >> .phrase .unary >> .wrap .unaryExpression) <|>
  .phrase .primary

def string : Form :=
  node .interpretedStringLiteral (.symbol ['"'] [] >>
    .many (.leaf .interpretedStringLiteralContent .stringRun <|> .leaf .escapeSequence .escape) >>
    .symbol ['"'] []) <|>
  node .rawStringLiteral (.symbol ['\x60'] [] >>
    .leaf .rawStringLiteralContent .rawRun >> .symbol ['\x60'] [])

/-! ## Statements -/

/-- What turns a list of expressions and an operator into an assignment. -/
def assignment : Form :=
  (.operator assignmentOperators >> .within .tail (.phrase .expressionList) >>
    .wrap .assignmentStatement) <|>
  (.operator [":=".toList] >> .within .tail (.phrase .expressionList) >>
    .wrap .shortVarDeclaration)

/-- What follows the first expression of a simple statement. -/
def simpleTail : Form :=
  .within .head (
    (.sameLine >> .operator ["++".toList] >> .wrap .incStatement) <|>
    (.sameLine >> .operator ["--".toList] >> .wrap .decStatement) <|>
    (.sameLine >> .operator ["<-".toList] >> .within .tail expression >> .wrap .sendStatement) <|>
    (.sameLine >> .wrap .expressionList >> assignment) <|>
    (.sameLine >> sym "," >> .within .free (list expression) >> .wrap .expressionList >>
      assignment) <|>
    .wrap .expressionStatement)

/-- A simple statement that a semicolon may follow, or an expression. -/
def headerStart : Form :=
  part (.within .head expression >> ((.phrase .simpleTail >> .ahead (sym ";")) <|> .empty))

/-- The expressions on the left of an assignment in a header. -/
def leftList : Form :=
  node .expressionList (.within .head (list expression))

/-- Either operator that assigns in a header. -/
def headerAssign : Form :=
  .within .head (.operator ["=".toList] <|> .operator [":=".toList])

def label : Form :=
  name .labelName expressionWords >> .sameLine >> .skip >> .symbol [':'] [":=".toList]

/-- The statements of a clause, behind its colon. -/
def clauseBody : Form :=
  sym ":" >> .within .body (opt (.phrase .statements))

def defaultCase : Form :=
  node .defaultCase (key "default" >> clauseBody)

def ifStatement : Form :=
  node .ifStatement (key "if" >>
    .within .header (headerStart >> opt (sym ";" >> expression)) >> .phrase .block >>
    opt (.sameLine >> key "else" >> (.phrase .block <|> .phrase .ifStatement)))

def rangeClause : Form :=
  node .rangeClause (opt (leftList >> headerAssign) >> key "range" >> expression)

/-- A loop with a starting statement, a condition and a step. -/
def forClause : Form :=
  node .forClause (opt (.phrase .simple) >> sym ";" >> opt expression >> sym ";" >>
    opt (.phrase .simple))

def forStatement : Form :=
  node .forStatement (key "for" >>
    .within .header (opt (rangeClause <|> forClause <|> expression)) >> .phrase .block)

/-- A choice by the type of a value. -/
def typeSwitch : Form :=
  node .typeSwitchStatement (key "switch" >>
    .within .switchHeader (opt (.phrase .simple >> sym ";") >>
      opt (leftList >> .within .head (.operator [":=".toList])) >> expression) >>
    sym "." >> sym "(" >> key "type" >> sym ")" >>
    braces (.many (node .typeCase (key "case" >> .within .brackets (list type) >> clauseBody) <|>
      defaultCase)))

/-- A choice by the value of an expression. -/
def expressionSwitch : Form :=
  node .expressionSwitchStatement (key "switch" >>
    .within .header (opt (headerStart >> opt (sym ";" >> opt expression))) >>
    braces (.many (
      node .expressionCase (key "case" >> .within .brackets (.phrase .expressionList) >>
        clauseBody) <|>
      defaultCase)))

/-- A choice by the communication that can proceed. -/
def selectStatement : Form :=
  let send := part (.within .head expression >> .within .head (.operator ["<-".toList]) >>
    expression >> .wrap .sendStatement)
  let receive := node .receiveStatement (opt (leftList >> headerAssign) >> expression)
  node .selectStatement (key "select" >>
    braces (.many (
      node .communicationCase (key "case" >> .within .brackets (send <|> receive) >>
        clauseBody) <|>
      defaultCase)))

/-! ## Declarations -/

/-- A keyword followed by one declaration, or by several between parentheses. -/
def grouped (keyword : String) (item : Form) : Form :=
  key keyword >>
    ((sym "(" >> .within .body (.many (item >> .terminator)) >> sym ")") <|> item)

/-- Declarations of constants, types and variables. -/
def declaration : Form :=
  node .constDeclaration (grouped "const" (.phrase .constSpec)) <|>
  node .typeDeclaration (grouped "type" (.phrase .typeSpec)) <|>
  node .varDeclaration (key "var" >>
    (node .varSpecList (sym "(" >> .within .body (.many (.phrase .varSpec >> .terminator)) >>
      sym ")") <|> .phrase .varSpec))

/-- A declared constant: names, and perhaps a type and values. -/
def constSpec : Form :=
  node .constSpec (name .identifier [] >> .many (.sameLine >> sym "," >> name .identifier []) >>
    opt (.sameLine >> opt type >> sym "=" >> .phrase .expressionList))

/-- A declared variable: names, and a type or values or both. -/
def varSpec : Form :=
  node .varSpec (list (name .identifier []) >>
    ((type >> opt (.sameLine >> sym "=" >> .phrase .expressionList)) <|>
      (sym "=" >> .phrase .expressionList)))

def typeSpec : Form :=
  node .typeAlias (name .typeIdentifier [] >> sym "=" >> type) <|>
  node .typeSpec (name .typeIdentifier [] >> .phrase .typeParameterList >> type) <|>
  node .typeSpec (name .typeIdentifier [] >> type)

def importSpec : Form :=
  node .importSpec (opt (node .dot (sym ".") <|> exactly .blankIdentifier "_" <|>
    name .packageIdentifier []) >> .phrase .string)

/-- The result and the body of a declared function. -/
def functionEnd : Form :=
  opt (.sameLine >> .phrase .result) >> opt (.sameLine >> .phrase .block)

/-- Declarations that stand at top level only. -/
def topLevel : Form :=
  node .packageClause (key "package" >> name .packageIdentifier []) <|>
  node .importDeclaration (key "import" >>
    (node .importSpecList (sym "(" >> .within .body (opt (lines (.phrase .importSpec))) >>
      sym ")") <|> .phrase .importSpec)) <|>
  node .functionDeclaration (key "func" >> name .identifier [] >>
    opt (.phrase .typeParameterList) >> .phrase .parameterList >> functionEnd) <|>
  node .methodDeclaration (key "func" >> .phrase .parameterList >> name .fieldIdentifier [] >>
    .phrase .parameterList >> functionEnd)

def statement : Form :=
  declaration <|>
  node .returnStatement (key "return" >> opt (.sameLine >> .phrase .expressionList)) <|>
  node .goStatement (key "go" >> expression) <|>
  node .deferStatement (key "defer" >> expression) <|>
  .phrase .ifStatement <|> forStatement <|> typeSwitch <|> expressionSwitch <|>
  selectStatement <|>
  exactly .fallthroughStatement "fallthrough" <|>
  node .breakStatement (key "break" >> opt (.sameLine >> name .labelName [])) <|>
  node .continueStatement (key "continue" >> opt (.sameLine >> name .labelName [])) <|>
  node .gotoStatement (key "goto" >> name .labelName []) <|>
  .phrase .block <|>
  node .emptyStatement (sym ";") <|>
  (.notAhead (anyKey statementWords) >>
    (node .labeledStatement (label >> .phrase .statement) <|>
      (.notAhead label >> .phrase .simple)))

def form : Phrase → Form
  | .topLevel => topLevel
  | .statement => statement
  | .statements =>
      let labelOnly := .notAhead (anyKey statementWords) >> node .labeledStatement label
      (.phrase .statement >> .many (.terminator >> .phrase .statement) >>
        opt (.terminator >> opt labelOnly)) <|>
      labelOnly
  | .simple => part (.within .head expression >> .phrase .simpleTail)
  | .simpleTail => simpleTail
  | .block => node .block (braces (.within .body (opt (.phrase .statements))))
  | .ifStatement => ifStatement
  | .expression => level ["||"] (.phrase .conjunction)
  | .conjunction => level ["&&"] (.phrase .comparison)
  | .comparison => level ["==", "!=", "<", "<=", ">", ">="] (.phrase .sum)
  | .sum => level ["+", "-", "|", "^"] (.phrase .product)
  | .product => level ["*", "/", "%", "<<", ">>", "&", "&^"] (.phrase .unary)
  | .unary => unary
  | .primary => part (.phrase .operand >> .many (.phrase .suffix))
  | .suffix => suffix
  | .operand => operand
  | .expressionList =>
      node .expressionList (expression >> .many (.sameLine >> sym "," >> expression))
  | .argumentList =>
      node .argumentList (parens (opt (listWithEnd
        (part (expression >> opt (sym "..." >> .wrap .variadicArgument))))))
  | .literalValue =>
      node .literalValue (braces (.within .brackets (opt (listWithEnd
        (part (.phrase .literalElement >>
          opt (sym ":" >> .phrase .literalElement >> .wrap .keyedElement)))))))
  | .literalElement => node .literalElement (.phrase .literalValue <|> expression)
  | .string => string
  | .type => parenthesizedType <|> .phrase .simpleType
  | .simpleType =>
      constructedType <|> node .pointerType (sym "*" >> type) <|> .phrase .namedType
  | .namedType => namedType typeWords
  | .markedGeneric =>
      node .pointerType (sym "*" >> markedGeneric) <|>
      node .parenthesizedType (parens markedGeneric) <|> genericName expressionWords
  | .typeArguments => node .typeArguments (squares (listWithEnd (.phrase .typeElem)))
  | .typeElem => node .typeElem (type >> .many (.sameLine >> sym "|" >> type))
  | .typeParameterList =>
      node .typeParameterList (squares (listWithEnd
        (node .typeParameterDeclaration (list (name .identifier []) >>
          node .typeConstraint (type >> .many (sym "|" >> type))))))
  | .parameterList => node .parameterList (parens (opt (listWithEnd parameter)))
  | .result => .phrase .parameterList <|> .phrase .simpleType
  | .fieldDeclaration => fieldDeclaration
  | .constSpec => constSpec
  | .varSpec => varSpec
  | .typeSpec => typeSpec
  | .importSpec => importSpec

/-- The form of a whole source, without the blanks at its end. -/
def sourceForm : Form :=
  .many ((.phrase .topLevel <|>
    (.notAhead (key "package" <|> key "import") >> .phrase .statement)) >> .terminator)

/-- The number of nested steps that reading a source may take. -/
def stepBound (source : Text) : Nat :=
  200 * (source.length + 5)

/-- The syntax tree of a source, if the whole source derives from the grammar.
A byte order mark may open the source. -/
def parse? (source : Text) : Option Node :=
  let start := Reading.ofSource source
  let marked := if source.head? == some '\uFEFF' then start.consume 1 else start
  match read form (stepBound source) (Context.mk true true false false) (sourceForm >> .skip)
      marked with
  | none => none
  | some reading =>
      if reading.rest.isEmpty then
        some (.mk .sourceFile 1 ⟨reading.lead, reading.items.reverse⟩)
      else none

end Deinstrument.Go
