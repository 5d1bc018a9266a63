import ScriptTree.Print.Precedence
import ScriptTree.Print.Writer
import ScriptTree.Text.Width

/-!
From a tree to script text.

A parent prints each child in a `Place`, which says how tight an expression must be to stand there
bare. A child that is not gets parentheses. The grammar drops them again, so they never change the
tree that the text is read as.
-/

namespace ScriptTree

open Character

/-- What the surroundings of a node ask of it. -/
structure Place where
  /-- The least precedence that needs no parentheses. -/
  least : Nat := 0
  /-- Parentheses whatever the precedence. -/
  isEnclosed : Bool := false
  /-- In the head of a loop, where a bare `in` would be taken for that of the loop. -/
  isBeforeIn : Bool := false
  /-- A declaration in the head of a loop has no terminator. -/
  isHead : Bool := false

namespace Place

/-- A place for expressions of at least this precedence. -/
def ofLeast (least : Nat) : Place :=
  { least }

/-- Does a construct need parentheses here? -/
def encloses {α : Type} (p : Place) (form : Form α) : Bool :=
  p.isEnclosed || form.precedence < p.least
    || (p.isBeforeIn && match form with | .binaryExpression _ .inside _ => true | _ => false)

end Place

/-- The name inside a string literal, if it can be written behind a dot. The quotes are taken to be the
first and the last byte. -/
def dotName? (n : Node) : Option String :=
  match n.form with
  | .literal .string raw =>
    match raw.toList with
    | opening :: rest =>
      match rest.getLast? with
      | some closing =>
        let name := rest.dropLast
        if opening.utf8Size == 1 && closing.utf8Size == 1
            && name.head?.any (fun c => isLetter c || c == '_' || c == '$')
            && name.all isPrintedWord
        then some (String.ofList name) else none
      | none => none
    | [] => none
  | _ => none

def isNumberLiteral (n : Node) : Bool :=
  match n.form with
  | .literal .number _ => true
  | _ => false

namespace Writer

/-- A literal. Behind an operand a regular expression would be read as a division, and behind a slash
as a comment, so it gets parentheses there. -/
def literal (kind : LiteralKind) (raw : String) (w : Writer) : Writer :=
  let isGuarded := kind == .regex && w.lastMark?.any fun c =>
    isPrintedWord c || [')', ']', '"', '\'', '\x60', '/'].contains c
  if isGuarded then ((w.write "(").write raw).write ")" else w.write raw

/-- A word and what `inner` writes in parentheses behind it. -/
def head (word : String) (inner : Writer → Writer) (w : Writer) : Writer :=
  ((inner ((w.write word).optionalSpace.write "(")).write ")").optionalSpace

/-- A function, whose parts are written by `id`, `params` and `body`. -/
def function (traits : FunctionTraits) (hasId : Bool) (id params body : Writer → Writer)
    (w : Writer) : Writer :=
  let w := if traits.isAsync then (w.write "async").space else w
  let w := w.write "function"
  let w := if traits.isGenerator then w.write "*" else w
  let w := if hasId then id w.optionalSpace else w
  body ((params (w.write "(")).write ")").optionalSpace

end Writer

mutual

/-- Prints a node in its place. -/
def Node.emit (p : Place) : Node → Writer → Writer
  | .mk _ form, w =>
    if p.encloses form then (emitForm false p.isHead form (w.write "(")).write ")"
    else emitForm p.isBeforeIn p.isHead form w

/-- Prints a construct without parentheses around it. `beforeIn` is handed down to its children, and
`isHead` leaves out the terminator of a declaration. -/
def emitForm (beforeIn isHead : Bool) : Form Node → Writer → Writer
  | .program body _, w => emitStatements beforeIn body w
  | .blockStatement body, w =>
    (emitStatements beforeIn body w.openBlock).closeBlock !body.isEmpty
  | .emptyStatement, w => w.endStatement
  | .expressionStatement expression, w =>
    let isEnclosed := w.options.encloses || expression.startsLikeStatement
    (expression.emit { isEnclosed, isBeforeIn := beforeIn } w).endStatement
  | .variableDeclaration declarations kind, w =>
    let w := emitItems { isBeforeIn := beforeIn } true declarations (w.write kind.spelling).space
    if isHead then w else w.endStatement
  | .variableDeclarator id init, w =>
    let w := id.emit { isBeforeIn := beforeIn } w
    if init.isSome then
      emitOption { least := Precedence.assignment, isBeforeIn := beforeIn } init
        (w.infixOperator "=")
    else w
  | .ifStatement test consequent alternate, w =>
    let w := w.head "if" (test.emit { isBeforeIn := beforeIn })
    let w :=
      if alternate.isSome && consequent.endsWithOpenIf then
        (consequent.emit { isBeforeIn := beforeIn } w.openBlock.newline).closeBlock true
      else consequent.emit { isBeforeIn := beforeIn } w
    if alternate.isSome then
      emitOption { isBeforeIn := beforeIn } alternate
        (w.optionalSpace.write "else").optionalSpace
    else w
  | .whileStatement test body, w =>
    body.emit { isBeforeIn := beforeIn } (w.head "while" (test.emit { isBeforeIn := beforeIn }))
  | .doWhileStatement body test, w =>
    let w := body.emit { isBeforeIn := beforeIn } (w.write "do").optionalSpace
    (w.optionalSpace.head "while" (test.emit { isBeforeIn := beforeIn })).endStatement
  | .forStatement init test update body, w =>
    let w := (w.write "for").optionalSpace.write "("
    let w := emitOption { isBeforeIn := true, isHead := true } init w
    let w := w.write ";"
    let w := if test.isSome then emitOption { isBeforeIn := beforeIn } test w.optionalSpace else w
    let w := w.write ";"
    let w :=
      if update.isSome then emitOption { isBeforeIn := beforeIn } update w.optionalSpace else w
    body.emit { isBeforeIn := beforeIn } (w.write ")").optionalSpace
  | .forInStatement left right body, w =>
    let w := (w.write "for").optionalSpace.write "("
    let w := left.emit { least := Precedence.call, isBeforeIn := true, isHead := true } w
    let w := right.emit { isBeforeIn := beforeIn } (w.infixOperator "in")
    body.emit { isBeforeIn := beforeIn } (w.write ")").optionalSpace
  | .breakStatement label, w => emitJump beforeIn "break" label w
  | .continueStatement label, w => emitJump beforeIn "continue" label w
  | .returnStatement argument, w =>
    let w := w.write "return"
    let w :=
      if argument.isSome then emitOption { isBeforeIn := beforeIn } argument w.optionalSpace
      else w
    w.endStatement
  | .throwStatement argument, w =>
    (argument.emit { isBeforeIn := beforeIn } (w.write "throw").optionalSpace).endStatement
  | .tryStatement block handler finalizer, w =>
    let w := block.emit { isBeforeIn := beforeIn } (w.write "try").optionalSpace
    let w :=
      if handler.isSome then emitOption { isBeforeIn := beforeIn } handler w.optionalSpace else w
    if finalizer.isSome then
      emitOption { isBeforeIn := beforeIn } finalizer
        (w.optionalSpace.write "finally").optionalSpace
    else w
  | .catchClause param body, w =>
    body.emit { isBeforeIn := beforeIn } (w.head "catch" (param.emit { isBeforeIn := beforeIn }))
  | .labeledStatement label body, w =>
    let w := label.emit { isBeforeIn := beforeIn } w
    body.emit { isBeforeIn := beforeIn } (w.write ":").optionalSpace
  | .debuggerStatement, w => (w.write "debugger").endStatement
  | .switchStatement discriminant cases, w =>
    let w := (w.head "switch" (discriminant.emit { isBeforeIn := beforeIn })).openBlock
    (emitStatements beforeIn cases w).closeBlock !cases.isEmpty
  | .switchCase test consequent, w =>
    let w :=
      if test.isSome then
        emitOption { isBeforeIn := beforeIn } test (w.write "case").optionalSpace
      else w.write "default"
    (emitStatements beforeIn consequent (w.write ":").indent).dedent
  | .withStatement object body, w =>
    body.emit { isBeforeIn := beforeIn } (w.head "with" (object.emit { isBeforeIn := beforeIn }))
  | .functionDeclaration id params body traits, w =>
    w.function traits id.isSome (emitOption { isBeforeIn := beforeIn } id)
      (emitItems { isBeforeIn := beforeIn } true params) (body.emit { isBeforeIn := beforeIn })
  | .functionExpression id params body traits, w =>
    w.function traits id.isSome (emitOption { isBeforeIn := beforeIn } id)
      (emitItems { isBeforeIn := beforeIn } true params) (body.emit { isBeforeIn := beforeIn })
  | .identifier name, w => w.write name
  | .thisExpression, w => w.write "this"
  | .sourceCode source, w => w.write source
  | .literal kind raw, w => w.literal kind raw
  | .arrayExpression elements, w =>
    let w :=
      emitElements { least := Precedence.assignment, isBeforeIn := beforeIn } true elements
        (w.write "[")
    -- One comma behind the last element makes no hole, so a hole at the end needs a second one.
    (if elements.getLast?.any Option.isNone then w.write "," else w).write "]"
  | .objectExpression properties, w =>
    (emitItems { isBeforeIn := beforeIn } true properties (w.write "\x7b")).write "\x7d"
  | .property key value isComputed isShorthand _, w =>
    let w :=
      if isComputed then
        (key.emit { least := Precedence.assignment, isBeforeIn := beforeIn } (w.write "[")).write
          "]"
      else key.emit { isBeforeIn := beforeIn } w
    if isShorthand then w
    else
      value.emit { least := Precedence.assignment, isBeforeIn := beforeIn }
        (w.write ":").optionalSpace
  | .sequenceExpression expressions, w =>
    emitItems { least := Precedence.assignment, isBeforeIn := beforeIn } true expressions w
  | .assignmentExpression op left right, w =>
    let w := left.emit { least := Precedence.call, isBeforeIn := beforeIn } w
    right.emit { least := Precedence.assignment, isBeforeIn := beforeIn }
      (w.infixOperator op.spelling)
  | .conditionalExpression test consequent alternate, w =>
    let w := test.emit { least := Precedence.conditional + 1, isBeforeIn := beforeIn } w
    let w :=
      consequent.emit { least := Precedence.assignment, isBeforeIn := beforeIn }
        (w.infixOperator "?")
    alternate.emit { least := Precedence.assignment, isBeforeIn := beforeIn }
      (w.infixOperator ":")
  | .binaryExpression left op right, w =>
    let level := op.level.getD (Precedence.conditional + 1)
    -- Behind a brace the slash would be read as the start of a regular expression.
    let isEnclosed := op == .slash && left.endsWithBrace
    let w := left.emit { least := level, isEnclosed, isBeforeIn := beforeIn } w
    right.emit { least := level + 1, isBeforeIn := beforeIn } (w.infixOperator op.spelling)
  | .unaryExpression op _ argument, w =>
    argument.emit { least := Precedence.unary, isBeforeIn := beforeIn } (w.write op.spelling)
  | .updateExpression op isPrefix argument, w =>
    if isPrefix then
      argument.emit { least := Precedence.call, isBeforeIn := beforeIn } (w.write op.spelling)
    else (argument.emit { least := Precedence.call, isBeforeIn := beforeIn } w).write op.spelling
  | .callExpression callee arguments _, w =>
    let w := callee.emit { least := Precedence.call, isBeforeIn := beforeIn } w
    (emitItems { least := Precedence.assignment, isBeforeIn := beforeIn } true arguments
      (w.write "(")).write ")"
  | .newExpression callee arguments, w =>
    let isEnclosed := !callee.isPlainMemberChain
    let w :=
      callee.emit { least := Precedence.call, isEnclosed, isBeforeIn := beforeIn }
        (w.write "new").space
    (emitItems { least := Precedence.assignment, isBeforeIn := beforeIn } true arguments
      (w.write "(")).write ")"
  | .memberExpression object member isComputed _, w =>
    let isEnclosed := isNumberLiteral object
    let w := object.emit { least := Precedence.call, isEnclosed, isBeforeIn := beforeIn } w
    match w.options.memberStyle, isComputed, dotName? member, member.identifierName? with
    | .dot, true, some name, _ => (w.write ".").write name
    | .bracket, false, _, some name => ((w.write "[\"").write name).write "\"]"
    | _, true, _, _ => (member.emit { isBeforeIn := beforeIn } (w.write "[")).write "]"
    | _, false, _, _ => member.emit { isBeforeIn := beforeIn } (w.write ".")

def emitJump (beforeIn : Bool) (word : String) : Option Node → Writer → Writer
  | none, w => (w.write word).endStatement
  | some label, w => (label.emit { isBeforeIn := beforeIn } (w.write word).space).endStatement

/-- Prints a child if there is one. -/
def emitOption (p : Place) : Option Node → Writer → Writer
  | none, w => w
  | some n, w => n.emit p w

/-- Prints items with commas between them. -/
def emitItems (p : Place) (isFirst : Bool) : List Node → Writer → Writer
  | [], w => w
  | n :: ns, w =>
    emitItems p false ns (n.emit p (if isFirst then w else (w.write ",").optionalSpace))

/-- Prints elements with commas between them. A hole is printed as nothing. -/
def emitElements (p : Place) (isFirst : Bool) : List (Option Node) → Writer → Writer
  | [], w => w
  | n :: ns, w =>
    emitElements p false ns (emitOption p n (if isFirst then w else (w.write ",").optionalSpace))

/-- Prints statements, each on a line of its own. -/
def emitStatements (beforeIn : Bool) : List Node → Writer → Writer
  | [], w => w
  | n :: ns, w => emitStatements beforeIn ns (n.emit { isBeforeIn := beforeIn } w.newline)

end

/-- The text of a tree. -/
def Node.print (options : PrintOptions) (n : Node) : String :=
  (n.emit {} { options }).text

end ScriptTree
