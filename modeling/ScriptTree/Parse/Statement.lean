import ScriptTree.Parse.Expression

/-!
Statements.

The word a statement starts with decides which it is. A statement that ends with another one leaves
the terminator to that.
-/

namespace ScriptTree.Grammar

open Rule

/-! ## Declarations -/

/-- The kind of declaration that a token starts. -/
def declarationKind? (t : Token) : Option VariableKind :=
  t.kind.keyword?.bind VariableKind.ofKeyword?

def declarator (g : Grammar) (kind : VariableKind) (joinsIn : Bool) : Rule Node := do
  let id ← bindingIdentifier
  let init ←
    if ← accept (.operator .assign) then some <$> g.expression false joinsIn else pure none
  if kind == .constant && init.isNone then
    fail (.atToken (.missingInitializer (id.identifierName?.getD "")) (← current))
  else return .mk ⟨id.span.start, (← get).lastStop⟩ (.variableDeclarator id init)

/-- Declarators with commas between them, without a terminator. -/
def variableDeclaration (g : Grammar) (joinsIn : Bool) : Rule Node := do
  let start ← start
  match declarationKind? (← current) with
  | none => unexpected
  | some kind =>
    discard advance
    let declarations ← loop g.limit (fun declarations => do
      let declarations := declarations ++ [← g.declarator kind joinsIn]
      if ← accept (.operator .comma) then return .again declarations
      else return .finish declarations) []
    return .mk (← spanFrom start) (.variableDeclaration declarations kind)

def declarationStatement (g : Grammar) : Rule Node := do
  let declaration ← g.variableDeclaration true
  terminator
  return declaration.withSpan (← spanFrom declaration.span.start)

/-! ## Branches and loops -/

def ifStatement (g : Grammar) (scope : JumpScope) : Rule Node := do
  let start ← start
  discard <| expect (.keyword .ifWord)
  let test ← g.parenthesized
  let consequent ← g.statement scope
  let alternate ←
    if ← accept (.keyword .elseWord) then some <$> g.statement scope else pure none
  return .mk (← spanFrom start) (.ifStatement test consequent alternate)

def whileStatement (g : Grammar) (scope : JumpScope) : Rule Node := do
  let start ← start
  discard <| expect (.keyword .whileWord)
  let test ← g.parenthesized
  let body ← g.statement scope.inLoop
  return .mk (← spanFrom start) (.whileStatement test body)

def doWhileStatement (g : Grammar) (scope : JumpScope) : Rule Node := do
  let start ← start
  discard <| expect (.keyword .doWord)
  let body ← g.statement scope.inLoop
  discard <| expect (.keyword .whileWord)
  let test ← g.parenthesized
  terminator
  return .mk (← spanFrom start) (.doWhileStatement body test)

/-- A declaration of one name and the word `in` behind it. If this is not what stands there, nothing is
consumed. -/
def loopVariable? : Rule (Option Node) := do
  let saved ← get
  let first ← advance
  let isNamed ← check .identifier
  match declarationKind? first, isNamed with
  | some kind, true =>
    let id ← bindingIdentifier
    if ← accept (.keyword .inWord) then
      return some (.mk ⟨first.span.start, id.span.stop⟩
        (.variableDeclaration [.mk id.span (.variableDeclarator id none)] kind))
    else
      set saved
      return none
  | _, _ =>
    set saved
    return none

/-- A loop over the properties of an object, from after the word `in`. -/
def forInRest (g : Grammar) (start : Nat) (left : Node) (scope : JumpScope) : Rule Node := do
  let right ← g.expression true true
  discard <| expect (.operator .rightParen)
  let body ← g.statement scope.inLoop
  return .mk (← spanFrom start) (.forInStatement left right body)

/-- An expression in the head of a loop, unless the token that closes its place stands there. -/
def headPart (g : Grammar) (closing : Operator) : Rule (Option Node) := do
  if ← check (.operator closing) then return none
  else some <$> g.expression true true

/-- A loop with a head of three parts, from after the first. -/
def forRest (g : Grammar) (start : Nat) (init : Option Node) (scope : JumpScope) : Rule Node := do
  discard <| expect (.operator .semicolon)
  let test ← g.headPart .semicolon
  discard <| expect (.operator .semicolon)
  let update ← g.headPart .rightParen
  discard <| expect (.operator .rightParen)
  let body ← g.statement scope.inLoop
  return .mk (← spanFrom start) (.forStatement init test update body)

def forStatement (g : Grammar) (scope : JumpScope) : Rule Node := do
  let start ← start
  discard <| expect (.keyword .forWord)
  discard <| expect (.operator .leftParen)
  if ← check (.operator .semicolon) then g.forRest start none scope
  else if (declarationKind? (← current)).isSome then
    match ← loopVariable? with
    | some left => g.forInRest start left scope
    | none => g.forRest start (some (← g.variableDeclaration false)) scope
  else
    let first ← g.expression true false
    if ← accept (.keyword .inWord) then
      if first.isAssignable then g.forInRest start first scope
      else fail (.atToken (.invalidTarget .loopVariable false) (← current))
    else g.forRest start (some first) scope

/-- What an arm of a switch starts with, and whether that was the word `default`. -/
def caseTest (g : Grammar) (hasDefault : Bool) : Rule (Option Node × Bool) := do
  if ← accept (.keyword .caseWord) then
    return (some (← g.expression true true), hasDefault)
  else if (← check (.keyword .defaultWord)) && !hasDefault then
    discard advance
    return (none, true)
  else unexpected

/-- The statements of an arm, up to the next arm or the end of the switch. -/
def caseBody (g : Grammar) (scope : JumpScope) : Rule (List Node) :=
  loop g.limit (fun body => do
    let kind := (← current).kind
    if kind == .keyword .caseWord || kind == .keyword .defaultWord
        || kind == .operator .rightBrace then
      return .finish body
    else if ← isAtEnd then unexpected
    else return .again (body ++ [← g.statement scope])) []

/-- A switch. At most one arm is the default. -/
def switchStatement (g : Grammar) (scope : JumpScope) : Rule Node := do
  let start ← start
  discard <| expect (.keyword .switchWord)
  let discriminant ← g.parenthesized
  discard <| expect (.operator .leftBrace)
  let cases ← loop g.limit (fun (cases, hasDefault) => do
    if ← accept (.operator .rightBrace) then return .finish cases
    else
      let caseStart ← Rule.start
      let (test, hasDefault) ← g.caseTest hasDefault
      discard <| expect (.operator .colon)
      let body ← g.caseBody scope.inSwitch
      return .again (cases ++ [.mk (← spanFrom caseStart) (.switchCase test body)], hasDefault))
    ([], false)
  return .mk (← spanFrom start) (.switchStatement discriminant cases)

/-! ## Jumps -/

/-- The label of a jump, which must stand on the same line. -/
def jumpLabel : Rule (Option Node) := do
  if (← check .identifier) && !(← isAfterLineBreak) then some <$> bindingIdentifier
  else return none

def illegalJump (jump : Jump) : Rule Node := do
  fail (.atToken (.illegalJump jump) (← current))

def breakStatement (scope : JumpScope) : Rule Node := do
  if !scope.allowsBreak then illegalJump .breakJump
  else
    let start ← start
    discard advance
    let label ← jumpLabel
    terminator
    return .mk (← spanFrom start) (.breakStatement label)

def continueStatement (scope : JumpScope) : Rule Node := do
  if !scope.allowsContinue then illegalJump .continueJump
  else
    let start ← start
    discard advance
    let label ← jumpLabel
    terminator
    return .mk (← spanFrom start) (.continueStatement label)

/-- What is returned, which must start on the same line. -/
def returnArgument (g : Grammar) : Rule (Option Node) := do
  let kind := (← current).kind
  if kind == .endOfInput || kind == .operator .semicolon || kind == .operator .rightBrace then
    return none
  else if ← isAfterLineBreak then return none
  else some <$> g.expression true true

def returnStatement (g : Grammar) (scope : JumpScope) : Rule Node := do
  if !scope.allowsReturn then illegalJump .returnJump
  else
    let start ← start
    discard advance
    let argument ← g.returnArgument
    terminator
    return .mk (← spanFrom start) (.returnStatement argument)

def throwStatement (g : Grammar) : Rule Node := do
  let start ← start
  discard <| expect (.keyword .throwWord)
  let argument ← g.expression true true
  terminator
  return .mk (← spanFrom start) (.throwStatement argument)

/-! ## Other statements -/

def catchClause (g : Grammar) (scope : JumpScope) : Rule Node := do
  let start ← start
  discard advance
  discard <| expect (.operator .leftParen)
  let param ← bindingIdentifier
  discard <| expect (.operator .rightParen)
  let body ← g.block scope
  return .mk (← spanFrom start) (.catchClause param body)

/-- A guarded block. It needs a handler or a last block. -/
def tryStatement (g : Grammar) (scope : JumpScope) : Rule Node := do
  let start ← start
  discard <| expect (.keyword .tryWord)
  let block ← g.block scope
  let handler ←
    if ← check (.keyword .catchWord) then some <$> g.catchClause scope else pure none
  let finalizer ←
    if ← accept (.keyword .finallyWord) then some <$> g.block scope else pure none
  if handler.isNone && finalizer.isNone then unexpected
  else return .mk (← spanFrom start) (.tryStatement block handler finalizer)

def withStatement (g : Grammar) (scope : JumpScope) : Rule Node := do
  let start ← start
  discard <| expect (.keyword .withWord)
  let object ← g.parenthesized
  let body ← g.statement scope
  return .mk (← spanFrom start) (.withStatement object body)

def debuggerStatement : Rule Node := do
  let start ← start
  discard <| expect (.keyword .debuggerWord)
  terminator
  return .mk (← spanFrom start) .debuggerStatement

def expressionStatement (g : Grammar) : Rule Node := do
  let start ← start
  let expression ← g.expression true true
  terminator
  return .mk (← spanFrom start) (.expressionStatement expression)

/-- A statement that starts with a name: labeled if a colon follows the name. -/
def namedStatement (g : Grammar) (scope : JumpScope) : Rule Node := do
  let saved ← get
  let start ← start
  let label ← bindingIdentifier
  if ← accept (.operator .colon) then
    let body ← g.statement scope
    return .mk (← spanFrom start) (.labeledStatement label body)
  else
    set saved
    g.expressionStatement

def statementRule (g : Grammar) (scope : JumpScope) : Rule Node := do
  match (← current).kind with
  | .keyword .varWord | .keyword .letWord | .keyword .constWord => g.declarationStatement
  | .keyword .ifWord => g.ifStatement scope
  | .keyword .switchWord => g.switchStatement scope
  | .keyword .whileWord => g.whileStatement scope
  | .keyword .forWord => g.forStatement scope
  | .keyword .doWord => g.doWhileStatement scope
  | .keyword .breakWord => breakStatement scope
  | .keyword .continueWord => continueStatement scope
  | .keyword .functionWord => FunctionParts.toDeclaration <$> g.function false true
  | .keyword .returnWord => g.returnStatement scope
  | .keyword .throwWord => g.throwStatement
  | .keyword .tryWord => g.tryStatement scope
  | .keyword .withWord => g.withStatement scope
  | .keyword .debuggerWord => debuggerStatement
  | .operator .leftBrace => g.block scope
  | .operator .semicolon =>
    let token ← advance
    return .mk token.span .emptyStatement
  | .identifier =>
    if startsAsyncFunction (← get) then FunctionParts.toDeclaration <$> g.function true true
    else g.namedStatement scope
  | _ => g.expressionStatement

end ScriptTree.Grammar
