import ScriptTree.Parse.Function

/-!
Expressions.

An expression is a run of operands joined by binary operators. Assignments, sequences and conditionals
follow the whole run, as calls and property accesses follow an operand: their left side is already
read when they are seen.
-/

namespace ScriptTree.Grammar

open Rule

/-- An expression between parentheses, which leave no node of their own. -/
def parenthesized (g : Grammar) : Rule Node := do
  discard <| expect (.operator .leftParen)
  let expression ← g.expression true true
  discard <| expect (.operator .rightParen)
  return expression

/-- Expressions between parentheses, with commas between them and perhaps one behind. -/
def arguments (g : Grammar) : Rule (List Node) := do
  discard <| expect (.operator .leftParen)
  loop g.limit (fun arguments => do
    if ← accept (.operator .rightParen) then return .finish arguments
    else
      let arguments := arguments ++ [← g.expression false true]
      if ← accept (.operator .rightParen) then return .finish arguments
      else
        discard <| expect (.operator .comma)
        return .again arguments) []

/-! ## What follows an operand -/

def memberOf (object member : Node) (isComputed : Bool) : Rule Node :=
  return .mk (← spanFrom object.span.start) (.memberExpression object member isComputed false)

/-- Property accesses, as many as there are. -/
def members (g : Grammar) (object : Node) : Rule Node :=
  loop g.limit (fun object => do
    if ← accept (.operator .dot) then
      if (← current).isWord then
        .again <$> memberOf object (identifierOf (← advance)) false
      else unexpected
    else if ← accept (.operator .leftBracket) then
      let member ← g.expression true true
      discard <| expect (.operator .rightBracket)
      .again <$> memberOf object member true
    else return .finish object) object

def call (g : Grammar) (callee : Node) : Rule Node := do
  let arguments ← g.arguments
  return .mk (← spanFrom callee.span.start) (.callExpression callee arguments false)

/-- Consumes an update operator behind its target. -/
def updated (target : Node) : Rule Node := do
  let op ← advance
  if !target.isAssignable then fail (.atToken (.invalidTarget .postfixUpdate false) op)
  else
    match op.kind.operator?.bind UpdateOperator.ofOperator? with
    | some operator =>
      return .mk (← spanFrom target.span.start) (.updateExpression operator false target)
    | none => fail (.unexpected op)

def isBinary (n : Node) : Bool :=
  n.type == .binaryExpression

def assigned (g : Grammar) (target : Node) : Rule Node := do
  let op ← advance
  if !target.isAssignable then
    fail (.atToken (.invalidTarget .assignment (isBinary target)) op)
  else
    match op.kind.operator? with
    | some operator =>
      let value ← g.expression false true
      return .mk (← spanFrom target.span.start) (.assignmentExpression operator target value)
    | none => fail (.unexpected op)

/-- The rest of a sequence whose first expression is given. -/
def sequenced (g : Grammar) (first : Node) : Rule Node := do
  let expressions ← loop g.limit (fun expressions => do
    if ← accept (.operator .comma) then
      return .again (expressions ++ [← g.expression false true])
    else return .finish expressions) [first]
  return .mk (← spanFrom first.span.start) (.sequenceExpression expressions)

/-- Both branches of a conditional, after its question mark. -/
def branched (g : Grammar) (test : Node) : Rule Node := do
  let consequent ← g.expression false true
  discard <| expect (.operator .colon)
  let alternate ← g.expression false true
  return .mk (← spanFrom test.span.start) (.conditionalExpression test consequent alternate)

/-- What may follow an operand beside accesses, calls and updates. -/
structure Followers where
  sequence : Bool
  conditional : Bool
  assignment : Bool

/-- Takes in all that follows an operand. An update operator after a line break belongs to the next
statement. -/
def followed (g : Grammar) (allows : Followers) (operand : Node) : Rule Node :=
  loop g.limit (fun node => do
    let token ← current
    if token.kind == .operator .dot || token.kind == .operator .leftBracket then
      .again <$> g.members node
    else if token.kind == .operator .leftParen then
      .again <$> g.call node
    else if token.marks.update && !(← isAfterLineBreak) then
      .again <$> updated node
    else if allows.assignment && token.marks.assignment then
      .again <$> g.assigned node
    else if allows.sequence && token.kind == .operator .comma then
      .again <$> g.sequenced node
    else if allows.conditional && token.kind == .operator .question then
      discard advance
      .again <$> g.branched node
    else return .finish node) operand

/-- An operand with its accesses, calls and updates. -/
def operand (g : Grammar) : Rule Node := do
  g.followed ⟨false, false, false⟩ (← g.primary)

/-! ## What an operand starts with -/

/-- An update operator in front of its target. -/
def prefixUpdate (g : Grammar) (operator : UpdateOperator) : Rule Node := do
  let op ← advance
  let target ← g.operand
  if target.isAssignable then
    return .mk (← spanFrom op.span.start) (.updateExpression operator true target)
  else fail (.atToken (.invalidTarget .prefixUpdate false) op)

def unary (g : Grammar) (operator : UnaryOperator) : Rule Node := do
  let op ← advance
  let argument ← g.operand
  return .mk (← spanFrom op.span.start) (.unaryExpression operator true argument)

/-- The first arguments after `new` belong to it; without any it has none. -/
def construction (g : Grammar) : Rule Node := do
  let start ← start
  discard <| expect (.keyword .newWord)
  let callee ← g.members (← g.primary)
  let arguments ← if ← check (.operator .leftParen) then g.arguments else pure []
  return .mk (← spanFrom start) (.newExpression callee arguments)

/-- An array. A place with nothing in front of its comma is a hole; one comma behind the last element
makes none. -/
def array (g : Grammar) : Rule Node := do
  let start ← start
  discard <| expect (.operator .leftBracket)
  let elements ← loop g.limit (fun elements => do
    if ← accept (.operator .rightBracket) then return .finish elements
    else if ← isAtEnd then unexpected
    else if ← accept (.operator .comma) then return .again (elements ++ [none])
    else
      let elements := elements ++ [some (← g.expression false true)]
      if ← accept (.operator .rightBracket) then return .finish elements
      else
        discard <| expect (.operator .comma)
        return .again elements) []
  return .mk (← spanFrom start) (.arrayExpression elements)

/-- The kind of literal that a token is. -/
def literalKind? (t : Token) : Option LiteralKind :=
  match t.kind with
  | .string => some (if t.marks.template then .template else .string)
  | .number => some .number
  | .regex => some .regex
  | .special .nullWord => some .null
  | .special _ => some .boolean
  | _ => none

def literal : Rule Node := do
  match literalKind? (← current) with
  | some kind =>
    let token ← advance
    return .mk token.span (.literal kind token.value)
  | none => unexpected

/-- Any word, a string or a number. -/
def propertyKey : Rule Node := do
  let token ← current
  if token.kind == .string || token.kind == .number then literal
  else if token.isWord then identifierOf <$> advance
  else unexpected

def property (g : Grammar) : Rule Node := do
  let key ← propertyKey
  discard <| expect (.operator .colon)
  let value ← g.expression false true
  return .mk (← spanFrom key.span.start) (.property key value false false false)

/-- An object. One comma may stand behind the last property. -/
def object (g : Grammar) : Rule Node := do
  let start ← start
  discard <| expect (.operator .leftBrace)
  let properties ← loop g.limit (fun properties => do
    if ← accept (.operator .rightBrace) then return .finish properties
    else if ← isAtEnd then unexpected
    else
      let properties := properties ++ [← g.property]
      if ← accept (.operator .rightBrace) then return .finish properties
      else
        discard <| expect (.operator .comma)
        if ← check (.operator .comma) then unexpected
        else return .again properties) []
  return .mk (← spanFrom start) (.objectExpression properties)

/-- The unary operator that a token is. -/
def unaryOperator? : TokenKind → Option UnaryOperator
  | .operator .plus => some .plus
  | .operator .minus => some .minus
  | .operator .tilde => some .tilde
  | .operator .bang => some .bang
  | .keyword .voidWord => some .voidWord
  | .keyword .typeofWord => some .typeofWord
  | .keyword .deleteWord => some .deleteWord
  | _ => none

/-- An operand without what may follow it, or a prefix operator with its operand. -/
def primaryRule (g : Grammar) : Rule Node := do
  let token ← current
  match token.kind with
  | .operator .increment => g.prefixUpdate .increment
  | .operator .decrement => g.prefixUpdate .decrement
  | .identifier =>
    if startsAsyncFunction (← get) then FunctionParts.toExpression <$> g.function true false
    else identifierOf <$> advance
  | .keyword .thisWord =>
    let token ← advance
    return .mk token.span .thisExpression
  | .keyword .functionWord => FunctionParts.toExpression <$> g.function false false
  | .keyword .newWord => g.construction
  | .operator .leftParen => g.parenthesized
  | .operator .leftBracket => g.array
  | .operator .leftBrace => g.object
  | kind =>
    match unaryOperator? kind with
    | some operator => g.unary operator
    | none => literal

/-! ## Runs of operands -/

/-- A run of operands that is not yet folded: the operators that wait for their right operand, each with
its left one, innermost first, and the operand read last. -/
structure OperandRun where
  pending : List (Node × Operator)
  last : Node

namespace OperandRun

def join (left : Node) (operator : Operator) (right : Node) : Node :=
  .mk (left.span.merge right.span) (.binaryExpression left operator right)

/-- Gives the last operand to the pending operators, as long as they take it. -/
def fold (takes : Operator → Bool) : List (Node × Operator) → Node → OperandRun
  | [], last => ⟨[], last⟩
  | (left, operator) :: pending, last =>
    if takes operator then fold takes pending (join left operator last)
    else ⟨(left, operator) :: pending, last⟩

/-- Goes on with an operator of a level and its right operand. The pending operators that bind at least
as tightly take the operand in between. -/
def push (run : OperandRun) (operator : Operator) (level : Nat) (right : Node) : OperandRun :=
  let folded := fold (fun op => op.level.any (level ≤ ·)) run.pending run.last
  ⟨(folded.last, operator) :: folded.pending, right⟩

/-- The whole run as one expression. -/
def toNode (run : OperandRun) : Node :=
  (fold (fun _ => true) run.pending run.last).last

end OperandRun

/-- Operators that have a level but do not join operands of a run. -/
def isNoJoiner : Operator → Bool
  | .question | .colon | .comma | .dot | .bang | .tilde => true
  | _ => false

/-- The operator that a token is between two operands, and its level. -/
def joiner? (joinsIn : Bool) (t : Token) : Option (Operator × Nat) := do
  let operator ←
    match t.kind with
    | .operator op => some op
    | .keyword .inWord => if joinsIn then some .inside else none
    | .keyword .instanceofWord => some .instanceOf
    | _ => none
  if t.marks.binary && !isNoJoiner operator then
    return (operator, ← t.marks.level)
  else none

/-- An expression. What follows the run as a whole is looked for once more after it is folded. -/
def expressionRule (g : Grammar) (sequence joinsIn : Bool) : Rule Node := do
  let first ← g.followed ⟨sequence, true, true⟩ (← g.primary)
  if (joiner? joinsIn (← current)).isNone then return first
  else
    let run ← loop g.limit (fun run => do
      match joiner? joinsIn (← current) with
      | some (operator, level) =>
        discard advance
        let right ← g.operand
        return .again (OperandRun.push run operator level right)
      | none => return .finish run) (OperandRun.mk [] first)
    g.followed ⟨sequence, true, true⟩ run.toNode

end ScriptTree.Grammar
