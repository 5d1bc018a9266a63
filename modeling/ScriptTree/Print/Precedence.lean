import ScriptTree.Node

/-!
How tightly a construct holds together, and what it looks like at its two ends.
-/

namespace ScriptTree

namespace Precedence

/-! Levels of expressions; the higher, the tighter. The levels of binary operators lie between those of
conditionals and of unary operators. -/

def sequence : Nat := 0
def assignment : Nat := 1
def conditional : Nat := 2
def unary : Nat := 16
def postfixUpdate : Nat := 17
def call : Nat := 18
def primary : Nat := 19

end Precedence

namespace Form

/-- The level of an expression. Whatever else is printed needs no parentheses. -/
def precedence {α : Type} : Form α → Nat
  | sequenceExpression _ => Precedence.sequence
  | assignmentExpression .. => Precedence.assignment
  | conditionalExpression .. => Precedence.conditional
  | binaryExpression _ op _ => op.level.getD (Precedence.conditional + 1)
  | unaryExpression .. => Precedence.unary
  | updateExpression _ isPrefix _ =>
    if isPrefix then Precedence.unary else Precedence.postfixUpdate
  | callExpression .. | memberExpression .. | newExpression .. => Precedence.call
  | _ => Precedence.primary

end Form

namespace Node

mutual

/-- Would the expression, as a statement, begin with `function` or a brace? -/
def startsLikeStatement : Node → Bool
  | mk _ (.functionExpression ..) | mk _ (.objectExpression _) => true
  | mk _ (.binaryExpression left _ _) => startsLikeStatement left
  | mk _ (.assignmentExpression _ left _) => startsLikeStatement left
  | mk _ (.conditionalExpression test _ _) => startsLikeStatement test
  | mk _ (.sequenceExpression expressions) => firstStartsLikeStatement expressions
  | mk _ (.callExpression callee _ _) => startsLikeStatement callee
  | mk _ (.memberExpression object _ _ _) => startsLikeStatement object
  | mk _ (.updateExpression _ isPrefix argument) => !isPrefix && startsLikeStatement argument
  | _ => false

def firstStartsLikeStatement : List Node → Bool
  | [] => false
  | n :: _ => startsLikeStatement n

end

mutual

/-- May the expression end with a brace, or with an update operator, so that a slash behind it would be
read as the start of a regular expression? -/
def endsWithBrace : Node → Bool
  | mk _ (.objectExpression _) | mk _ (.functionExpression ..) => true
  | mk _ (.updateExpression _ isPrefix _) => !isPrefix
  | mk _ (.binaryExpression _ _ right) => endsWithBrace right
  | mk _ (.assignmentExpression _ _ right) => endsWithBrace right
  | mk _ (.conditionalExpression _ _ alternate) => endsWithBrace alternate
  | mk _ (.unaryExpression _ _ argument) => endsWithBrace argument
  | mk _ (.sequenceExpression expressions) => lastEndsWithBrace expressions
  | _ => false

def lastEndsWithBrace : List Node → Bool
  | [] => false
  | [n] => endsWithBrace n
  | _ :: ns => lastEndsWithBrace ns

end

/-- Can the expression stand bare behind `new`? It can if it is a primary with accesses but no calls. -/
def isPlainMemberChain : Node → Bool
  | mk _ (.identifier _) | mk _ .thisExpression | mk _ (.literal ..)
  | mk _ (.arrayExpression _) | mk _ (.objectExpression _) => true
  | mk _ (.memberExpression object _ _ _) => isPlainMemberChain object
  | _ => false

mutual

/-- Does the statement end with a branch that would take an `else` behind it? -/
def endsWithOpenIf : Node → Bool
  | mk _ (.ifStatement _ _ alternate) => isOpen alternate
  | mk _ (.whileStatement _ body) => endsWithOpenIf body
  | mk _ (.forStatement _ _ _ body) => endsWithOpenIf body
  | mk _ (.forInStatement _ _ body) => endsWithOpenIf body
  | mk _ (.withStatement _ body) => endsWithOpenIf body
  | mk _ (.labeledStatement _ body) => endsWithOpenIf body
  | _ => false

def isOpen : Option Node → Bool
  | none => true
  | some alternate => endsWithOpenIf alternate

end

end ScriptTree.Node
