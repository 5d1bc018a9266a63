import ScriptTree.Span
import ScriptTree.Vocabulary.Operator
import ScriptTree.Vocabulary.Keyword

/-!
Syntax trees.

A node is a span and a form. The form says which construct of the language the node is and holds its
children, all of them of the one type of nodes: a transformation may put any node anywhere. `Form` is
a functor of its children, so that what depends on one layer alone is said once for nodes and for
anything computed from them.
-/

namespace ScriptTree

inductive SourceType where
  | script
  | module
deriving DecidableEq

namespace SourceType

def name : SourceType → String
  | script => "script"
  | module => "module"

end SourceType

inductive VariableKind where
  | var
  | lexical
  | constant
deriving DecidableEq

namespace VariableKind

def spelling : VariableKind → String
  | var => "var"
  | lexical => "let"
  | constant => "const"

def ofKeyword? : Keyword → Option VariableKind
  | .varWord => some var
  | .letWord => some lexical
  | .constWord => some constant
  | _ => none

end VariableKind

inductive LiteralKind where
  | string
  | template
  | number
  | regex
  | boolean
  | null
deriving DecidableEq

namespace LiteralKind

def all : List LiteralKind :=
  [string, template, number, regex, boolean, null]

def name : LiteralKind → String
  | string => "string"
  | template => "template"
  | number => "number"
  | regex => "regex"
  | boolean => "boolean"
  | null => "null"

end LiteralKind

/-- What is said about a function beside its name, parameters and body. -/
structure FunctionTraits where
  isAsync : Bool := false
  isGenerator : Bool := false
  isExpression : Bool := false
deriving DecidableEq

/-- The constructs of the language, over the type of their children. -/
inductive Form (α : Type) where
  | program (body : List α) (sourceType : SourceType)
  | variableDeclaration (declarations : List α) (kind : VariableKind)
  | variableDeclarator (id : α) (init : Option α)
  | identifier (name : String)
  | literal (kind : LiteralKind) (raw : String)
  | binaryExpression (left : α) (operator : Operator) (right : α)
  | updateExpression (operator : UpdateOperator) (isPrefix : Bool) (argument : α)
  | assignmentExpression (operator : Operator) (left right : α)
  | unaryExpression (operator : UnaryOperator) (isPrefix : Bool) (argument : α)
  | conditionalExpression (test consequent alternate : α)
  | arrayExpression (elements : List (Option α))
  | sequenceExpression (expressions : List α)
  | objectExpression (properties : List α)
  | property (key value : α) (isComputed isShorthand isMethod : Bool)
  | functionExpression (id : Option α) (params : List α) (body : α) (traits : FunctionTraits)
  | callExpression (callee : α) (arguments : List α) (isOptional : Bool)
  | memberExpression (object property : α) (isComputed isOptional : Bool)
  | newExpression (callee : α) (arguments : List α)
  | thisExpression
  | expressionStatement (expression : α)
  | emptyStatement
  | blockStatement (body : List α)
  | ifStatement (test consequent : α) (alternate : Option α)
  | whileStatement (test body : α)
  | forStatement (init test update : Option α) (body : α)
  | doWhileStatement (body test : α)
  | breakStatement (label : Option α)
  | continueStatement (label : Option α)
  | functionDeclaration (id : Option α) (params : List α) (body : α) (traits : FunctionTraits)
  | returnStatement (argument : Option α)
  | tryStatement (block : α) (handler finalizer : Option α)
  | catchClause (param body : α)
  | labeledStatement (label body : α)
  | debuggerStatement
  | switchStatement (discriminant : α) (cases : List α)
  | switchCase (test : Option α) (consequent : List α)
  | withStatement (object body : α)
  | throwStatement (argument : α)
  | forInStatement (left right body : α)
  | sourceCode (source : String)

inductive Node where
  | mk (span : Span) (form : Form Node)

instance : Inhabited Node where
  default := .mk .origin .emptyStatement

/-- The constructs by name alone. -/
inductive NodeType where
  | program
  | variableDeclaration
  | variableDeclarator
  | identifier
  | literal
  | binaryExpression
  | updateExpression
  | assignmentExpression
  | unaryExpression
  | conditionalExpression
  | arrayExpression
  | sequenceExpression
  | objectExpression
  | property
  | functionExpression
  | callExpression
  | memberExpression
  | newExpression
  | thisExpression
  | expressionStatement
  | emptyStatement
  | blockStatement
  | ifStatement
  | whileStatement
  | forStatement
  | doWhileStatement
  | breakStatement
  | continueStatement
  | functionDeclaration
  | returnStatement
  | tryStatement
  | catchClause
  | labeledStatement
  | debuggerStatement
  | switchStatement
  | switchCase
  | withStatement
  | throwStatement
  | forInStatement
  | sourceCode
deriving DecidableEq

namespace NodeType

def all : List NodeType :=
  [program, variableDeclaration, variableDeclarator, identifier, literal, binaryExpression,
   updateExpression, assignmentExpression, unaryExpression, conditionalExpression, arrayExpression,
   sequenceExpression, objectExpression, property, functionExpression, callExpression,
   memberExpression, newExpression, thisExpression, expressionStatement, emptyStatement,
   blockStatement, ifStatement, whileStatement, forStatement, doWhileStatement, breakStatement,
   continueStatement, functionDeclaration, returnStatement, tryStatement, catchClause,
   labeledStatement, debuggerStatement, switchStatement, switchCase, withStatement, throwStatement,
   forInStatement, sourceCode]

def name : NodeType → String
  | program => "Program"
  | variableDeclaration => "VariableDeclaration"
  | variableDeclarator => "VariableDeclarator"
  | identifier => "Identifier"
  | literal => "Literal"
  | binaryExpression => "BinaryExpression"
  | updateExpression => "UpdateExpression"
  | assignmentExpression => "AssignmentExpression"
  | unaryExpression => "UnaryExpression"
  | conditionalExpression => "ConditionalExpression"
  | arrayExpression => "ArrayExpression"
  | sequenceExpression => "SequenceExpression"
  | objectExpression => "ObjectExpression"
  | property => "Property"
  | functionExpression => "FunctionExpression"
  | callExpression => "CallExpression"
  | memberExpression => "MemberExpression"
  | newExpression => "NewExpression"
  | thisExpression => "ThisExpression"
  | expressionStatement => "ExpressionStatement"
  | emptyStatement => "EmptyStatement"
  | blockStatement => "BlockStatement"
  | ifStatement => "IfStatement"
  | whileStatement => "WhileStatement"
  | forStatement => "ForStatement"
  | doWhileStatement => "DoWhileStatement"
  | breakStatement => "BreakStatement"
  | continueStatement => "ContinueStatement"
  | functionDeclaration => "FunctionDeclaration"
  | returnStatement => "ReturnStatement"
  | tryStatement => "TryStatement"
  | catchClause => "CatchClause"
  | labeledStatement => "LabeledStatement"
  | debuggerStatement => "DebuggerStatement"
  | switchStatement => "SwitchStatement"
  | switchCase => "SwitchCase"
  | withStatement => "WithStatement"
  | throwStatement => "ThrowStatement"
  | forInStatement => "ForInStatement"
  | sourceCode => "SourceCode"

def ofName? (s : String) : Option NodeType :=
  all.find? (·.name == s)

end NodeType

namespace Form

def type {α : Type} : Form α → NodeType
  | program .. => .program
  | variableDeclaration .. => .variableDeclaration
  | variableDeclarator .. => .variableDeclarator
  | identifier .. => .identifier
  | literal .. => .literal
  | binaryExpression .. => .binaryExpression
  | updateExpression .. => .updateExpression
  | assignmentExpression .. => .assignmentExpression
  | unaryExpression .. => .unaryExpression
  | conditionalExpression .. => .conditionalExpression
  | arrayExpression .. => .arrayExpression
  | sequenceExpression .. => .sequenceExpression
  | objectExpression .. => .objectExpression
  | property .. => .property
  | functionExpression .. => .functionExpression
  | callExpression .. => .callExpression
  | memberExpression .. => .memberExpression
  | newExpression .. => .newExpression
  | thisExpression => .thisExpression
  | expressionStatement .. => .expressionStatement
  | emptyStatement => .emptyStatement
  | blockStatement .. => .blockStatement
  | ifStatement .. => .ifStatement
  | whileStatement .. => .whileStatement
  | forStatement .. => .forStatement
  | doWhileStatement .. => .doWhileStatement
  | breakStatement .. => .breakStatement
  | continueStatement .. => .continueStatement
  | functionDeclaration .. => .functionDeclaration
  | returnStatement .. => .returnStatement
  | tryStatement .. => .tryStatement
  | catchClause .. => .catchClause
  | labeledStatement .. => .labeledStatement
  | debuggerStatement => .debuggerStatement
  | switchStatement .. => .switchStatement
  | switchCase .. => .switchCase
  | withStatement .. => .withStatement
  | throwStatement .. => .throwStatement
  | forInStatement .. => .forInStatement
  | sourceCode .. => .sourceCode

end Form

namespace Node

def span : Node → Span
  | mk span _ => span

def form : Node → Form Node
  | mk _ form => form

def type (n : Node) : NodeType :=
  n.form.type

def withSpan (n : Node) (span : Span) : Node :=
  mk span n.form

/-- Programs and blocks own a scope. -/
def isBlock (n : Node) : Bool :=
  match n.form with
  | .program .. | .blockStatement .. => true
  | _ => false

def isFunction (n : Node) : Bool :=
  match n.form with
  | .functionDeclaration .. | .functionExpression .. => true
  | _ => false

/-- What may be assigned to or counted up and down. -/
def isAssignable (n : Node) : Bool :=
  match n.form with
  | .identifier .. | .memberExpression .. => true
  | _ => false

def identifierName? (n : Node) : Option String :=
  match n.form with
  | .identifier name => some name
  | _ => none

/-- The parameters of a function. -/
def params? (n : Node) : Option (List Node) :=
  match n.form with
  | .functionDeclaration _ params _ _ | .functionExpression _ params _ _ => some params
  | _ => none

end ScriptTree.Node
