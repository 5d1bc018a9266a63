import ScriptTree.Node.Fields

/-!
Recursion over a tree, one layer at a time.

`Node.fold` computes a value for every node from the node and from its form with the values of the
children in their places. `Node.fold_eq` is the equation that says so.
-/

namespace ScriptTree

namespace Form

variable {α β : Type}

/-- Replaces every child. -/
def map (f : α → β) : Form α → Form β
  | program body sourceType => .program (body.map f) sourceType
  | variableDeclaration declarations kind => .variableDeclaration (declarations.map f) kind
  | variableDeclarator id init => .variableDeclarator (f id) (init.map f)
  | identifier name => .identifier name
  | literal kind raw => .literal kind raw
  | binaryExpression left op right => .binaryExpression (f left) op (f right)
  | updateExpression op isPrefix argument => .updateExpression op isPrefix (f argument)
  | assignmentExpression op left right => .assignmentExpression op (f left) (f right)
  | unaryExpression op isPrefix argument => .unaryExpression op isPrefix (f argument)
  | conditionalExpression test consequent alternate =>
    .conditionalExpression (f test) (f consequent) (f alternate)
  | arrayExpression elements => .arrayExpression (elements.map (·.map f))
  | sequenceExpression expressions => .sequenceExpression (expressions.map f)
  | objectExpression properties => .objectExpression (properties.map f)
  | property key value isComputed isShorthand isMethod =>
    .property (f key) (f value) isComputed isShorthand isMethod
  | functionExpression id params body traits =>
    .functionExpression (id.map f) (params.map f) (f body) traits
  | callExpression callee arguments isOptional =>
    .callExpression (f callee) (arguments.map f) isOptional
  | memberExpression object member isComputed isOptional =>
    .memberExpression (f object) (f member) isComputed isOptional
  | newExpression callee arguments => .newExpression (f callee) (arguments.map f)
  | thisExpression => .thisExpression
  | expressionStatement expression => .expressionStatement (f expression)
  | emptyStatement => .emptyStatement
  | blockStatement body => .blockStatement (body.map f)
  | ifStatement test consequent alternate =>
    .ifStatement (f test) (f consequent) (alternate.map f)
  | whileStatement test body => .whileStatement (f test) (f body)
  | forStatement init test update body =>
    .forStatement (init.map f) (test.map f) (update.map f) (f body)
  | doWhileStatement body test => .doWhileStatement (f body) (f test)
  | breakStatement label => .breakStatement (label.map f)
  | continueStatement label => .continueStatement (label.map f)
  | functionDeclaration id params body traits =>
    .functionDeclaration (id.map f) (params.map f) (f body) traits
  | returnStatement argument => .returnStatement (argument.map f)
  | tryStatement block handler finalizer =>
    .tryStatement (f block) (handler.map f) (finalizer.map f)
  | catchClause param body => .catchClause (f param) (f body)
  | labeledStatement label body => .labeledStatement (f label) (f body)
  | debuggerStatement => .debuggerStatement
  | switchStatement discriminant cases => .switchStatement (f discriminant) (cases.map f)
  | switchCase test consequent => .switchCase (test.map f) (consequent.map f)
  | withStatement object body => .withStatement (f object) (f body)
  | throwStatement argument => .throwStatement (f argument)
  | forInStatement left right body => .forInStatement (f left) (f right) (f body)
  | sourceCode source => .sourceCode source

end Form

variable {β : Type}

mutual

/-- The value of a node, computed by `f` from the node and from its form with the values of the
children. -/
def Node.fold (f : Node → Form β → β) : Node → β
  | .mk span form => f (.mk span form) (foldForm f form)

def foldForm (f : Node → Form β → β) : Form Node → Form β
  | .program body sourceType => .program (foldList f body) sourceType
  | .variableDeclaration declarations kind =>
    .variableDeclaration (foldList f declarations) kind
  | .variableDeclarator id init => .variableDeclarator (id.fold f) (foldOption f init)
  | .identifier name => .identifier name
  | .literal kind raw => .literal kind raw
  | .binaryExpression left op right =>
    .binaryExpression (left.fold f) op (right.fold f)
  | .updateExpression op isPrefix argument =>
    .updateExpression op isPrefix (argument.fold f)
  | .assignmentExpression op left right =>
    .assignmentExpression op (left.fold f) (right.fold f)
  | .unaryExpression op isPrefix argument =>
    .unaryExpression op isPrefix (argument.fold f)
  | .conditionalExpression test consequent alternate =>
    .conditionalExpression (test.fold f) (consequent.fold f)
      (alternate.fold f)
  | .arrayExpression elements => .arrayExpression (foldSparse f elements)
  | .sequenceExpression expressions => .sequenceExpression (foldList f expressions)
  | .objectExpression properties => .objectExpression (foldList f properties)
  | .property key value isComputed isShorthand isMethod =>
    .property (key.fold f) (value.fold f) isComputed isShorthand isMethod
  | .functionExpression id params body traits =>
    .functionExpression (foldOption f id) (foldList f params) (body.fold f) traits
  | .callExpression callee arguments isOptional =>
    .callExpression (callee.fold f) (foldList f arguments) isOptional
  | .memberExpression object member isComputed isOptional =>
    .memberExpression (object.fold f) (member.fold f) isComputed isOptional
  | .newExpression callee arguments =>
    .newExpression (callee.fold f) (foldList f arguments)
  | .thisExpression => .thisExpression
  | .expressionStatement expression => .expressionStatement (expression.fold f)
  | .emptyStatement => .emptyStatement
  | .blockStatement body => .blockStatement (foldList f body)
  | .ifStatement test consequent alternate =>
    .ifStatement (test.fold f) (consequent.fold f) (foldOption f alternate)
  | .whileStatement test body => .whileStatement (test.fold f) (body.fold f)
  | .forStatement init test update body =>
    .forStatement (foldOption f init) (foldOption f test) (foldOption f update)
      (body.fold f)
  | .doWhileStatement body test => .doWhileStatement (body.fold f) (test.fold f)
  | .breakStatement label => .breakStatement (foldOption f label)
  | .continueStatement label => .continueStatement (foldOption f label)
  | .functionDeclaration id params body traits =>
    .functionDeclaration (foldOption f id) (foldList f params) (body.fold f) traits
  | .returnStatement argument => .returnStatement (foldOption f argument)
  | .tryStatement block handler finalizer =>
    .tryStatement (block.fold f) (foldOption f handler) (foldOption f finalizer)
  | .catchClause param body => .catchClause (param.fold f) (body.fold f)
  | .labeledStatement label body =>
    .labeledStatement (label.fold f) (body.fold f)
  | .debuggerStatement => .debuggerStatement
  | .switchStatement discriminant cases =>
    .switchStatement (discriminant.fold f) (foldList f cases)
  | .switchCase test consequent => .switchCase (foldOption f test) (foldList f consequent)
  | .withStatement object body => .withStatement (object.fold f) (body.fold f)
  | .throwStatement argument => .throwStatement (argument.fold f)
  | .forInStatement left right body =>
    .forInStatement (left.fold f) (right.fold f) (body.fold f)
  | .sourceCode source => .sourceCode source

def foldList (f : Node → Form β → β) : List Node → List β
  | [] => []
  | n :: ns => (n.fold f) :: foldList f ns

def foldOption (f : Node → Form β → β) : Option Node → Option β
  | none => none
  | some n => some (n.fold f)

def foldSparse (f : Node → Form β → β) : List (Option Node) → List (Option β)
  | [] => []
  | n :: ns => foldOption f n :: foldSparse f ns

end

theorem foldList_eq_map (f : Node → Form β → β) (ns : List Node) :
    foldList f ns = ns.map fun n => (n.fold f) := by
  induction ns with
  | nil => rfl
  | cons n ns ih => simp [foldList, ih]

theorem foldOption_eq_map (f : Node → Form β → β) (n : Option Node) :
    foldOption f n = n.map fun n => (n.fold f) := by
  cases n <;> rfl

theorem foldSparse_eq_map (f : Node → Form β → β) (ns : List (Option Node)) :
    foldSparse f ns = ns.map fun n => n.map fun n => (n.fold f) := by
  induction ns with
  | nil => rfl
  | cons n ns ih => simp [foldSparse, foldOption_eq_map, ih]

theorem foldForm_eq_map (f : Node → Form β → β) (form : Form Node) :
    foldForm f form = form.map fun n => (n.fold f) := by
  cases form <;>
    simp [foldForm, Form.map, foldList_eq_map, foldOption_eq_map, foldSparse_eq_map]

/-- The value of a node comes from the node and from the values of its children. -/
theorem Node.fold_eq (f : Node → Form β → β) (n : Node) :
    n.fold f = f n (n.form.map (·.fold f)) := by
  cases n with
  | mk span form => simp [Node.fold, Node.form, foldForm_eq_map]

end ScriptTree
