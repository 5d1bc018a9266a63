import Mathlib.Data.List.Chain
import ScriptTree.Parse
import ScriptTree.Print.Precedence

/-!
The trees that are scripts: which construct may stand where, and what must hold of it there.
-/

namespace ScriptTree

namespace Node

mutual

-- Does the statement end with a terminator, which takes in all semicolons behind it?
def endsWithTerminator : Node → Bool
  | mk _ (.variableDeclaration ..) | mk _ (.expressionStatement _) | mk _ (.doWhileStatement ..)
  | mk _ (.breakStatement _) | mk _ (.continueStatement _) | mk _ (.returnStatement _)
  | mk _ (.throwStatement _) | mk _ .debuggerStatement => true
  | mk _ (.ifStatement _ consequent alternate) =>
    branchEndsWithTerminator (endsWithTerminator consequent) alternate
  | mk _ (.whileStatement _ body) => endsWithTerminator body
  | mk _ (.forStatement _ _ _ body) => endsWithTerminator body
  | mk _ (.forInStatement _ _ body) => endsWithTerminator body
  | mk _ (.withStatement _ body) => endsWithTerminator body
  | mk _ (.labeledStatement _ body) => endsWithTerminator body
  | _ => false

def branchEndsWithTerminator (consequentDoes : Bool) : Option Node → Bool
  | none => consequentDoes
  | some alternate => endsWithTerminator alternate

end

-- The arm of a switch that has no test.
def isDefaultCase (n : Node) : Bool :=
  match n.form with
  | .switchCase none _ => true
  | _ => false

end Node

-- Statements one after the other. An empty one cannot follow a terminator, which would take it in.
def Separate (body : List Node) : Prop :=
  body.IsChain fun n m => n.endsWithTerminator → m.type ≠ .emptyStatement

-- What a node stands for in the construct around it. Where jumps matter, the role says which are legal.
inductive Role where
  | program (scope : JumpScope)
  | statement (scope : JumpScope)
  | block (scope : JumpScope)
  | switchCase (scope : JumpScope)
  | handler (scope : JumpScope)
  | declaration
  | declarator (kind : VariableKind)
  | loopStart
  | loopTarget
  | expression
  | target
  | property
  | key
  | word
  | name

namespace Role

-- What may be taken from a stream of tokens, of which `L` holds.
section

variable (L : Token → Prop)

def IsName (name : String) : Prop :=
  ∃ t, L t ∧ t.kind = .identifier ∧ t.value = name

def IsWord (name : String) : Prop :=
  ∃ t, L t ∧ t.isWord ∧ t.value = name

def IsLiteral (kind : LiteralKind) (raw : String) : Prop :=
  ∃ t, L t ∧ Grammar.literalKind? t = some kind ∧ t.value = raw

def Joins (operator : Operator) : Prop :=
  ∃ t level, L t ∧ Grammar.joiner? true t = some (operator, level)

def Assigns (operator : Operator) : Prop :=
  ∃ t, L t ∧ t.marks.assignment ∧ t.kind.operator? = some operator

end

end Role

open Role in
-- The nodes that may play a role.
inductive Fills (L : Token → Prop) : Role → Node → Prop
  | program {scope span body sourceType} :
    (∀ n ∈ body, Fills L (.statement scope) n) → Separate body →
    Fills L (.program scope) (.mk span (.program body sourceType))
  -- Names and literals
  | name {span name} : IsName L name → Fills L .name (.mk span (.identifier name))
  | word {span name} : IsWord L name → Fills L .word (.mk span (.identifier name))
  | keyWord {span name} : IsWord L name → Fills L .key (.mk span (.identifier name))
  | keyLiteral {span kind raw} : (kind = .number ∨ kind = .string ∨ kind = .template) →
    IsLiteral L kind raw → Fills L .key (.mk span (.literal kind raw))
  -- Expressions
  | identifier {n} : Fills L .name n → Fills L .expression n
  | literal {span kind raw} :
    IsLiteral L kind raw → Fills L .expression (.mk span (.literal kind raw))
  | thisExpression {span} : Fills L .expression (.mk span .thisExpression)
  | array {span elements} :
    (∀ n, some n ∈ elements → Fills L .expression n) →
    Fills L .expression (.mk span (.arrayExpression elements))
  | object {span properties} :
    (∀ n ∈ properties, Fills L .property n) →
    Fills L .expression (.mk span (.objectExpression properties))
  | property {span key value} :
    Fills L .key key → Fills L .expression value →
    Fills L .property (.mk span (.property key value false false false))
  | functionExpression {span id params body isAsync isGenerator} :
    (∀ n ∈ id, Fills L .name n) → (∀ n ∈ params, Fills L .name n) →
    Fills L (.block .functionBody) body →
    Fills L .expression
      (.mk span (.functionExpression id params body { isAsync, isGenerator }))
  | update {span operator isPrefix argument} :
    Fills L .target argument →
    Fills L .expression (.mk span (.updateExpression operator isPrefix argument))
  | unary {span operator argument} :
    Fills L .expression argument →
    Fills L .expression (.mk span (.unaryExpression operator true argument))
  | binary {span left operator right} :
    Joins L operator → Fills L .expression left → Fills L .expression right →
    Fills L .expression (.mk span (.binaryExpression left operator right))
  | assignment {span operator left right} :
    Assigns L operator → Fills L .target left → Fills L .expression right →
    Fills L .expression (.mk span (.assignmentExpression operator left right))
  | conditional {span test consequent alternate} :
    Fills L .expression test → Fills L .expression consequent → Fills L .expression alternate →
    Fills L .expression (.mk span (.conditionalExpression test consequent alternate))
  | sequence {span expressions} :
    2 ≤ expressions.length → (∀ n ∈ expressions, Fills L .expression n) →
    Fills L .expression (.mk span (.sequenceExpression expressions))
  | call {span callee arguments} :
    Fills L .expression callee → (∀ n ∈ arguments, Fills L .expression n) →
    Fills L .expression (.mk span (.callExpression callee arguments false))
  | member {span object member} :
    Fills L .expression object → Fills L .word member →
    Fills L .expression (.mk span (.memberExpression object member false false))
  | computedMember {span object member} :
    Fills L .expression object → Fills L .expression member →
    Fills L .expression (.mk span (.memberExpression object member true false))
  | construction {span callee arguments} :
    Fills L .expression callee → (∀ n ∈ arguments, Fills L .expression n) →
    Fills L .expression (.mk span (.newExpression callee arguments))
  | target {n} : n.isAssignable → Fills L .expression n → Fills L .target n
  -- Declarations
  | declarator {kind span id init} :
    (kind = .constant → init.isSome) → Fills L .name id → (∀ n ∈ init, Fills L .expression n) →
    Fills L (.declarator kind) (.mk span (.variableDeclarator id init))
  | declaration {span declarations kind} :
    declarations ≠ [] → (∀ n ∈ declarations, Fills L (.declarator kind) n) →
    Fills L .declaration (.mk span (.variableDeclaration declarations kind))
  | declarationStatement {scope n} : Fills L .declaration n → Fills L (.statement scope) n
  | functionDeclaration {scope span id params body isAsync isGenerator} :
    Fills L .name id → (∀ n ∈ params, Fills L .name n) → Fills L (.block .functionBody) body →
    Fills L (.statement scope)
      (.mk span (.functionDeclaration (some id) params body { isAsync, isGenerator }))
  -- Statements
  | expressionStatement {scope span expression} :
    Fills L .expression expression →
    Fills L (.statement scope) (.mk span (.expressionStatement expression))
  | emptyStatement {scope span} : Fills L (.statement scope) (.mk span .emptyStatement)
  | debuggerStatement {scope span} : Fills L (.statement scope) (.mk span .debuggerStatement)
  | block {scope span body} :
    (∀ n ∈ body, Fills L (.statement scope) n) → Separate body →
    Fills L (.block scope) (.mk span (.blockStatement body))
  | blockStatement {scope n} : Fills L (.block scope) n → Fills L (.statement scope) n
  | ifStatement {scope span test consequent alternate} :
    (alternate.isSome → ¬consequent.endsWithOpenIf) → Fills L .expression test →
    Fills L (.statement scope) consequent → (∀ n ∈ alternate, Fills L (.statement scope) n) →
    Fills L (.statement scope) (.mk span (.ifStatement test consequent alternate))
  | whileStatement {scope span test body} :
    Fills L .expression test → Fills L (.statement scope.inLoop) body →
    Fills L (.statement scope) (.mk span (.whileStatement test body))
  | doWhileStatement {scope span body test} :
    Fills L (.statement scope.inLoop) body → Fills L .expression test →
    Fills L (.statement scope) (.mk span (.doWhileStatement body test))
  | loopDeclaration {n} : Fills L .declaration n → Fills L .loopStart n
  | loopExpression {n} : Fills L .expression n → Fills L .loopStart n
  | forStatement {scope span init test update body} :
    (∀ n ∈ init, Fills L .loopStart n) → (∀ n ∈ test, Fills L .expression n) →
    (∀ n ∈ update, Fills L .expression n) → Fills L (.statement scope.inLoop) body →
    Fills L (.statement scope) (.mk span (.forStatement init test update body))
  | loopVariable {span declaratorSpan id kind} :
    Fills L .name id →
    Fills L .loopTarget
      (.mk span (.variableDeclaration [.mk declaratorSpan (.variableDeclarator id none)] kind))
  | loopTarget {n} : Fills L .target n → Fills L .loopTarget n
  | forInStatement {scope span left right body} :
    Fills L .loopTarget left → Fills L .expression right →
    Fills L (.statement scope.inLoop) body →
    Fills L (.statement scope) (.mk span (.forInStatement left right body))
  | breakStatement {scope span label} :
    scope.allowsBreak → (∀ n ∈ label, Fills L .name n) →
    Fills L (.statement scope) (.mk span (.breakStatement label))
  | continueStatement {scope span label} :
    scope.allowsContinue → (∀ n ∈ label, Fills L .name n) →
    Fills L (.statement scope) (.mk span (.continueStatement label))
  | returnStatement {scope span argument} :
    scope.allowsReturn → (∀ n ∈ argument, Fills L .expression n) →
    Fills L (.statement scope) (.mk span (.returnStatement argument))
  | throwStatement {scope span argument} :
    Fills L .expression argument →
    Fills L (.statement scope) (.mk span (.throwStatement argument))
  | handler {scope span param body} :
    Fills L .name param → Fills L (.block scope) body →
    Fills L (.handler scope) (.mk span (.catchClause param body))
  | tryStatement {scope span block handler finalizer} :
    handler.isSome ∨ finalizer.isSome → Fills L (.block scope) block →
    (∀ n ∈ handler, Fills L (.handler scope) n) → (∀ n ∈ finalizer, Fills L (.block scope) n) →
    Fills L (.statement scope) (.mk span (.tryStatement block handler finalizer))
  | labeledStatement {scope span label body} :
    Fills L .name label → Fills L (.statement scope) body →
    Fills L (.statement scope) (.mk span (.labeledStatement label body))
  | switchCase {scope span test body} :
    (∀ n ∈ test, Fills L .expression n) → (∀ n ∈ body, Fills L (.statement scope) n) →
    Separate body → Fills L (.switchCase scope) (.mk span (.switchCase test body))
  | switchStatement {scope span discriminant cases} :
    cases.countP Node.isDefaultCase ≤ 1 → Fills L .expression discriminant →
    (∀ n ∈ cases, Fills L (.switchCase scope.inSwitch) n) →
    Fills L (.statement scope) (.mk span (.switchStatement discriminant cases))
  | withStatement {scope span object body} :
    Fills L .expression object → Fills L (.statement scope) body →
    Fills L (.statement scope) (.mk span (.withStatement object body))

end ScriptTree
