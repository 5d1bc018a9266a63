import ScriptTree.Node

/-!
Where a node keeps its children.

`Form.slots` is the one table of the fields that hold children: for each its name, its content and
the form with other content in its place. Reading, replacing and removing a child all go through it.
Names, operators and flags are no fields in this sense.
-/

namespace ScriptTree

/-- A field over children of type `α`: what it holds, and what comes of putting other content there. -/
inductive Slot (α β : Type) where
  | required (content : α) (put : α → β)
  | optional (content : Option α) (put : Option α → β)
  | list (content : List α) (put : List α → β)
  | sparse (content : List (Option α)) (put : List (Option α) → β)

/-- How a parent reaches a child: the field and, in a list, the place. -/
structure Step where
  field : String
  index : Option Nat
deriving DecidableEq

namespace Slot

variable {α β γ : Type}

/-- Puts what comes of the slot into something larger. -/
def within (f : β → γ) : Slot α β → Slot α γ
  | required content put => required content (f ∘ put)
  | optional content put => optional content (f ∘ put)
  | list content put => list content (f ∘ put)
  | sparse content put => sparse content (f ∘ put)

def isRequired : Slot α β → Bool
  | required .. => true
  | _ => false

/-- How many places a list has; other fields have none. -/
def length? : Slot α β → Option Nat
  | list content _ => some content.length
  | sparse content _ => some content.length
  | required .. | optional .. => none

/-- The child at a place, if the place is of the field's shape and holds one. -/
def child? : Slot α β → Option Nat → Option α
  | required content _, none => some content
  | optional content _, none => content
  | list content _, some i => content[i]?
  | sparse content _, some i => content[i]?.join
  | _, _ => none

/-- Puts another child in place of one that is there. -/
def setChild? (x : α) : Slot α β → Option Nat → Option β
  | required _ put, none => some (put x)
  | optional (some _) put, none => some (put (some x))
  | list content put, some i =>
    if i < content.length then some (put (content.set i x)) else none
  | sparse content put, some i =>
    if content[i]?.join.isSome then some (put (content.set i (some x))) else none
  | _, _ => none

/-- Takes a place out of a list, or the child out of an optional field. A hole is a place too. -/
def removeChild? : Slot α β → Option Nat → Option β
  | optional _ put, none => some (put none)
  | list content put, some i =>
    if i < content.length then some (put (content.eraseIdx i)) else none
  | sparse content put, some i =>
    if i < content.length then some (put (content.eraseIdx i)) else none
  | _, _ => none

/-- The children from a place on, each with its step. Holes are passed over. -/
def placed (field : String) : Nat → List (Option α) → List (Step × α)
  | _, [] => []
  | i, none :: cs => placed field (i + 1) cs
  | i, some c :: cs => (⟨field, some i⟩, c) :: placed field (i + 1) cs

/-- All children of a field, in order. -/
def children (field : String) : Slot α β → List (Step × α)
  | required content _ => [(⟨field, none⟩, content)]
  | optional content _ => content.toList.map (⟨field, none⟩, ·)
  | list content _ => placed field 0 (content.map some)
  | sparse content _ => placed field 0 content

end Slot

namespace Form

variable {α : Type}

/-- The fields that hold children, in the order in which a walk visits them. -/
def slots : Form α → List (String × Slot α (Form α))
  | program body sourceType => [("body", .list body (program · sourceType))]
  | variableDeclaration declarations kind =>
    [("declarations", .list declarations (variableDeclaration · kind))]
  | variableDeclarator id init =>
    [("id", .required id (variableDeclarator · init)),
     ("init", .optional init (variableDeclarator id ·))]
  | identifier _ => []
  | literal _ _ => []
  | binaryExpression left op right =>
    [("left", .required left (binaryExpression · op right)),
     ("right", .required right (binaryExpression left op ·))]
  | updateExpression op isPrefix argument =>
    [("argument", .required argument (updateExpression op isPrefix ·))]
  | assignmentExpression op left right =>
    [("left", .required left (assignmentExpression op · right)),
     ("right", .required right (assignmentExpression op left ·))]
  | unaryExpression op isPrefix argument =>
    [("argument", .required argument (unaryExpression op isPrefix ·))]
  | conditionalExpression test consequent alternate =>
    [("test", .required test (conditionalExpression · consequent alternate)),
     ("consequent", .required consequent (conditionalExpression test · alternate)),
     ("alternate", .required alternate (conditionalExpression test consequent ·))]
  | arrayExpression elements => [("elements", .sparse elements (arrayExpression ·))]
  | sequenceExpression expressions => [("expressions", .list expressions (sequenceExpression ·))]
  | objectExpression properties => [("properties", .list properties (objectExpression ·))]
  | property key value isComputed isShorthand isMethod =>
    [("key", .required key (property · value isComputed isShorthand isMethod)),
     ("value", .required value (property key · isComputed isShorthand isMethod))]
  | functionExpression id params body traits =>
    [("id", .optional id (functionExpression · params body traits)),
     ("params", .list params (functionExpression id · body traits)),
     ("body", .required body (functionExpression id params · traits))]
  | callExpression callee arguments isOptional =>
    [("callee", .required callee (callExpression · arguments isOptional)),
     ("arguments", .list arguments (callExpression callee · isOptional))]
  | memberExpression object member isComputed isOptional =>
    [("object", .required object (memberExpression · member isComputed isOptional)),
     ("property", .required member (memberExpression object · isComputed isOptional))]
  | newExpression callee arguments =>
    [("callee", .required callee (newExpression · arguments)),
     ("arguments", .list arguments (newExpression callee ·))]
  | thisExpression => []
  | expressionStatement expression =>
    [("expression", .required expression (expressionStatement ·))]
  | emptyStatement => []
  | blockStatement body => [("body", .list body (blockStatement ·))]
  | ifStatement test consequent alternate =>
    [("test", .required test (ifStatement · consequent alternate)),
     ("consequent", .required consequent (ifStatement test · alternate)),
     ("alternate", .optional alternate (ifStatement test consequent ·))]
  | whileStatement test body =>
    [("test", .required test (whileStatement · body)),
     ("body", .required body (whileStatement test ·))]
  | forStatement init test update body =>
    [("init", .optional init (forStatement · test update body)),
     ("test", .optional test (forStatement init · update body)),
     ("update", .optional update (forStatement init test · body)),
     ("body", .required body (forStatement init test update ·))]
  | doWhileStatement body test =>
    [("body", .required body (doWhileStatement · test)),
     ("test", .required test (doWhileStatement body ·))]
  | breakStatement label => [("label", .optional label (breakStatement ·))]
  | continueStatement label => [("label", .optional label (continueStatement ·))]
  | functionDeclaration id params body traits =>
    [("id", .optional id (functionDeclaration · params body traits)),
     ("params", .list params (functionDeclaration id · body traits)),
     ("body", .required body (functionDeclaration id params · traits))]
  | returnStatement argument => [("argument", .optional argument (returnStatement ·))]
  | tryStatement block handler finalizer =>
    [("block", .required block (tryStatement · handler finalizer)),
     ("handler", .optional handler (tryStatement block · finalizer)),
     ("finalizer", .optional finalizer (tryStatement block handler ·))]
  | catchClause param body =>
    [("param", .required param (catchClause · body)),
     ("body", .required body (catchClause param ·))]
  | labeledStatement label body =>
    [("label", .required label (labeledStatement · body)),
     ("body", .required body (labeledStatement label ·))]
  | debuggerStatement => []
  | switchStatement discriminant cases =>
    [("discriminant", .required discriminant (switchStatement · cases)),
     ("cases", .list cases (switchStatement discriminant ·))]
  | switchCase test consequent =>
    [("test", .optional test (switchCase · consequent)),
     ("consequent", .list consequent (switchCase test ·))]
  | withStatement object body =>
    [("object", .required object (withStatement · body)),
     ("body", .required body (withStatement object ·))]
  | throwStatement argument => [("argument", .required argument (throwStatement ·))]
  | forInStatement left right body =>
    [("left", .required left (forInStatement · right body)),
     ("right", .required right (forInStatement left · body)),
     ("body", .required body (forInStatement left right ·))]
  | sourceCode _ => []

/-- All children with the steps that reach them, in the order in which a walk visits them. -/
def children (f : Form α) : List (Step × α) :=
  f.slots.flatMap fun (field, slot) => slot.children field

end Form

namespace NodeType

/-- The names of the fields that hold children, in the order in which a walk visits them. -/
def fields : NodeType → List String
  | program | blockStatement => ["body"]
  | variableDeclaration => ["declarations"]
  | variableDeclarator => ["id", "init"]
  | binaryExpression | assignmentExpression => ["left", "right"]
  | updateExpression | unaryExpression | returnStatement | throwStatement => ["argument"]
  | conditionalExpression | ifStatement => ["test", "consequent", "alternate"]
  | arrayExpression => ["elements"]
  | sequenceExpression => ["expressions"]
  | objectExpression => ["properties"]
  | property => ["key", "value"]
  | functionExpression | functionDeclaration => ["id", "params", "body"]
  | callExpression | newExpression => ["callee", "arguments"]
  | memberExpression => ["object", "property"]
  | expressionStatement => ["expression"]
  | whileStatement => ["test", "body"]
  | forStatement => ["init", "test", "update", "body"]
  | doWhileStatement => ["body", "test"]
  | breakStatement | continueStatement => ["label"]
  | tryStatement => ["block", "handler", "finalizer"]
  | catchClause => ["param", "body"]
  | labeledStatement => ["label", "body"]
  | switchStatement => ["discriminant", "cases"]
  | switchCase => ["test", "consequent"]
  | withStatement => ["object", "body"]
  | forInStatement => ["left", "right", "body"]
  | identifier | literal | thisExpression | emptyStatement | debuggerStatement | sourceCode => []

end NodeType

/-- The table of fields by type and the one by form name the same fields in the same order. -/
theorem Form.slots_map_fst {α : Type} (f : Form α) : f.slots.map Prod.fst = f.type.fields := by
  cases f <;> rfl

namespace Node

/-- The field of a node by name, if it is one that holds children. -/
def slot? (n : Node) (field : String) : Option (Slot Node Node) :=
  (n.form.slots.lookup field).map (·.within (mk n.span))

def child? (n : Node) (step : Step) : Option Node := do
  (← n.slot? step.field).child? step.index

def setChild? (n : Node) (step : Step) (child : Node) : Option Node := do
  (← n.slot? step.field).setChild? child step.index

def removeChild? (n : Node) (step : Step) : Option Node := do
  (← n.slot? step.field).removeChild? step.index

end ScriptTree.Node
