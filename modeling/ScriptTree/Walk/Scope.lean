import ScriptTree.Node.Fold
import ScriptTree.Node.Location

/-!
Lexical scopes: which names a block binds, and where they are used.

- `let`, `const` and function declarations bind in the block that directly holds them.
- `var` binds in the nearest block that is a program or the body of a function.
- Parameters bind in the body of their function or catch clause.
- What a nested function holds belongs to scopes of its own.
- Of several declarations of a name in a scope the first counts.

A scope is built from the tree as it is at that time. Its uses are recorded in the nearest scope that
binds the name, so building a scope adds to the scopes around it.
-/

namespace ScriptTree

inductive BindingKind where
  | var
  | lexical
  | constant
  | function
  | parameter
deriving DecidableEq

namespace BindingKind

def ofVariableKind : VariableKind → BindingKind
  | .var => var
  | .lexical => lexical
  | .constant => constant

end BindingKind

structure Binding where
  name : String
  /-- The node that declares the name: a declarator, a function or a parameter. -/
  location : Location
  kind : BindingKind
  isReferenced : Bool := false
  references : List Location := []
deriving DecidableEq

namespace Binding

/-- A name that is declared and not yet used. -/
def declared (kind : BindingKind) (location : Location) (name : String) : Binding where
  name
  location
  kind

/-- Records a use. -/
def refer (location : Location) (b : Binding) : Binding :=
  { b with isReferenced := true, references := b.references ++ [location] }

end Binding

/-- The place of a scope among all that were built; later ones have higher numbers. -/
abbrev ScopeId := Nat

structure Scope where
  block : Location
  /-- The scopes around this one, innermost first. -/
  outer : List ScopeId
  bindings : List Binding := []

namespace Scope

def get? (s : Scope) (name : String) : Option Binding :=
  s.bindings.find? (·.name == name)

def binds (s : Scope) (name : String) : Bool :=
  (s.get? name).isSome

/-- Adds a declaration. A name that is bound keeps its first one. -/
def declare (s : Scope) (b : Binding) : Scope :=
  if s.binds b.name then s else { s with bindings := s.bindings ++ [b] }

/-- Records a use of a name that the scope binds. -/
def refer (name : String) (location : Location) (s : Scope) : Scope :=
  { s with
    bindings := s.bindings.map fun b => if b.name == name then b.refer location else b }

/-- The bindings in the order of their names. -/
def sortedBindings (s : Scope) : List Binding :=
  s.bindings.mergeSort fun a b => !(b.name < a.name)

end Scope

/-- All scopes built so far, in order. -/
abbrev Scopes := List Scope

namespace Scopes

/-- The nearest scope that binds a name: the given one, or one around it. -/
def binder? (ss : Scopes) (id : ScopeId) (name : String) : Option ScopeId :=
  (id :: (ss[id]?.map (·.outer)).getD []).find? fun i => ss[i]?.any (·.binds name)

/-- The binding that a name has where the given scope is the innermost. -/
def get? (ss : Scopes) (id : ScopeId) (name : String) : Option Binding := do
  (← ss[← ss.binder? id name]?).get? name

/-- Records a use of a name. A name that is bound nowhere is left alone. -/
def refer (ss : Scopes) (id : ScopeId) (name : String) (location : Location) : Scopes :=
  match ss.binder? id name with
  | some i => ss.modify i (·.refer name location)
  | none => ss

end Scopes

/-- A node as it occurs in a block: where, in which node, and how many blocks are around it, the block
itself counted. -/
structure Occurrence where
  node : Node
  location : Location
  parent : Option Node
  depth : Nat

namespace Node

/-- The nodes that a scope of this node is built from, each before its children. A function stands for
all that it holds. -/
def occurrences : Node → (depth : Nat) → (parent : Option Node) → Location → List Occurrence :=
  fold fun node form depth parent location =>
    ⟨node, location, parent, depth⟩ ::
      if node.isFunction then []
      else
        form.children.flatMap fun (step, inner) =>
          inner (if node.isBlock then depth + 1 else depth) (some node) (location.child step)

/-- Does the parent read the variable that the identifier in this field names? Elsewhere the identifier
only names something. -/
def readsVariableIn (parent : Node) (field : String) : Bool :=
  match parent.form, field with
  | .variableDeclarator .., "id" => false
  | .functionDeclaration .., "id" | .functionDeclaration .., "params" => false
  | .functionExpression .., "id" | .functionExpression .., "params" => false
  | .catchClause .., "param" => false
  | .labeledStatement .., "label" | .breakStatement _, "label" | .continueStatement _, "label" =>
    false
  | .memberExpression _ _ isComputed _, "property" => isComputed
  | .property _ _ isComputed _ _, "key" => isComputed
  | _, _ => true

/-- The kind of binding that a declarator makes: that of the declaration it stands in. -/
def declaratorKind (parent : Option Node) : BindingKind :=
  match parent.map Node.form with
  | some (.variableDeclaration _ kind) => .ofVariableKind kind
  | _ => .var

end Node

namespace Occurrence

/-- Is the node in the block itself, and not in a block inside it? -/
def isOwn (o : Occurrence) : Bool :=
  o.depth == 1

/-- The binding that the node makes in the scope of the block, if any. `bindsVars` says that the block
is the one that `var` binds in. -/
def binding? (bindsVars : Bool) (o : Occurrence) : Option Binding :=
  match o.node.form with
  | .functionDeclaration (some id) _ _ _ =>
    if o.isOwn then id.identifierName?.map (.declared .function o.location) else none
  | .variableDeclarator id _ =>
    let kind := Node.declaratorKind o.parent
    if (if kind == .var then bindsVars else o.isOwn) then
      id.identifierName?.map (.declared kind o.location)
    else none
  | _ => none

/-- The name that the node reads in the block itself. -/
def reference? (o : Occurrence) : Option String :=
  match o.node.form, o.parent, o.location.getLast? with
  | .identifier name, some parent, some step =>
    if o.isOwn && parent.readsVariableIn step.field then some name else none
  | .identifier name, _, _ => if o.isOwn then some name else none
  | _, _, _ => none

end Occurrence

/-- What holds a block: the node and its location. -/
structure Owner where
  node : Node
  location : Location

namespace Owner

/-- The parameters among the children in a field. -/
def parametersIn (o : Owner) (field : String) : List Binding :=
  match o.node.slot? field with
  | none => []
  | some slot =>
    (slot.children field).filterMap fun (step, param) =>
      param.identifierName?.map (.declared .parameter (o.location.child step))

/-- The parameters that bind in a block of this node. -/
def parameters (o : Owner) : List Binding :=
  match o.node.type with
  | .functionDeclaration | .functionExpression => o.parametersIn "params"
  | .catchClause => o.parametersIn "param"
  | _ => []

end Owner

namespace Node

/-- The declarations that bind in a block, in the order in which they count. -/
def declarations (block : Node) (location : Location) (owner : Option Owner) : List Binding :=
  let bindsVars := owner.all (·.node.isFunction)
  let found := block.occurrences 0 (owner.map (·.node)) location
  (owner.map (·.parameters)).getD [] ++ found.filterMap (·.binding? bindsVars)

end Node

namespace Scopes

/-- Records the use that a node makes of a name, if any. -/
def record (id : ScopeId) (ss : Scopes) (o : Occurrence) : Scopes :=
  match o.reference? with
  | some name => ss.refer id name o.location
  | none => ss

/-- Builds the scope of a block, `outer` being the scopes around it. The uses of names in the block are
recorded at once. -/
def build (ss : Scopes) (block : Node) (location : Location) (owner : Option Owner)
    (outer : List ScopeId) : Scopes :=
  let scope :=
    (block.declarations location owner).foldl Scope.declare { block := location, outer }
  (block.occurrences 0 (owner.map (·.node)) location).foldl (record ss.length) (ss ++ [scope])

end Scopes

end ScriptTree
