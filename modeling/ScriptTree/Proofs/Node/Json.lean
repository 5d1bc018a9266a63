import ScriptTree.Node.Json
import ScriptTree.Proofs.Json
import ScriptTree.Proofs.Node.Nesting
import ScriptTree.Proofs.Token.Extent

/-!
A tree can be read back from its JSON, so that different trees have different texts.

The type of a node says how many fields there are and what they hold. No child is `null`, so `null`
stands for nothing but a child that is missing.
-/

namespace ScriptTree

namespace Slot

variable {α β γ : Type}

-- What the field holds comes back, if it is changed and changed back.
def Returns (f : α → β) (g : β → α) : Slot α γ → Prop
  | required content _ => g (f content) = content
  | optional content _ => (content.map f).map g = content
  | list content _     => (content.map f).map g = content
  | sparse content _   => (content.map (·.map f)).map (·.map g) = content

theorem returns_of_forall {f : α → β} {g : β → α} {s : Slot α γ} (h : ∀ c ∈ s.contents, g (f c) = c) :
    s.Returns f g := by
  have hoption (x : Option α) (h : ∀ c ∈ x, g (f c) = c) : (x.map f).map g = x := by
    cases x
    case none => rfl
    case some x => exact congrArg some (h x rfl)
  cases s
  case required => exact h _ (.head _)
  case optional => exact hoption _ fun c hc => h c (Option.mem_toList.mpr hc)
  case list =>
    rw [Returns, List.map_map]
    exact (List.map_congr_left h).trans (List.map_id _)
  case sparse =>
    rw [Returns, List.map_map]
    refine (List.map_congr_left fun x hx => hoption x fun c hc => ?_).trans (List.map_id _)
    exact h c (List.reduceOption_mem_iff.mpr (hc ▸ hx))

end Slot

namespace Form

theorem map_map_eq_self {α β : Type} {f : α → β} {g : β → α} {form : Form α}
    (h : ∀ c ∈ form.nodes, g (f c) = c) : (form.map f).map g = form := by
  have hslots : ∀ entry ∈ form.slots, entry.2.Returns f g := fun entry hentry =>
    Slot.returns_of_forall fun c hc => h c (nodes_eq form ▸ List.mem_flatMap.mpr ⟨entry, hentry, hc⟩)
  cases form <;>
    simp only [slots, List.forall_mem_cons, Slot.Returns] at hslots <;> simp only [map, hslots]

-- What a field holds whose child may be missing.
def present? : Json → Option Json
  | .null => none
  | x => some x

-- The form that has the fields, if a node of the type can have them.
def ofJsonFields? : NodeType → List (String × Json) → Option (Form Json)
  | .program, [(_, .array body), (_, .string name)] =>
    ([.script, .module].find? (SourceType.name · == name)).map (program body)
  | .variableDeclaration, [(_, .array declarations), (_, .string spelling)] =>
    ([.var, .lexical, .constant].find? (VariableKind.spelling · == spelling)).map
      (variableDeclaration declarations)
  | .variableDeclarator, [(_, id), (_, init)] => some (variableDeclarator id (present? init))
  | .identifier, [(_, .string name)] => some (identifier name)
  | .literal, [(_, .string name), (_, .string raw)] =>
    (LiteralKind.all.find? (·.name == name)).map (literal · raw)
  | .binaryExpression, [(_, left), (_, .string op), (_, right)] =>
    (Operator.ofSpelling? op).map (binaryExpression left · right)
  | .updateExpression, [(_, .string op), (_, .bool isPrefix), (_, argument)] =>
    ([.increment, .decrement].find? (UpdateOperator.spelling · == op)).map
      (updateExpression · isPrefix argument)
  | .assignmentExpression, [(_, .string op), (_, left), (_, right)] =>
    (Operator.ofSpelling? op).map (assignmentExpression · left right)
  | .unaryExpression, [(_, .string op), (_, .bool isPrefix), (_, argument)] =>
    (UnaryOperator.ofSpelling? op).map (unaryExpression · isPrefix argument)
  | .conditionalExpression, [(_, test), (_, consequent), (_, alternate)] =>
    some (conditionalExpression test consequent alternate)
  | .arrayExpression, [(_, .array elements)] => some (arrayExpression (elements.map present?))
  | .sequenceExpression, [(_, .array expressions)] => some (sequenceExpression expressions)
  | .objectExpression, [(_, .array properties)] => some (objectExpression properties)
  | .property, [(_, key), (_, value), (_, .bool isComputed), (_, .bool isShorthand),
      (_, .bool isMethod)] =>
    some (property key value isComputed isShorthand isMethod)
  | .functionExpression, fields =>
    (functionOf? fields).map fun (id, params, body, traits) => functionExpression id params body traits
  | .callExpression, [(_, callee), (_, .array arguments), (_, .bool isOptional)] =>
    some (callExpression callee arguments isOptional)
  | .memberExpression, [(_, object), (_, member), (_, .bool isComputed), (_, .bool isOptional)] =>
    some (memberExpression object member isComputed isOptional)
  | .newExpression, [(_, callee), (_, .array arguments)] => some (newExpression callee arguments)
  | .thisExpression, [] => some thisExpression
  | .expressionStatement, [(_, expression)] => some (expressionStatement expression)
  | .emptyStatement, [] => some emptyStatement
  | .blockStatement, [(_, .array body)] => some (blockStatement body)
  | .ifStatement, [(_, test), (_, consequent), (_, alternate)] =>
    some (ifStatement test consequent (present? alternate))
  | .whileStatement, [(_, test), (_, body)] => some (whileStatement test body)
  | .forStatement, [(_, init), (_, test), (_, update), (_, body)] =>
    some (forStatement (present? init) (present? test) (present? update) body)
  | .doWhileStatement, [(_, body), (_, test)] => some (doWhileStatement body test)
  | .breakStatement, [(_, label)] => some (breakStatement (present? label))
  | .continueStatement, [(_, label)] => some (continueStatement (present? label))
  | .functionDeclaration, fields =>
    (functionOf? fields).map fun (id, params, body, traits) => functionDeclaration id params body traits
  | .returnStatement, [(_, argument)] => some (returnStatement (present? argument))
  | .tryStatement, [(_, block), (_, handler), (_, finalizer)] =>
    some (tryStatement block (present? handler) (present? finalizer))
  | .catchClause, [(_, param), (_, body)] => some (catchClause param body)
  | .labeledStatement, [(_, label), (_, body)] => some (labeledStatement label body)
  | .debuggerStatement, [] => some debuggerStatement
  | .switchStatement, [(_, discriminant), (_, .array cases)] =>
    some (switchStatement discriminant cases)
  | .switchCase, [(_, test), (_, .array consequent)] =>
    some (switchCase (present? test) consequent)
  | .withStatement, [(_, object), (_, body)] => some (withStatement object body)
  | .throwStatement, [(_, argument)] => some (throwStatement argument)
  | .forInStatement, [(_, left), (_, right), (_, body)] => some (forInStatement left right body)
  | .sourceCode, [(_, .string source)] => some (sourceCode source)
  | _, _ => none
where
  functionOf? : List (String × Json) → Option (Option Json × List Json × Json × FunctionTraits)
    | [(_, id), (_, .array params), (_, body), (_, .bool isAsync), (_, .bool isGenerator),
        (_, .bool isExpression)] =>
      some (present? id, params, body, { isAsync, isGenerator, isExpression })
    | _ => none

variable {α : Type} {f : α → Json}

theorem present?_getD (hf : ∀ x, f x ≠ .null) (x : Option α) :
    present? ((x.map f).getD .null) = x.map f := by
  cases x
  case none => rfl
  case some x =>
    show present? (f x) = some (f x)
    rw [present?]
    exact hf x

theorem functionOf?_functionFields (hf : ∀ x, f x ≠ .null) (id : Option α) (params : List Json)
    (body : Json) (traits : FunctionTraits) :
    ofJsonFields?.functionOf? (jsonFields.functionFields (id.map f) params body traits) =
      some (id.map f, params, body, traits) := by
  simp [jsonFields.functionFields, ofJsonFields?.functionOf?, present?_getD hf]

theorem ofJsonFields?_jsonFields (hf : ∀ x, f x ≠ .null) (form : Form α) :
    ofJsonFields? (form.map f).type (form.map f).jsonFields = some (form.map f) := by
  have hpresent := present?_getD hf
  have hfunction := functionOf?_functionFields hf
  have hunary (op : UnaryOperator) : UnaryOperator.ofSpelling? op.spelling = some op := by
    cases op <;> rfl
  cases form
  case program sourceType => cases sourceType <;> rfl
  case variableDeclaration kind => cases kind <;> rfl
  case literal kind raw => cases kind <;> rfl
  case updateExpression op _ _ => cases op <;> rfl
  -- Most constructs are read back by evaluation; the others have a part that may be missing, or a word.
  all_goals first
    | rfl
    | simp [type, map, jsonFields, ofJsonFields?, hpresent, hfunction, hunary,
        Operator.ofSpelling?_of_spelling]

end Form

namespace Node

-- Reads a tree of no more nodes one inside the other than the depth.
def ofJson : (depth : Nat) → Json → Node
  | depth + 1, .object ((_, .string name) :: (_, .number start) :: (_, .number stop) :: fields) =>
    match (NodeType.ofName? name).bind (Form.ofJsonFields? · fields) with
    | some form => mk ⟨start, stop⟩ (form.map (ofJson depth))
    | none => default
  | _, _ => default

theorem toJson_eq (n : Node) :
    n.toJson = .object (("type", .string (n.form.map toJson).type.name)
      :: ("start", .number n.span.start) :: ("end", .number n.span.stop)
      :: (n.form.map toJson).jsonFields) :=
  fold_eq _ n

theorem toJson_ne_null (n : Node) : n.toJson ≠ .null := by
  rw [toJson_eq]
  exact nofun

theorem height_lt_of_mem_nodes {n c : Node} (h : c ∈ n.form.nodes) : c.height < n.height := by
  obtain ⟨⟨step, c⟩, hstep, rfl⟩ := List.mem_map.mp h
  exact height_lt_of_child? (mem_children.mp hstep)

theorem ofJson_toJson {depth : Nat} {n : Node} (h : n.height ≤ depth) : ofJson depth n.toJson = n := by
  induction depth generalizing n
  case zero => exact absurd n.height_pos (Nat.not_lt.mpr h)
  case succ depth ih =>
    have hchildren : (n.form.map toJson).map (ofJson depth) = n.form :=
      Form.map_map_eq_self fun c hc => ih (by have := height_lt_of_mem_nodes hc; omega)
    have htype (type : NodeType) : NodeType.ofName? type.name = some type := by
      cases type <;> rfl
    rw [toJson_eq]
    simp only [ofJson, htype, Option.bind_some, Form.ofJsonFields?_jsonFields toJson_ne_null, hchildren]
    cases n
    rfl

theorem toJson_injective : Function.Injective toJson := by
  intro n m h
  rw [← ofJson_toJson (Nat.le_max_left n.height m.height), h, ofJson_toJson (Nat.le_max_right ..)]

-- Different trees have different texts, whether they were read, built or transformed.
theorem render_toJson_injective : Function.Injective fun n : Node => n.toJson.render :=
  Json.render_injective.comp toJson_injective

end Node
end ScriptTree
