import ScriptTree.Json
import ScriptTree.Node.Fold

/-!
Trees as JSON: an object for each node with its type, its span and its fields. What is missing, a hole
of an array or an optional child, is `null`.
-/

namespace ScriptTree

namespace Form

/-- The fields of a node, whose children are already JSON. -/
def jsonFields : Form Json → List (String × Json)
  | program body sourceType =>
    [("body", .array body), ("sourceType", .string sourceType.name)]
  | variableDeclaration declarations kind =>
    [("declarations", .array declarations), ("kind", .string kind.spelling)]
  | variableDeclarator id init => [("id", id), ("init", init.getD .null)]
  | identifier name => [("name", .string name)]
  | literal kind raw => [("kind", .string kind.name), ("raw", .string raw)]
  | binaryExpression left op right =>
    [("left", left), ("operator", .string op.spelling), ("right", right)]
  | updateExpression op isPrefix argument =>
    [("operator", .string op.spelling), ("prefix", .bool isPrefix), ("argument", argument)]
  | assignmentExpression op left right =>
    [("operator", .string op.spelling), ("left", left), ("right", right)]
  | unaryExpression op isPrefix argument =>
    [("operator", .string op.spelling), ("prefix", .bool isPrefix), ("argument", argument)]
  | conditionalExpression test consequent alternate =>
    [("test", test), ("consequent", consequent), ("alternate", alternate)]
  | arrayExpression elements => [("elements", .array (elements.map (·.getD .null)))]
  | sequenceExpression expressions => [("expressions", .array expressions)]
  | objectExpression properties => [("properties", .array properties)]
  | property key value isComputed isShorthand isMethod =>
    [("key", key), ("value", value), ("computed", .bool isComputed),
     ("shorthand", .bool isShorthand), ("method", .bool isMethod)]
  | functionExpression id params body traits => functionFields id params body traits
  | callExpression callee arguments isOptional =>
    [("callee", callee), ("arguments", .array arguments), ("optional", .bool isOptional)]
  | memberExpression object member isComputed isOptional =>
    [("object", object), ("property", member), ("computed", .bool isComputed),
     ("optional", .bool isOptional)]
  | newExpression callee arguments => [("callee", callee), ("arguments", .array arguments)]
  | thisExpression => []
  | expressionStatement expression => [("expression", expression)]
  | emptyStatement => []
  | blockStatement body => [("body", .array body)]
  | ifStatement test consequent alternate =>
    [("test", test), ("consequent", consequent), ("alternate", alternate.getD .null)]
  | whileStatement test body => [("test", test), ("body", body)]
  | forStatement init test update body =>
    [("init", init.getD .null), ("test", test.getD .null), ("update", update.getD .null),
     ("body", body)]
  | doWhileStatement body test => [("body", body), ("test", test)]
  | breakStatement label => [("label", label.getD .null)]
  | continueStatement label => [("label", label.getD .null)]
  | functionDeclaration id params body traits => functionFields id params body traits
  | returnStatement argument => [("argument", argument.getD .null)]
  | tryStatement block handler finalizer =>
    [("block", block), ("handler", handler.getD .null), ("finalizer", finalizer.getD .null)]
  | catchClause param body => [("param", param), ("body", body)]
  | labeledStatement label body => [("label", label), ("body", body)]
  | debuggerStatement => []
  | switchStatement discriminant cases =>
    [("discriminant", discriminant), ("cases", .array cases)]
  | switchCase test consequent => [("test", test.getD .null), ("consequent", .array consequent)]
  | withStatement object body => [("object", object), ("body", body)]
  | throwStatement argument => [("argument", argument)]
  | forInStatement left right body => [("left", left), ("right", right), ("body", body)]
  | sourceCode source => [("source", .string source)]
where
  functionFields (id : Option Json) (params : List Json) (body : Json) (traits : FunctionTraits) :
      List (String × Json) :=
    [("id", id.getD .null), ("params", .array params), ("body", body),
     ("async", .bool traits.isAsync), ("generator", .bool traits.isGenerator),
     ("expression", .bool traits.isExpression)]

end Form

/-- The JSON of a whole tree. -/
def Node.toJson : Node → Json :=
  Node.fold fun node form =>
    .object (("type", .string form.type.name) :: ("start", .number node.span.start)
      :: ("end", .number node.span.stop) :: form.jsonFields)

end ScriptTree
