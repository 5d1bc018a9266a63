import ScriptTree.Decimal.Shortest
import ScriptTree.Node

/-!
Nodes that are made and not read. They have no place in a source, so their span is the empty one at its
start; printing ignores spans.
-/

namespace ScriptTree

namespace StringLiteral

/-- One character between double quotes. What would end the literal is escaped, and so is the
backslash. -/
def escape (c : Char) : List Char :=
  match c with
  | '"' => ['\\', '"']
  | '\\' => ['\\', '\\']
  | '\n' => ['\\', 'n']
  | '\r' => ['\\', 'r']
  | c => [c]

def encode (value : String) : String :=
  String.ofList ('"' :: value.toList.flatMap escape ++ ['"'])

end StringLiteral

namespace Node

def ofForm (form : Form Node) : Node :=
  mk .origin form

/-- The node that stands where none was given. -/
def empty : Node :=
  ofForm .emptyStatement

def program (body : List Node) : Node :=
  ofForm (.program body .module)

def literal (kind : LiteralKind) (raw : String) : Node :=
  ofForm (.literal kind raw)

def stringLiteral (value : String) : Node :=
  literal .string (StringLiteral.encode value)

/-- A negative number has its sign in the literal itself, which is no literal of the language. -/
def numberLiteral (value : Float) : Node :=
  literal .number (Decimal.render value)

def booleanLiteral (value : Bool) : Node :=
  literal .boolean (if value then "true" else "false")

def nullLiteral : Node :=
  literal .null "null"

def unaryExpression (operator : UnaryOperator) (argument : Node) : Node :=
  ofForm (.unaryExpression operator true argument)

/-- A property with a plain key and a value of its own. -/
def property (key value : Node) : Node :=
  ofForm (.property key value false false false)

def callExpression (callee : Node) (arguments : List Node) : Node :=
  ofForm (.callExpression callee arguments false)

def memberExpression (object member : Node) (isComputed : Bool) : Node :=
  ofForm (.memberExpression object member isComputed false)

def functionDeclaration (id : Node) (params body : List Node) : Node :=
  ofForm (.functionDeclaration (some id) params (ofForm (.blockStatement body)) {})

def functionExpression (id : Option Node) (params body : List Node) : Node :=
  ofForm (.functionExpression id params (ofForm (.blockStatement body)) {})

def sourceCode (source : String) : Node :=
  ofForm (.sourceCode source)

end ScriptTree.Node
