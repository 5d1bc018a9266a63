import ScriptTree.Text.Quoted
import ScriptTree.Token.Placement
import ScriptTree.Token.Scanner

/-!
Tokens as text: the tokens of a source with their positions, and one line for each in a listing.
-/

namespace ScriptTree

namespace TokenKind

/-- The kind by name, with the spelling of a word or an operator. -/
def label : TokenKind → String
  | comment => "Comment"
  | lineBreak => "NewLine"
  | blank => "WhiteSpace"
  | keyword word => "Keyword(" ++ word.spelling ++ ")"
  | operator op => "Operator(" ++ op.spelling ++ ")"
  | special word => "Special(" ++ word.spelling ++ ")"
  | identifier => "Identifier"
  | number => "Number"
  | regex => "Regex"
  | string => "String"
  | endOfInput => "EOF"

end TokenKind

namespace Position

/-- Both ends as `line:column`. -/
def ends (p : Position) : String × String :=
  (toString p.startLine ++ ":" ++ toString p.startColumn,
   toString p.stopLine ++ ":" ++ toString p.stopColumn)

/-- The form that error messages end with. -/
def render (p : Position) : String :=
  "#" ++ p.ends.1 ++ "-#" ++ p.ends.2

end Position

namespace Token

/-- The tokens of a source in their places, the end of input last. -/
def ofSource (source : String) (keepTrivia : Bool) : List Token :=
  fillPositions source (scan source keepTrivia)

/-- One line of a listing: kind, span and value, then the position if it is known, then how many
expressions are embedded if there are any. -/
def listing (t : Token) : String :=
  t.kind.label ++ "(" ++ toString t.span.start ++ ".." ++ toString t.span.stop ++ ") "
    ++ Quoted.encode t.value
    ++ (if t.position.isFilled then " @" ++ t.position.ends.1 ++ "-" ++ t.position.ends.2 else "")
    ++ (if t.embeddings.isEmpty then "" else " quasics=" ++ toString t.embeddings.length)

end ScriptTree.Token
