import ScriptTree.Span
import ScriptTree.Vocabulary.Keyword
import ScriptTree.Vocabulary.Operator
import ScriptTree.Vocabulary.Special

/-!
Tokens: a kind, the piece of source they were read from, and what the scanner found out about it.

Blanks, line breaks and comments are tokens too. They are called trivia, because the grammar skips
them; but a line break can end a statement, so the stream keeps them.
-/

namespace ScriptTree

inductive TokenKind where
  | comment
  | lineBreak
  | blank
  | keyword (word : Keyword)
  | operator (op : Operator)
  | special (word : Special)
  | identifier
  | number
  | regex
  | string
  | endOfInput
deriving DecidableEq

namespace TokenKind

def isTrivia : TokenKind → Bool
  | comment | lineBreak | blank => true
  | _ => false

/-- Identifiers, keywords and special words: what may follow a dot as a property name. -/
def isWord : TokenKind → Bool
  | identifier | keyword _ | special _ => true
  | _ => false

def keyword? : TokenKind → Option Keyword
  | keyword word => some word
  | _ => none

def operator? : TokenKind → Option Operator
  | operator op => some op
  | _ => none

end TokenKind

/-- What the scanner marks on a token beside its kind. The class of an operator is one of the first
three marks; `level` is the level of a binary one. -/
structure Marks where
  assignment : Bool := false
  update : Bool := false
  binary : Bool := false
  level : Option Nat := none
  template : Bool := false
  regex : Bool := false
  multiline : Bool := false
deriving DecidableEq

namespace Marks

def ofOperator (op : Operator) : Marks where
  assignment := op.category == .assignment
  update := op.category == .update
  binary := op.category == .binary
  level := op.level

/-- Does the token stand between or beside operands? -/
def isOperator (m : Marks) : Bool :=
  m.assignment || m.update || m.binary

end Marks

/-- Lines and columns of a token, both counted from one. Nothing is placed at line zero: that is a
position not filled in yet. -/
structure Position where
  startLine : Nat := 0
  startColumn : Nat := 0
  stopLine : Nat := 0
  stopColumn : Nat := 0
deriving DecidableEq

namespace Position

def isFilled (p : Position) : Bool :=
  0 < p.startLine

end Position

/-- An embedded expression of a template, from its dollar sign through its closing brace. -/
structure Embedding (τ : Type) where
  span : Span
  tokens : List τ

structure Token where
  kind : TokenKind
  span : Span
  value : String
  marks : Marks := {}
  position : Position := {}
  embeddings : List (Embedding Token) := []

namespace Token

/-- The token of no width that ends a source. -/
def endOfInput (offset : Nat) : Token where
  kind := .endOfInput
  span := ⟨offset, offset⟩
  value := ""

def isTrivia (t : Token) : Bool :=
  t.kind.isTrivia

def isWord (t : Token) : Bool :=
  t.kind.isWord

end ScriptTree.Token
