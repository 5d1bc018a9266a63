/-!
Operators and punctuators, and the two word operators `in` and `instanceof`.

Each is of exactly one class. A binary operator may have a level: the higher, the tighter it binds.
Punctuators are counted as binary without a level, so that they end an expression instead of joining
two.
-/

namespace ScriptTree

inductive Operator where
  | plus
  | minus
  | star
  | slash
  | percent
  | ampersand
  | bar
  | caret
  | tilde
  | bang
  | both
  | either
  | shiftLeft
  | shiftRight
  | shiftRightZero
  | equal
  | strictEqual
  | unequal
  | strictUnequal
  | less
  | lessEqual
  | greater
  | greaterEqual
  | assign
  | plusAssign
  | minusAssign
  | starAssign
  | slashAssign
  | percentAssign
  | caretAssign
  | ampersandAssign
  | barAssign
  | bothAssign
  | eitherAssign
  | shiftLeftAssign
  | shiftRightAssign
  | shiftRightZeroAssign
  | increment
  | decrement
  | question
  | colon
  | dot
  | comma
  | semicolon
  | leftParen
  | rightParen
  | leftBracket
  | rightBracket
  | leftBrace
  | rightBrace
  | inside
  | instanceOf
deriving DecidableEq

namespace Operator

inductive Class where
  | binary
  | assignment
  | update
deriving DecidableEq

def all : List Operator :=
  [.plus, .minus, .star, .slash, .percent, .ampersand, .bar, .caret, .tilde, .bang, .both, .either,
   .shiftLeft, .shiftRight, .shiftRightZero, .equal, .strictEqual, .unequal, .strictUnequal, .less,
   .lessEqual, .greater, .greaterEqual, .assign, .plusAssign, .minusAssign, .starAssign,
   .slashAssign, .percentAssign, .caretAssign, .ampersandAssign, .barAssign, .bothAssign,
   .eitherAssign, .shiftLeftAssign, .shiftRightAssign, .shiftRightZeroAssign, .increment,
   .decrement, .question, .colon, .dot, .comma, .semicolon, .leftParen, .rightParen, .leftBracket,
   .rightBracket, .leftBrace, .rightBrace, .inside, .instanceOf]

def spelling : Operator → String
  | plus => "+"
  | minus => "-"
  | star => "*"
  | slash => "/"
  | percent => "%"
  | ampersand => "&"
  | bar => "|"
  | caret => "^"
  | tilde => "~"
  | bang => "!"
  | both => "&&"
  | either => "||"
  | shiftLeft => "<<"
  | shiftRight => ">>"
  | shiftRightZero => ">>>"
  | equal => "=="
  | strictEqual => "==="
  | unequal => "!="
  | strictUnequal => "!=="
  | less => "<"
  | lessEqual => "<="
  | greater => ">"
  | greaterEqual => ">="
  | assign => "="
  | plusAssign => "+="
  | minusAssign => "-="
  | starAssign => "*="
  | slashAssign => "/="
  | percentAssign => "%="
  | caretAssign => "^="
  | ampersandAssign => "&="
  | barAssign => "|="
  | bothAssign => "&&="
  | eitherAssign => "||="
  | shiftLeftAssign => "<<="
  | shiftRightAssign => ">>="
  | shiftRightZeroAssign => ">>>="
  | increment => "++"
  | decrement => "--"
  | question => "?"
  | colon => ":"
  | dot => "."
  | comma => ","
  | semicolon => ";"
  | leftParen => "("
  | rightParen => ")"
  | leftBracket => "["
  | rightBracket => "]"
  | leftBrace => "\x7b"
  | rightBrace => "\x7d"
  | inside => "in"
  | instanceOf => "instanceof"

def category : Operator → Class
  | assign | plusAssign | minusAssign | starAssign | slashAssign | percentAssign | caretAssign
  | ampersandAssign | barAssign | bothAssign | eitherAssign | shiftLeftAssign | shiftRightAssign
  | shiftRightZeroAssign => .assignment
  | increment | decrement => .update
  | _ => .binary

def level : Operator → Option Nat
  | dot => some 18
  | tilde | bang => some 15
  | star | slash | percent => some 13
  | plus | minus => some 12
  | shiftLeft | shiftRight | shiftRightZero => some 11
  | less | lessEqual | greater | greaterEqual | inside | instanceOf => some 10
  | equal | strictEqual | unequal | strictUnequal => some 9
  | ampersand => some 8
  | caret => some 7
  | bar => some 6
  | both => some 5
  | either => some 4
  | question => some 3
  | comma => some 1
  | _ => none

/-- Is the operator spelled as a word? -/
def isWord : Operator → Bool
  | inside | instanceOf => true
  | _ => false

/-- Reads a spelling; case matters. -/
def ofSpelling? (s : String) : Option Operator :=
  all.find? (·.spelling == s)

/-- The longest operator that a text begins with. No spelling of symbols has more than four
characters. -/
def longestAt? (text : List Char) : Option Operator :=
  [4, 3, 2, 1].findSome? fun n => ofSpelling? (String.ofList (text.take n))

end Operator

/-- The operators that change their operand in place. -/
inductive UpdateOperator where
  | increment
  | decrement
deriving DecidableEq

namespace UpdateOperator

def spelling : UpdateOperator → String
  | increment => "++"
  | decrement => "--"

def ofOperator? : Operator → Option UpdateOperator
  | .increment => some increment
  | .decrement => some decrement
  | _ => none

end UpdateOperator

/-- The operators that stand in front of their one operand and leave it alone. -/
inductive UnaryOperator where
  | plus
  | minus
  | tilde
  | bang
  | voidWord
  | typeofWord
  | deleteWord
deriving DecidableEq

namespace UnaryOperator

def all : List UnaryOperator :=
  [.plus, .minus, .tilde, .bang, .voidWord, .typeofWord, .deleteWord]

def spelling : UnaryOperator → String
  | plus => "+"
  | minus => "-"
  | tilde => "~"
  | bang => "!"
  | voidWord => "void"
  | typeofWord => "typeof"
  | deleteWord => "delete"

/-- Is the operator spelled as a word, which must be kept apart from its operand? -/
def isWord : UnaryOperator → Bool
  | voidWord | typeofWord | deleteWord => true
  | _ => false

def ofSpelling? (s : String) : Option UnaryOperator :=
  all.find? (·.spelling == s)

end ScriptTree.UnaryOperator
