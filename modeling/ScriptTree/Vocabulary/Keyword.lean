/-!
The reserved words. Some are reserved without a rule in the grammar, so that a script can never use
them as names.
-/

namespace ScriptTree

inductive Keyword where
  | varWord
  | letWord
  | constWord
  | functionWord
  | classWord
  | extendsWord
  | ifWord
  | elseWord
  | switchWord
  | caseWord
  | defaultWord
  | forWord
  | whileWord
  | doWord
  | breakWord
  | continueWord
  | returnWord
  | yieldWord
  | awaitWord
  | throwWord
  | tryWord
  | catchWord
  | finallyWord
  | withWord
  | debuggerWord
  | thisWord
  | newWord
  | deleteWord
  | typeofWord
  | voidWord
  | inWord
  | ofWord
  | instanceofWord
  | importWord
  | exportWord
  | asWord
  | fromWord
deriving DecidableEq

namespace Keyword

/-- What a reserved word is for. -/
inductive Category where
  | declaration
  | controlFlow
  | expression
  | operator
  | module
deriving DecidableEq

def all : List Keyword :=
  [.varWord, .letWord, .constWord, .functionWord, .classWord, .extendsWord,
   .ifWord, .elseWord, .switchWord, .caseWord, .defaultWord, .forWord, .whileWord, .doWord,
   .breakWord, .continueWord, .returnWord, .yieldWord, .awaitWord, .throwWord, .tryWord,
   .catchWord, .finallyWord, .withWord, .debuggerWord,
   .thisWord, .newWord, .deleteWord, .typeofWord, .voidWord, .inWord, .ofWord, .instanceofWord,
   .importWord, .exportWord, .asWord, .fromWord]

def spelling : Keyword → String
  | varWord => "var"
  | letWord => "let"
  | constWord => "const"
  | functionWord => "function"
  | classWord => "class"
  | extendsWord => "extends"
  | ifWord => "if"
  | elseWord => "else"
  | switchWord => "switch"
  | caseWord => "case"
  | defaultWord => "default"
  | forWord => "for"
  | whileWord => "while"
  | doWord => "do"
  | breakWord => "break"
  | continueWord => "continue"
  | returnWord => "return"
  | yieldWord => "yield"
  | awaitWord => "await"
  | throwWord => "throw"
  | tryWord => "try"
  | catchWord => "catch"
  | finallyWord => "finally"
  | withWord => "with"
  | debuggerWord => "debugger"
  | thisWord => "this"
  | newWord => "new"
  | deleteWord => "delete"
  | typeofWord => "typeof"
  | voidWord => "void"
  | inWord => "in"
  | ofWord => "of"
  | instanceofWord => "instanceof"
  | importWord => "import"
  | exportWord => "export"
  | asWord => "as"
  | fromWord => "from"

def category : Keyword → Category
  | varWord | letWord | constWord | functionWord | classWord | extendsWord => .declaration
  | thisWord | newWord => .expression
  | deleteWord | typeofWord | voidWord | inWord | ofWord | instanceofWord => .operator
  | importWord | exportWord | asWord | fromWord => .module
  | _ => .controlFlow

/-- Has the grammar a rule for the word? -/
def isSupported : Keyword → Bool
  | classWord | extendsWord | yieldWord | awaitWord | ofWord
  | importWord | exportWord | asWord | fromWord => false
  | _ => true

/-- Reads a spelling; case matters. -/
def ofSpelling? (s : String) : Option Keyword :=
  all.find? (·.spelling == s)

end ScriptTree.Keyword
