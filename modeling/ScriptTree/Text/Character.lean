/-!
Character classes of script text.

Structure is carried by ASCII alone: blanks, line breaks, operator characters and quotes. Every
other character belongs to a word, so each character is in exactly one of the five classes.
-/

namespace ScriptTree.Character

/-- The characters that start an operator or a punctuator. -/
def operatorCharacters : List Char :=
  ['+', '-', '*', '/', '!', '%', '^', '&', '?', ':', '~', '.', ',', ';', '=',
   '(', ')', '[', ']', '\x7b', '\x7d', '|', '<', '>']

def isOperator (c : Char) : Bool :=
  operatorCharacters.contains c

def isLineBreak (c : Char) : Bool :=
  c == '\r' || c == '\n'

/-- Space and tab only: other white space is part of a word. -/
def isBlank (c : Char) : Bool :=
  c == ' ' || c == '\t'

def isQuote (c : Char) : Bool :=
  c == '"' || c == '\'' || c == '\x60'

/-- What an identifier, a keyword or a number goes on with. -/
def isWord (c : Char) : Bool :=
  !isBlank c && !isLineBreak c && !isOperator c && !isQuote c

def isWordStart (c : Char) : Bool :=
  isWord c && !c.isDigit

def isHexDigit (c : Char) : Bool :=
  c.isDigit || ('a' ≤ c && c ≤ 'f') || ('A' ≤ c && c ≤ 'F')

end ScriptTree.Character
