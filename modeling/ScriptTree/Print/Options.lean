/-!
How a tree is printed.
-/

namespace ScriptTree

/-- How the property of an object is written. -/
inductive MemberStyle where
  /-- As the tree has it. -/
  | asIs
  /-- In brackets, also where the tree has a name. -/
  | bracket
  /-- After a dot, where the tree has a string in brackets that is a plain name. -/
  | dot
deriving DecidableEq

namespace MemberStyle

def name : MemberStyle → String
  | asIs => "default"
  | bracket => "on"
  | dot => "off"

/-- Reads a style by its name or by the longer form of it. -/
def ofName? (s : String) : Option MemberStyle :=
  if s == "default" then some asIs
  else if s == "on" || s == "onComputed" then some bracket
  else if s == "off" || s == "offComputed" then some dot
  else none

/-- What is said of a name that no style has. -/
def unknownMessage (s : String) : String :=
  "unknown computed mode `" ++ s ++ "` (expected default, on or off)"

end MemberStyle

structure PrintOptions where
  /-- Blanks around operators, a line for each statement, and indented blocks. -/
  isSpaced : Bool := false
  memberStyle : MemberStyle := .asIs
  /-- Parentheses around every expression that is a statement. -/
  encloses : Bool := false
  /-- Blanks for each level of indentation. -/
  indentWidth : Nat := 4
deriving DecidableEq

end ScriptTree
