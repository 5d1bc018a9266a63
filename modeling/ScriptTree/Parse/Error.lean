import ScriptTree.Token.Listing

/-!
What can be wrong with a script, and how it is said.
-/

namespace ScriptTree

/-- What is done to an expression that must be something that can be assigned to. -/
inductive TargetUse where
  | prefixUpdate
  | postfixUpdate
  | assignment
  | loopVariable
deriving DecidableEq

namespace TargetUse

def phrase : TargetUse → String
  | prefixUpdate => "prefix operation"
  | postfixUpdate => "postfix operation"
  | assignment => "assignment"
  | loopVariable => "for-in loop"

end TargetUse

/-- The statements that are legal only inside others. -/
inductive Jump where
  | breakJump
  | continueJump
  | returnJump
deriving DecidableEq

namespace Jump

def spelling : Jump → String
  | breakJump => "break"
  | continueJump => "continue"
  | returnJump => "return"

end Jump

inductive ParseFault where
  | unexpectedToken (value : String)
  | unexpectedString
  | unexpectedEnd
  /-- A constant without a value. -/
  | missingInitializer (name : String)
  /-- `ofBinary` says that the target is a binary expression. -/
  | invalidTarget (use : TargetUse) (ofBinary : Bool)
  | illegalJump (jump : Jump)
deriving DecidableEq

namespace ParseFault

/-- A stable name for the kind of fault. -/
def code : ParseFault → String
  | unexpectedToken _ => "unexpected_token"
  | unexpectedString => "unexpected_string"
  | unexpectedEnd => "unexpected_eof"
  | missingInitializer _ => "missing_init"
  | invalidTarget .. => "invalid_left_hand_side"
  | illegalJump _ => "illegal_statement"

def message : ParseFault → String
  | unexpectedToken value => "Unexpected token '" ++ value ++ "'"
  | unexpectedString => "Unexpected string"
  | unexpectedEnd => "Unexpected end of input"
  | missingInitializer _ => "Missing initializer in const declaration"
  | invalidTarget use _ => "Invalid left-hand side expression in " ++ use.phrase
  | illegalJump jump => "Illegal " ++ jump.spelling ++ " statement"

/-- Advice on how to mend the fault, where there is any. -/
def hint? : ParseFault → Option String
  | missingInitializer name =>
    some ("a `const` binding needs a value: `const " ++ name ++ " = ...;`")
  | invalidTarget .assignment true =>
    some "an operand cannot be assigned; parenthesize the assignment: `a + (b = c)`"
  | _ => none

end ParseFault

/-- A fault and the token where it shows. -/
structure ParseError where
  fault : ParseFault
  span : Span
  position : Position
deriving DecidableEq

namespace ParseError

def atToken (fault : ParseFault) (t : Token) : ParseError :=
  ⟨fault, t.span, t.position⟩

/-- The token fits no rule of the grammar. -/
def unexpected (t : Token) : ParseError :=
  atToken
    (match t.kind with
      | .endOfInput => .unexpectedEnd
      | .string => .unexpectedString
      | _ => .unexpectedToken t.value) t

/-- The message with the position behind it. -/
def render (e : ParseError) : String :=
  e.fault.message ++ " (" ++ e.position.render ++ ")"

end ScriptTree.ParseError
