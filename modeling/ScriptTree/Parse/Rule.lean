import ScriptTree.Node
import ScriptTree.Parse.Cursor
import ScriptTree.Parse.Error

/-!
Rules of the grammar as functions that move a cursor, and the small rules that all others are made of.

Rules call each other in a circle. A rule is therefore written over a `Grammar`, which holds the rules
it may call, and the circle is closed by `Grammar.ofDepth`, see `ScriptTree.Parse`.
-/

namespace ScriptTree

/-- Why a rule has no result. `exhausted` says nothing about the script: the depth that was allowed was
too small. -/
inductive Stop where
  | failed (error : ParseError)
  | exhausted

abbrev Rule := StateT Cursor (Except Stop)

/-- What one round of a loop ends with. -/
inductive Round (α β : Type) where
  | again (state : α)
  | finish (result : β)

/-- Which jumps are legal inside a statement. -/
structure JumpScope where
  allowsReturn : Bool := false
  allowsBreak : Bool := false
  allowsContinue : Bool := false
deriving DecidableEq

namespace JumpScope

def functionBody : JumpScope where
  allowsReturn := true

def inLoop (s : JumpScope) : JumpScope :=
  { s with allowsBreak := true, allowsContinue := true }

def inSwitch (s : JumpScope) : JumpScope :=
  { s with allowsBreak := true }

end JumpScope

/-- The rules that others call in a circle. -/
structure Grammar where
  /-- How many rounds a loop may take. -/
  limit : Nat
  statement : JumpScope → Rule Node
  /-- An expression; the flags say whether it may be a sequence and whether `in` joins operands. -/
  expression : (sequence joinsIn : Bool) → Rule Node
  /-- An operand without what may follow it. -/
  primary : Rule Node

namespace Rule

def fail {α : Type} (error : ParseError) : Rule α :=
  throw (.failed error)

def current : Rule Token :=
  return (← get).current

/-- Where the current token starts. -/
def start : Rule Nat :=
  return (← get).current.span.start

/-- The span from an offset to the end of what was consumed last. -/
def spanFrom (start : Nat) : Rule Span :=
  return ⟨start, max (← get).lastStop start⟩

def isAtEnd : Rule Bool :=
  return (← get).isAtEnd

def isAfterLineBreak : Rule Bool :=
  return (← get).isAfterLineBreak

/-- Is the current token of this kind? -/
def check (kind : TokenKind) : Rule Bool :=
  return (← get).current.kind == kind

def advance : Rule Token :=
  modifyGet fun c => (c.current, c.advance)

def unexpected {α : Type} : Rule α := do
  fail (.unexpected (← current))

/-- Consumes the current token if it is of this kind. -/
def accept (kind : TokenKind) : Rule Bool := do
  if ← check kind then
    discard advance
    return true
  else
    return false

def expect (kind : TokenKind) : Rule Token := do
  if ← check kind then advance else unexpected

/-- Runs rounds until one finishes, at most `limit` of them. -/
def loop {α β : Type} : (limit : Nat) → (α → Rule (Round α β)) → α → Rule β
  | 0, _, _ => throw .exhausted
  | limit + 1, round, state => do
    match ← round state with
    | .again state => loop limit round state
    | .finish result => return result

/-- What ends a statement: semicolons, which are consumed, or a closing brace or the end of input, which
are not. Failing these it is enough that a line break or a semicolon was passed at any time before. -/
def terminator : Rule Unit := do
  if (← isAtEnd) || (← check (.operator .rightBrace)) then modify Cursor.endStatement
  else if ← check (.operator .semicolon) then modify Cursor.skipSemicolons
  else if (← get).hasPassedTerminator then modify Cursor.endStatement
  else unexpected

def identifierOf (t : Token) : Node :=
  .mk t.span (.identifier t.value)

def bindingIdentifier : Rule Node := do
  return identifierOf (← expect .identifier)

end ScriptTree.Rule
