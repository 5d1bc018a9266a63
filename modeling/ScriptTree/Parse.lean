import ScriptTree.Parse.Statement

/-!
From tokens to a syntax tree, or to the first error.
-/

namespace ScriptTree

mutual

/-- A statement in which rules call each other at most so deep. -/
def statementWithin : (depth : Nat) → JumpScope → Rule Node
  | 0, _ => throw .exhausted
  | depth + 1, scope =>
    Grammar.statementRule
      ⟨depth, statementWithin depth, expressionWithin depth, primaryWithin depth⟩ scope

def expressionWithin : (depth : Nat) → (sequence joinsIn : Bool) → Rule Node
  | 0, _, _ => throw .exhausted
  | depth + 1, sequence, joinsIn =>
    Grammar.expressionRule
      ⟨depth, statementWithin depth, expressionWithin depth, primaryWithin depth⟩ sequence joinsIn

def primaryWithin : (depth : Nat) → Rule Node
  | 0 => throw .exhausted
  | depth + 1 =>
    Grammar.primaryRule
      ⟨depth, statementWithin depth, expressionWithin depth, primaryWithin depth⟩

end

namespace Grammar

/-- The grammar whose rules call each other at most so deep. -/
def ofDepth (depth : Nat) : Grammar :=
  ⟨depth, statementWithin depth, expressionWithin depth, primaryWithin depth⟩

/-- Statements up to the end of input. -/
def statements (g : Grammar) (scope : JumpScope) : Rule (List Node) :=
  Rule.loop g.limit (fun body => do
    if ← Rule.isAtEnd then return .finish body
    else return .again (body ++ [← g.statement scope])) []

end Grammar

structure ParseOptions where
  /-- Is `return` legal outside of functions? -/
  allowsReturn : Bool := false
  sourceType : SourceType := .module

/-- A depth that the rules do not reach on so many tokens: between two tokens that are consumed, a
statement calls an expression and that an operand, and no more. -/
def sufficientDepth (tokens : List Token) : Nat :=
  3 * tokens.length + 3

/-- The statements of a whole stream of tokens. -/
def parseStatements (options : ParseOptions) (tokens : List Token) :
    Except Stop (List Node × Cursor) :=
  (Grammar.ofDepth (sufficientDepth tokens)).statements { allowsReturn := options.allowsReturn }
    (.ofTokens tokens)

/-- The program that a stream of tokens is, which spans all of them. -/
def parse (options : ParseOptions) (tokens : List Token) : Except ParseError Node :=
  match parseStatements options tokens with
  | .ok (body, _) =>
    .ok (.mk ⟨0, (tokens.getLast?.map (·.span.stop)).getD 0⟩ (.program body options.sourceType))
  | .error (.failed error) => .error error
  | .error .exhausted => .error (.unexpected (Cursor.endingOf tokens))

def parseSource (source : String) : Except ParseError Node :=
  parse {} (Token.ofSource source true)

end ScriptTree
