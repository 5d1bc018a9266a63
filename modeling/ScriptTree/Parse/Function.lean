import ScriptTree.Parse.Rule

/-!
Blocks and functions, which both statements and expressions are built with.
-/

namespace ScriptTree.Grammar

open Rule

/-- Statements between braces. -/
def block (g : Grammar) (scope : JumpScope) : Rule Node := do
  let start ← start
  discard <| expect (.operator .leftBrace)
  let body ← loop g.limit (fun body => do
    if ← check (.operator .rightBrace) then
      discard advance
      return .finish body
    else if ← isAtEnd then unexpected
    else return .again (body ++ [← g.statement scope])) []
  return .mk (← spanFrom start) (.blockStatement body)

/-- Names between parentheses, with commas between them and perhaps one behind. -/
def params (g : Grammar) : Rule (List Node) := do
  discard <| expect (.operator .leftParen)
  loop g.limit (fun params => do
    if ← accept (.operator .rightParen) then return .finish params
    else
      let params := params ++ [← bindingIdentifier]
      if ← accept (.operator .rightParen) then return .finish params
      else
        discard <| expect (.operator .comma)
        return .again params) []

/-- The parts of a function. -/
structure FunctionParts where
  span : Span
  id : Option Node
  params : List Node
  body : Node
  traits : FunctionTraits

namespace FunctionParts

def toExpression (f : FunctionParts) : Node :=
  .mk f.span (.functionExpression f.id f.params f.body f.traits)

def toDeclaration (f : FunctionParts) : Node :=
  .mk f.span (.functionDeclaration f.id f.params f.body f.traits)

end FunctionParts

/-- A function; `isAsync` says that the current token is the word before `function`. -/
def function (g : Grammar) (isAsync needsName : Bool) : Rule FunctionParts := do
  let start ← start
  if isAsync then discard advance
  discard <| expect (.keyword .functionWord)
  let isGenerator ← accept (.operator .star)
  let id ←
    if ← check .identifier then some <$> bindingIdentifier
    else if needsName then unexpected
    else pure none
  let params ← g.params
  let body ← g.block .functionBody
  return ⟨← spanFrom start, id, params, body, { isAsync, isGenerator }⟩

/-- Does an asynchronous function start here? -/
def startsAsyncFunction (c : Cursor) : Bool :=
  c.current.kind == .identifier && c.current.value == "async"
    && c.following.kind == .keyword .functionWord

end ScriptTree.Grammar
