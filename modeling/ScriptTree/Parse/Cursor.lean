import ScriptTree.Token

/-!
A place in a stream of tokens.

The cursor rests on a token that is not trivia, or past the last one. What lies behind it is kept,
because the end of a statement can depend on line breaks already passed.
-/

namespace ScriptTree

structure Cursor where
  /-- The tokens passed, trivia among them, nearest first. -/
  behind : List Token
  ahead : List Token
  /-- Where the last token ends that was consumed. -/
  lastStop : Nat
  /-- Stands for every token past the last one. -/
  ending : Token
  /-- Where statements ended without a semicolon, the last of them first: so many tokens, trivia apart,
  were passed before. -/
  implied : List Nat := []

namespace Cursor

/-- What ends a stream: its last token if that is an end of input, else one placed behind it. -/
def endingOf (tokens : List Token) : Token :=
  match tokens.getLast? with
  | none => .endOfInput 0
  | some t =>
    if t.kind == .endOfInput then t
    else
      let p := t.position
      { Token.endOfInput t.span.stop with
        position := ⟨p.stopLine, p.stopColumn, p.stopLine, p.stopColumn⟩ }

/-- Passes over trivia, and over the tokens of a kind that is asked for; only those are consumed. -/
def passOver (consumes : TokenKind → Bool) (behind : List Token) (lastStop : Nat) (ending : Token)
    (implied : List Nat) : List Token → Cursor
  | [] => ⟨behind, [], lastStop, ending, implied⟩
  | t :: ahead =>
    if consumes t.kind then passOver consumes (t :: behind) t.span.stop ending implied ahead
    else if t.isTrivia then passOver consumes (t :: behind) lastStop ending implied ahead
    else ⟨behind, t :: ahead, lastStop, ending, implied⟩

def skipTrivia (c : Cursor) : Cursor :=
  passOver (fun _ => false) c.behind c.lastStop c.ending c.implied c.ahead

def skipSemicolons (c : Cursor) : Cursor :=
  passOver (· == .operator .semicolon) c.behind c.lastStop c.ending c.implied c.ahead

def ofTokens (tokens : List Token) : Cursor :=
  skipTrivia { behind := [], ahead := tokens, lastStop := 0, ending := endingOf tokens }

def current (c : Cursor) : Token :=
  c.ahead.headD c.ending

/-- The token after the current one. -/
def following (c : Cursor) : Token :=
  (c.ahead.tail.find? (!·.isTrivia)).getD c.ending

def isAtEnd (c : Cursor) : Bool :=
  c.current.kind == .endOfInput

/-- Consumes the current token. The end of input is never passed. -/
def advance (c : Cursor) : Cursor :=
  match c.ahead with
  | [] => c
  | t :: ahead =>
    if t.kind == .endOfInput then c
    else skipTrivia { c with behind := t :: c.behind, ahead, lastStop := t.span.stop }

/-- Does a line break stand between the current token and the one before it? In a comment only a line
feed counts as one. -/
def isAfterLineBreak (c : Cursor) : Bool :=
  (c.behind.takeWhile Token.isTrivia).any fun t =>
    t.kind == .lineBreak || (t.kind == .comment && t.value.toList.contains '\n')

/-- Was a line break, or a semicolon, passed anywhere before? -/
def hasPassedTerminator (c : Cursor) : Bool :=
  c.behind.any fun t => t.kind == .lineBreak || t.kind == .operator .semicolon

/-- How many tokens were passed, trivia apart. -/
def passed (c : Cursor) : Nat :=
  c.behind.countP (!·.isTrivia)

/-- Notes that a statement ends here without a semicolon. -/
def endStatement (c : Cursor) : Cursor :=
  { c with implied := c.passed :: c.implied }

end ScriptTree.Cursor
