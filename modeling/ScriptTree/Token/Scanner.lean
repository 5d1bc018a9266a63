import ScriptTree.Text.Width
import ScriptTree.Token
import ScriptTree.Token.Lexeme

/-!
From source text to tokens.

The scanner never fails: text that is not closed becomes a token that runs as far as it can. A slash
opens a regular expression only where no operand has just ended. What decides is the last token that
is neither blank nor comment, and for a closing parenthesis whether the matching one opened the head
of a statement.

Each embedded expression of a template is scanned on its own, as a range of the same source.
-/

namespace ScriptTree

open Character

structure Scanner where
  /-- The source before the cursor, nearest character first. -/
  behind : List Char
  /-- What is left of the range. -/
  ahead : List Char
  /-- The cursor, in bytes from the start of the source. -/
  offset : Nat
  keepTrivia : Bool
  lastKind : Option TokenKind := none
  /-- For each parenthesis still open, innermost first: did it open the head of a statement? -/
  heads : List Bool := []
  regexAllowed : Bool := true

namespace Scanner

def ofSource (source : String) (keepTrivia : Bool) : Scanner where
  behind := []
  ahead := source.toList
  offset := 0
  keepTrivia

/-- Does a parenthesis after a token of this kind open the head of a statement? -/
def opensHead : Option TokenKind → Bool
  | some (.keyword .ifWord) | some (.keyword .whileWord)
  | some (.keyword .forWord) | some (.keyword .withWord) => true
  | _ => false

/-- Remembers a token that may stand before a slash. -/
def note (s : Scanner) (kind : TokenKind) (marks : Marks) : Scanner :=
  match kind with
  | .blank | .comment => s
  | .operator .leftParen =>
    { s with lastKind := kind, heads := opensHead s.lastKind :: s.heads, regexAllowed := true }
  | .operator .rightParen =>
    { s with lastKind := kind, heads := s.heads.tail, regexAllowed := s.heads.headD false }
  | .operator .rightBracket => { s with lastKind := kind, regexAllowed := false }
  | .operator _ | .lineBreak => { s with lastKind := kind, regexAllowed := true }
  | _ => { s with lastKind := kind, regexAllowed := marks.isOperator }

/-- Moves the cursor over a part of the range. -/
def advance (s : Scanner) (text : List Char) : Scanner :=
  { s with
    behind := text.reverse ++ s.behind
    ahead := s.ahead.drop text.length
    offset := s.offset + byteWidth text }

/-- A token before its place in the source is known. -/
structure Piece where
  kind : TokenKind
  text : List Char
  marks : Marks := {}
  embeddings : List (Embedding Token) := []

/-- The embedded expression that opens at a dollar sign, given what stands before it and what comes
after it. It runs to the first closing brace; braces inside it are not counted. -/
def embedding (nested : Scanner → List Token) (keepTrivia : Bool) (behind : List Char)
    (offset : Nat) (rest : List Char) : Embedding Token :=
  let body := rest.tail.takeWhile (· != '\x7d')
  let closing := (rest.tail.drop body.length).take 1
  { span := ⟨offset, offset + byteWidth ('$' :: '\x7b' :: body ++ closing)⟩
    tokens := nested
      { behind := '\x7b' :: '$' :: behind, ahead := body, offset := offset + 2, keepTrivia } }

/-- From after the opening mark of a template through the closing one, or to the end of the range.
`inside` says that the text belongs to an embedded expression, which ends at its brace. -/
def template (nested : Scanner → List Token) (keepTrivia : Bool) :
    (inside : Bool) → (behind : List Char) → (offset : Nat) → List Char →
    List Char × List (Embedding Token)
  | _, _, _, [] => ([], [])
  | true, behind, offset, c :: rest =>
    let (text, found) :=
      template nested keepTrivia (c != '\x7d') (c :: behind) (offset + c.utf8Size) rest
    (c :: text, found)
  | false, behind, offset, c :: rest =>
    if c == '\x60' && !Lexeme.isEscaped behind then ([c], [])
    else if c == '$' && rest.head? == some '\x7b' && !Lexeme.isEscaped behind then
      let (text, found) :=
        template nested keepTrivia true (c :: behind) (offset + c.utf8Size) rest
      (c :: text, embedding nested keepTrivia behind offset rest :: found)
    else
      let (text, found) :=
        template nested keepTrivia false (c :: behind) (offset + c.utf8Size) rest
      (c :: text, found)

/-- A whole word: a keyword, a special word or an identifier. The two word operators carry the marks of
their operators. -/
def word (text : List Char) : Piece :=
  let spelling := String.ofList text
  match Keyword.ofSpelling? spelling, Special.ofSpelling? spelling with
  | some .inWord, _ => { kind := .keyword .inWord, text, marks := .ofOperator .inside }
  | some .instanceofWord, _ =>
    { kind := .keyword .instanceofWord, text, marks := .ofOperator .instanceOf }
  | some k, _ => { kind := .keyword k, text }
  | none, some k => { kind := .special k, text }
  | none, none => { kind := .identifier, text }

/-- A token that starts with none of the marks of trivia and of quoted text. -/
def operatorOrWord (c : Char) (rest : List Char) : Piece :=
  match if isOperator c then Operator.longestAt? (c :: rest) else none with
  | some op =>
    { kind := .operator op, text := op.spelling.toList, marks := .ofOperator op }
  | none =>
    if c.isDigit then { kind := .number, text := Lexeme.number (c :: rest) }
    else word (c :: rest.takeWhile isWord)

/-- The next piece of the range, which starts with `c`. -/
def piece (nested : Scanner → List Token) (s : Scanner) (c : Char) (rest : List Char) : Piece :=
  if c == '/' && rest.head? == some '/' then
    { kind := .comment, text := c :: '/' :: Lexeme.lineComment rest.tail }
  else if c == '/' && rest.head? == some '*' then
    { kind := .comment
      text := c :: '*' :: Lexeme.blockComment rest.tail
      marks := { multiline := true } }
  else if isLineBreak c then
    { kind := .lineBreak, text := c :: rest.takeWhile isLineBreak }
  else if isBlank c then
    { kind := .blank, text := c :: rest.takeWhile isBlank }
  else if c == '\x60' then
    let (text, embeddings) :=
      template nested s.keepTrivia false (c :: s.behind) (s.offset + 1) rest
    { kind := .string, text := c :: text, marks := { template := true }, embeddings }
  else if c == '"' || c == '\'' then
    { kind := .string, text := c :: Lexeme.quoted c (c :: s.behind) rest }
  else
    match if c == '/' && s.regexAllowed then Lexeme.regex? (c :: s.behind) rest else none with
    | some text => { kind := .regex, text := c :: text, marks := { regex := true } }
    | none => operatorOrWord c rest

/-- The next token, trivia or not, and the scanner after it. At the end of the range the scanner
stays where it is. -/
def scan (nested : Scanner → List Token) (s : Scanner) : Token × Scanner :=
  match s.ahead with
  | [] => (.endOfInput s.offset, s)
  | c :: rest =>
    let l := piece nested s c rest
    ({ kind := l.kind
       span := ⟨s.offset, s.offset + byteWidth l.text⟩
       value := String.ofList l.text
       marks := l.marks
       embeddings := l.embeddings },
      (s.advance l.text).note l.kind l.marks)

/-- The next token that is wanted. `limit` bounds the tokens that are scanned for it. -/
def nextWithin (nested : Scanner → List Token) : (limit : Nat) → Scanner → Token × Scanner
  | 0, s => (.endOfInput s.offset, s)
  | limit + 1, s =>
    let (token, s') := s.scan nested
    if token.isTrivia && !s.keepTrivia then nextWithin nested limit s' else (token, s')

/-- The wanted tokens of the range, without the one that ends it. `limit` bounds both their number and
how deep templates nest. -/
def tokensWithin : (limit : Nat) → Scanner → List Token
  | 0, _ => []
  | limit + 1, s =>
    let (token, s') := s.nextWithin (tokensWithin limit) (limit + 2)
    if token.kind = .endOfInput then [] else token :: tokensWithin limit s'

/-- Every token takes at least one character, and a nested range is shorter than the one around it, so
the length of the range is a bound. -/
def tokens (s : Scanner) : List Token :=
  s.tokensWithin s.ahead.length

/-- The next wanted token and the scanner after it. Past the end of the range it is always the token
that ends the range. -/
def next (s : Scanner) : Token × Scanner :=
  s.nextWithin tokens (s.ahead.length + 1)

end Scanner

/-- Tokens drawn from a scanner one by one, through the token that ends the range. -/
structure TokenStream where
  scanner : Scanner
  isFinished : Bool := false

namespace TokenStream

/-- A token regardless of whether the end was passed. -/
def draw (s : TokenStream) : Token × TokenStream :=
  let (token, scanner) := s.scanner.next
  (token, { s with scanner })

/-- The next token, or `none` once the end was handed out. -/
def next? (s : TokenStream) : Option Token × TokenStream :=
  if s.isFinished then (none, s)
  else
    let (token, scanner) := s.scanner.next
    (some token, ⟨scanner, token.kind == .endOfInput⟩)

end TokenStream

namespace Token

/-- All tokens of a source, the end of input last, without lines and columns. -/
def scan (source : String) (keepTrivia : Bool) : List Token :=
  (Scanner.ofSource source keepTrivia).tokens ++ [endOfInput source.utf8ByteSize]

end ScriptTree.Token
