import ScriptTree.Text.Width
import ScriptTree.Token

/-!
Lines and columns of tokens.

A line ends with a carriage return and a line feed together, or with one of them alone. Lines and
columns count from one, and columns count characters.
-/

namespace ScriptTree

/-- Where one line starts: its offset, and the source from there on. -/
structure LineStart where
  offset : Nat
  text : List Char

namespace LineStart

/-- The lines that start after a line break of the text, which itself starts at `offset`. -/
def following (offset : Nat) : List Char → List LineStart
  | [] => []
  | c :: text =>
    let next := offset + c.utf8Size
    if c == '\n' || (c == '\r' && text.head? != some '\n') then ⟨next, text⟩ :: following next text
    else following next text

/-- How many characters of the text take exactly so many bytes, added to `count`; `none` if there is no
such number. -/
def charactersIn? (count : Nat) : List Char → (width : Nat) → Option Nat
  | _, 0 => some count
  | [], _ + 1 => none
  | c :: text, width =>
    if c.utf8Size ≤ width then charactersIn? (count + 1) text (width - c.utf8Size) else none

/-- The column of an offset on this line. An offset that is not at a character counts in bytes. -/
def column (line : LineStart) (offset : Nat) : Nat :=
  (charactersIn? 0 line.text (offset - line.offset)).getD (offset - line.offset) + 1

end LineStart

/-- The lines of a source, in order. -/
structure LineTable where
  first : LineStart
  others : List LineStart

namespace LineTable

def ofSource (source : String) : LineTable where
  first := ⟨0, source.toList⟩
  others := LineStart.following 0 source.toList

/-- The last line that starts no later than an offset, and its number. It is the one given, or one of
those after it. -/
def lineOf (offset : Nat) : (number : Nat) → LineStart → List LineStart → Nat × LineStart
  | number, line, [] => (number, line)
  | number, line, next :: others =>
    if next.offset ≤ offset then lineOf offset (number + 1) next others else (number, line)

/-- Line and column of an offset. -/
def locate (table : LineTable) (offset : Nat) : Nat × Nat :=
  let (number, line) := lineOf offset 1 table.first table.others
  (number, line.column offset)

def position (table : LineTable) (span : Span) : Position :=
  let (startLine, startColumn) := table.locate span.start
  let (stopLine, stopColumn) := table.locate span.stop
  { startLine, startColumn, stopLine, stopColumn }

end LineTable

mutual

/-- Fills in the position of a token and of the tokens embedded in it, from their spans. -/
def Token.place (table : LineTable) : Token → Token
  | ⟨kind, span, value, marks, _, embeddings⟩ =>
    ⟨kind, span, value, marks, table.position span, placeEmbeddings table embeddings⟩

def placeEmbeddings (table : LineTable) : List (Embedding Token) → List (Embedding Token)
  | [] => []
  | e :: es => placeEmbedding table e :: placeEmbeddings table es

def placeEmbedding (table : LineTable) : Embedding Token → Embedding Token
  | ⟨span, tokens⟩ => ⟨span, placeTokens table tokens⟩

def placeTokens (table : LineTable) : List Token → List Token
  | [] => []
  | t :: ts => t.place table :: placeTokens table ts

end

/-- Places tokens in a source. The spans alone count, so the tokens may have gaps between them. -/
def fillPositions (source : String) (tokens : List Token) : List Token :=
  placeTokens (.ofSource source) tokens

end ScriptTree
