import ScriptTree.Print.Options
import ScriptTree.Text.Letter
import ScriptTree.Text.Numeral

/-!
Output that is written piece by piece.

A blank is put between two pieces that would be read as one token. A line break that is asked for is
written only when more follows, so the output never ends with one.
-/

namespace ScriptTree

namespace Character

/-- What a printed word may hold. -/
def isPrintedWord (c : Char) : Bool :=
  isLetter c || isNumeral c || c == '_' || c == '$'

end Character

open Character

structure Writer where
  options : PrintOptions
  /-- What is written, last character first. -/
  written : List Char := []
  level : Nat := 0
  /-- Was a line break asked for since the last piece? -/
  breaks : Bool := false

namespace Writer

def last? (w : Writer) : Option Char :=
  w.written.head?

/-- The last character that is not a space. -/
def lastMark? (w : Writer) : Option Char :=
  (w.written.dropWhile (· == ' ')).head?

/-- Would the two characters, one after the other, be read as part of one token? -/
def merges (last next : Char) : Bool :=
  (isPrintedWord last && isPrintedWord next)
    || (last == '+' && next == '+')
    || (last == '-' && next == '-')
    || (last == '/' && (next == '/' || next == '*'))

/-- Writes the line break that was asked for, if any, and the indentation behind it. -/
def flush (w : Writer) : Writer :=
  if !w.breaks then w
  else if w.written.isEmpty then { w with breaks := false }
  else
    { w with
      written := List.replicate (w.level * w.options.indentWidth) ' ' ++ '\n' :: w.written
      breaks := false }

/-- Writes a piece. An empty piece is no piece. -/
def write (piece : String) (w : Writer) : Writer :=
  match piece.toList with
  | [] => w
  | first :: rest =>
    let w := w.flush
    let separator := if w.last?.any (merges · first) then [' '] else []
    { w with written := (first :: rest).reverse ++ separator ++ w.written }

/-- A blank, unless there is one, or a line break will come. -/
def space (w : Writer) : Writer :=
  if w.breaks || w.written.isEmpty || w.last? == some ' ' then w
  else { w with written := ' ' :: w.written }

/-- A blank that only spaced output has. -/
def optionalSpace (w : Writer) : Writer :=
  if w.options.isSpaced then w.space else w

/-- Asks for a line break, which only spaced output has. -/
def newline (w : Writer) : Writer :=
  if w.options.isSpaced then { w with breaks := true } else w

def endStatement (w : Writer) : Writer :=
  (w.write ";").newline

def indent (w : Writer) : Writer :=
  { w with level := w.level + 1 }

def dedent (w : Writer) : Writer :=
  { w with level := w.level - 1 }

def openBlock (w : Writer) : Writer :=
  (w.write "\x7b").indent

/-- Closes a block, on a line of its own if the block holds anything. -/
def closeBlock (hasContent : Bool) (w : Writer) : Writer :=
  (if hasContent then w.dedent.newline else w.dedent).write "\x7d"

/-- An operator between two operands. Blanks around a word are not optional. -/
def infixOperator (spelling : String) (w : Writer) : Writer :=
  if spelling.toList.head?.any isPrintedWord then (w.space.write spelling).space
  else (w.optionalSpace.write spelling).optionalSpace

def text (w : Writer) : String :=
  String.ofList w.written.reverse

end ScriptTree.Writer
