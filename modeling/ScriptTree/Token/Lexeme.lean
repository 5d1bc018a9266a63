import ScriptTree.Text.Character

/-!
How far the text of one token reaches.

Each reader is given the text from the token's start, or from inside it, and answers with the part
that belongs to the token; what is left is the rest of the text. The readers of quoted text are also
given what stands before, nearest character first, because a delimiter after an odd run of
backslashes is escaped.
-/

namespace ScriptTree.Lexeme

open Character

/-- Does an odd run of backslashes end here? `behind` is the text before, nearest character first. -/
def isEscaped (behind : List Char) : Bool :=
  (behind.takeWhile (· == '\\')).length % 2 == 1

/-- From after the opening slashes to before the line break. -/
def lineComment (text : List Char) : List Char :=
  text.takeWhile (!isLineBreak ·)

/-- From after the opening mark through the closing one, or to the end of the text. -/
def blockComment : List Char → List Char
  | [] => []
  | '*' :: '/' :: _ => ['*', '/']
  | c :: text => c :: blockComment text

/-- From after the opening quote through the closing one. A line break, or the end of the text, ends
the string without it. -/
def quoted (quote : Char) (behind : List Char) : List Char → List Char
  | [] => []
  | c :: text =>
    if isLineBreak c then []
    else if c == quote && !isEscaped behind then [c]
    else c :: quoted quote (c :: behind) text

/-- From after the opening slash through the flags. A line that ends before the closing slash holds no
regular expression. -/
def regex? (behind : List Char) : List Char → Option (List Char)
  | [] => none
  | c :: text =>
    if isLineBreak c then none
    else if c == '/' && !isEscaped behind then some (c :: text.takeWhile Char.isAlpha)
    else (regex? (c :: behind) text).map (c :: ·)

/-- Decimal digits with an optional fraction, or `0x` and hexadecimal digits. -/
def number (text : List Char) : List Char :=
  match text with
  | '0' :: 'x' :: digits => '0' :: 'x' :: digits.takeWhile isHexDigit
  | '0' :: 'X' :: digits => '0' :: 'X' :: digits.takeWhile isHexDigit
  | text =>
    match text.dropWhile Char.isDigit with
    | '.' :: fraction => text.takeWhile Char.isDigit ++ '.' :: fraction.takeWhile Char.isDigit
    | _ => text.takeWhile Char.isDigit

end ScriptTree.Lexeme
