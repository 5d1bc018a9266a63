/-!
Values of the JSON data format and their text over several lines.

The text is written from its end: each part is put before the text that follows it.
-/

namespace ScriptTree

/-- A value. The fields of an object are in the order in which they are written. -/
inductive Json where
  | null
  | bool (value : Bool)
  | number (value : Nat)
  | string (value : String)
  | array (items : List Json)
  | object (fields : List (String × Json))

namespace Json

/-- Two hexadecimal digits, in lower case. -/
def hexadecimalByte (n : Nat) : List Char :=
  [Nat.digitChar (n / 16 % 16), Nat.digitChar (n % 16)]

/-- One character inside quotes. Beyond the quote, the backslash and the controls nothing is escaped. -/
def escape (c : Char) : List Char :=
  match c with
  | '"' => ['\\', '"']
  | '\\' => ['\\', '\\']
  | '\x08' => ['\\', 'b']
  | '\x0c' => ['\\', 'f']
  | '\n' => ['\\', 'n']
  | '\r' => ['\\', 'r']
  | '\t' => ['\\', 't']
  | c => if c.toNat < 0x20 then ['\\', 'u', '0', '0'] ++ hexadecimalByte c.toNat else [c]

/-- A string in quotes, before a rest. -/
def quote (s : String) (rest : List Char) : List Char :=
  '"' :: (s.toList.flatMap escape ++ '"' :: rest)

/-- A line break and the indentation of a level, two blanks each, before a rest. -/
def lineBreak (level : Nat) (rest : List Char) : List Char :=
  '\n' :: (List.replicate (2 * level) ' ' ++ rest)

mutual

/-- The text of a value whose first line is already indented, before a rest. Every item stands on a line
of its own; an empty list or object stays on one line. -/
def lines (level : Nat) : Json → (rest : List Char) → List Char
  | null, rest => 'n' :: 'u' :: 'l' :: 'l' :: rest
  | bool true, rest => 't' :: 'r' :: 'u' :: 'e' :: rest
  | bool false, rest => 'f' :: 'a' :: 'l' :: 's' :: 'e' :: rest
  | number n, rest => (toString n).toList ++ rest
  | string s, rest => quote s rest
  | array [], rest => '[' :: ']' :: rest
  | array (x :: xs), rest =>
    '[' :: lineBreak (level + 1)
      (x.lines (level + 1) (itemLines (level + 1) xs (lineBreak level (']' :: rest))))
  | object [], rest => '\x7b' :: '\x7d' :: rest
  | object ((key, x) :: xs), rest =>
    '\x7b' :: lineBreak (level + 1)
      (quote key
        (':' :: ' ' ::
          x.lines (level + 1) (fieldLines (level + 1) xs (lineBreak level ('\x7d' :: rest)))))

def itemLines (level : Nat) : List Json → (rest : List Char) → List Char
  | [], rest => rest
  | x :: xs, rest => ',' :: lineBreak level (x.lines level (itemLines level xs rest))

def fieldLines (level : Nat) : List (String × Json) → (rest : List Char) → List Char
  | [], rest => rest
  | (key, x) :: xs, rest =>
    ',' :: lineBreak level
      (quote key (':' :: ' ' :: x.lines level (fieldLines level xs rest)))

end

def render (x : Json) : String :=
  String.ofList (x.lines 0 [])

end ScriptTree.Json
