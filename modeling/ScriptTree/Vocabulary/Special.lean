/-!
The literal words `true`, `false` and `null`. They are reserved like keywords, and are tokens of a
kind of their own.
-/

namespace ScriptTree

inductive Special where
  | trueWord
  | falseWord
  | nullWord
deriving DecidableEq

namespace Special

def all : List Special :=
  [.trueWord, .falseWord, .nullWord]

def spelling : Special → String
  | trueWord => "true"
  | falseWord => "false"
  | nullWord => "null"

/-- Reads a spelling; case matters. -/
def ofSpelling? (s : String) : Option Special :=
  all.find? (·.spelling == s)

end ScriptTree.Special
