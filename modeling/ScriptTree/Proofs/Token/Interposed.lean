import ScriptTree.Parse
import ScriptTree.Proofs.Print.Spells
import ScriptTree.Proofs.Token.Range
import ScriptTree.Proofs.Token.Recut

/-!
A comment between two tokens of a source.

Comments are nothing that the scanner remembers. But where a regular expression may start, the scanner looks
for its end in the rest of the line, whatever stands there. If it finds none, the slash divides, and then the
slashes of a comment further on in the line are an end that was not there before.
-/

namespace ScriptTree

open Character

-- What is seen, if behind a token the rest is seen like this. Trivia are not seen, apart from line breaks.
def Sign.before (t : Sign) (rest : Bool → List Sign) : List Sign :=
  if t.kind.isTrivia then
    rest (t.startsLine || (t.kind == .lineBreak || (t.kind == .comment && t.text.toList.contains '\n')))
  else t :: rest false

-- Is there an end of a line in the token?
def Token.endsLine (t : Token) : Bool :=
  t.value.toList.any isLineBreak

namespace Scanner

variable {s : Scanner} {c : Char} {text rest behind : List Char} {offset : Nat}

-- What is seen of the tokens to come, and of the end of the input.
def signs (s : Scanner) (isBroken : Bool) : List Sign :=
  Token.signs isBroken (s.tokens ++ [.endOfInput 0])

-- A block comment between spaces.
def padded (text : List Char) : List Char :=
  ' ' :: '/' :: '*' :: text ++ ['*', '/', ' ']

-- Where a regular expression may start, a slash divides only if the line ends before the tokens do.
def IsSettled (s : Scanner) (ts : List Token) : Prop :=
  ∀ front slash back, ts = front ++ slash :: back →
    slash.kind = .operator .slash ∨ slash.kind = .operator .slashAssign →
      (s.noteAll front).regexAllowed → ∃ t ∈ back, t.endsLine

theorem isSettled_nil (s : Scanner) : s.IsSettled [] := fun front _ _ h =>
  absurd h.symm (by simp)

theorem isSettled_cons {t : Token} {ts : List Token} :
    s.IsSettled (t :: ts) ↔
      (t.kind = .operator .slash ∨ t.kind = .operator .slashAssign → s.regexAllowed →
        ∃ u ∈ ts, u.endsLine) ∧ (s.note t.kind t.marks).IsSettled ts := by
  constructor
  case mp =>
    exact fun h => ⟨h [] t ts rfl, fun front slash back hts => h (t :: front) slash back (congrArg (t :: ·) hts)⟩
  case mpr =>
    rintro ⟨hhead, htail⟩ (_ | ⟨u, front⟩) slash back h
    · obtain ⟨rfl, rfl⟩ := List.cons.inj h
      exact hhead
    · obtain ⟨rfl, rfl⟩ := List.cons.inj h
      exact htail front slash back rfl

instance decidableIsSettled : (s : Scanner) → (ts : List Token) → Decidable (s.IsSettled ts)
  | s, [] => isTrue s.isSettled_nil
  | s, t :: ts =>
    have := decidableIsSettled (s.note t.kind t.marks) ts
    decidable_of_iff _ isSettled_cons.symm

end Scanner

namespace Token

-- Behind the update a regular expression may start, and the comment closes it.
theorem signs_commented_update :
    (parseSource "i++/n;").toOption.isSome ∧ (ofSource "i++/n;" true).map (·.kind) =
        [.identifier, .operator .increment, .operator .slash, .identifier, .operator .semicolon, .endOfInput] ∧
      ((ofSource "i++/n /* c */ ;" true).filter (!·.isTrivia)).map (·.kind) =
        [.identifier, .operator .increment, .regex, .operator .star, .identifier, .operator .star,
          .operator .slash, .operator .semicolon, .endOfInput] := by
  refine ⟨?_, ?_, ?_⟩ <;> decide +kernel

end Token
end ScriptTree
