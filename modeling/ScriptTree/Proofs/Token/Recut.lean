import ScriptTree.Proofs.Token.Heads
import ScriptTree.Proofs.Token.Unclosed

/-!
Pieces of a text that changes further on.

What comes new behind a piece starts with a space, but it may come later than right behind the piece. So the
piece stays as it was if what ends it is seen before or if it is ended by a space, too. Blanks and comments
up to the end of the line go on over a space, and a slash may be closed behind it.
-/

namespace ScriptTree

open Character

-- From some place on, one that starts with a space stands instead of the other.
def Interposed (rest rest' : List Char) : Prop :=
  ∃ mid after after', rest = mid ++ after ∧ rest' = mid ++ ' ' :: after'

namespace Interposed

variable {rest rest' : List Char}

theorem head? (h : Interposed rest rest') : rest'.head? = some ' ' ∨ rest'.head? = rest.head? := by
  obtain ⟨mid, after, after', rfl, rfl⟩ := h
  cases mid
  case nil => exact .inl rfl
  case cons => exact .inr rfl

theorem stops {p : Char → Bool} (h : Interposed rest rest') (hp : p ' ' = false)
    (hr : ∀ c ∈ rest.head?, p c = false) : ∀ c ∈ rest'.head?, p c = false := by
  rcases h.head? with h | h
  · simp [h, hp]
  · rwa [h]

theorem append (h : Interposed rest rest') (text : List Char) :
    Interposed (text ++ rest) (text ++ rest') := by
  obtain ⟨mid, after, after', rfl, rfl⟩ := h
  exact ⟨text ++ mid, after, after', by simp, by simp⟩

end Interposed

namespace Operator

end Operator

namespace Lexeme

variable {text rest rest' : List Char}

end Lexeme

namespace Scanner

variable {nested : Scanner → List Token} {s : Scanner} {c : Char} {text rest rest' : List Char}

-- The piece as it is seen, apart from what is embedded in it.
def Piece.sign (p : Piece) (startsLine : Bool) : Sign :=
  ⟨p.kind, String.ofList p.text, p.marks, startsLine⟩

end Scanner
end ScriptTree
