import Mathlib.Data.List.TakeWhile
import ScriptTree.Proofs.Token.Extent

/-!
What the scanner does with a range does not depend on where the range stands.

Scanning looks back, to tell whether a delimiter is escaped. But it looks back only as far as there are
backslashes, and in front of each delimiter stands, in the same token, the mark that opened the token.
So a scanner that is moved behind another text takes the same steps, further on.
-/

namespace ScriptTree

open Character

-- A backslash escapes what comes next, unless it is escaped itself.
theorem Lexeme.isEscaped_cons (c : Char) (behind : List Char) :
    isEscaped (c :: behind) = (c == '\\' && !isEscaped behind) := by
  rw [isEscaped, isEscaped, List.takeWhile_cons]
  cases c == '\\'
  case false => rfl
  case true =>
    have hparity (n : Nat) : ((n + 1) % 2 == 1) = !(n % 2 == 1) := by
      rcases Nat.mod_two_eq_zero_or_one n with h | h <;> simp [Nat.add_mod, h]
    exact hparity _

-- Only what stands behind the last character that is no backslash counts.
theorem Lexeme.isEscaped_append {behind : List Char} (h : ∃ c ∈ behind, c ≠ '\\') (more : List Char) :
    isEscaped (behind ++ more) = isEscaped behind := by
  have hlength : ¬(behind.takeWhile (· == '\\')).length = behind.length := fun hl => by
    have ⟨c, hc, hne⟩ := h
    have hall := (List.takeWhile_prefix (· == '\\')).eq_of_length hl
    rw [← hall] at hc
    exact hne (by simpa using List.mem_takeWhile_imp hc)
  rw [isEscaped, isEscaped, List.takeWhile_append, if_neg hlength]

theorem Lexeme.quoted_moved (quote : Char) {behind : List Char} (h : ∃ c ∈ behind, c ≠ '\\')
    (more text : List Char) : quoted quote (behind ++ more) text = quoted quote behind text := by
  induction text generalizing behind
  case nil => rfl
  case cons c text ih =>
    have ⟨d, hd, hne⟩ := h
    have ih : quoted quote (c :: (behind ++ more)) text = quoted quote (c :: behind) text :=
      ih ⟨d, .tail c hd, hne⟩
    rw [quoted, quoted, isEscaped_append h, ih]

theorem Lexeme.regex?_moved {behind : List Char} (h : ∃ c ∈ behind, c ≠ '\\') (more text : List Char) :
    regex? (behind ++ more) text = regex? behind text := by
  induction text generalizing behind
  case nil => rfl
  case cons c text ih =>
    have ⟨d, hd, hne⟩ := h
    have ih : regex? (c :: (behind ++ more)) text = regex? (c :: behind) text :=
      ih ⟨d, .tail c hd, hne⟩
    rw [regex?, regex?, isEscaped_append h, ih]

def Span.moved (s : Span) (width : Nat) : Span :=
  ⟨width + s.start, width + s.stop⟩

-- The same further on in a source, with the tokens embedded in it changed.
def Embedding.moved (width : Nat) (change : List Token → List Token) (e : Embedding Token) :
    Embedding Token :=
  ⟨e.span.moved width, change e.tokens⟩

def Token.moved (width : Nat) (change : List Token → List Token) (t : Token) : Token :=
  { t with span := t.span.moved width, embeddings := t.embeddings.map (·.moved width change) }

namespace Scanner

-- The scanner of the same range behind another text. Trivia may be kept there or not.
def moved (before : List Char) (keepTrivia : Bool) (s : Scanner) : Scanner :=
  { s with
    behind := s.behind ++ before.reverse
    offset := byteWidth before + s.offset
    keepTrivia }

variable {nested nested' : Scanner → List Token} {before : List Char} {kept keepTrivia : Bool}
  {change : List Token → List Token} {bound : Nat}

-- Behind the text, embedded expressions that are shorter than a bound are found to have the tokens that
-- come of the change.
def MovesBelow (nested nested' : Scanner → List Token) (before : List Char) (kept keepTrivia : Bool)
    (change : List Token → List Token) (bound : Nat) : Prop :=
  ∀ s : Scanner, s.keepTrivia = kept → s.ahead.length < bound →
    nested' (s.moved before keepTrivia) = change (nested s)

theorem embedding_moved {rest : List Char}
    (hn : MovesBelow nested nested' before kept keepTrivia change bound) (hb : rest.length < bound)
    (behind : List Char) (offset : Nat) :
    embedding nested' keepTrivia (behind ++ before.reverse) (byteWidth before + offset) rest =
      (embedding nested kept behind offset rest).moved (byteWidth before) change := by
  have hl : (rest.tail.takeWhile (· != '\x7d')).length < bound := by
    have := (List.takeWhile_prefix (· != '\x7d') (l := rest.tail)).length_le
    simp only [List.length_tail] at this
    omega
  have h := hn ⟨'\x7b' :: '$' :: behind, _, offset + 2, kept, none, [], true⟩ rfl hl
  rw [embedding, embedding, Embedding.moved, ← h]
  simp [Span.moved, moved, Nat.add_assoc]

theorem template_moved (inside : Bool) {behind text : List Char}
    (hn : MovesBelow nested nested' before kept keepTrivia change bound) (hb : text.length ≤ bound)
    (h : ∃ c ∈ behind, c ≠ '\\') (offset : Nat) :
    template nested' keepTrivia inside (behind ++ before.reverse) (byteWidth before + offset) text =
      ((template nested kept inside behind offset text).1,
        (template nested kept inside behind offset text).2.map (·.moved (byteWidth before) change)) := by
  induction text generalizing inside behind offset
  case nil => cases inside <;> simp [template]
  case cons c rest ih =>
    simp only [List.length_cons] at hb
    have ⟨d, hd, hne⟩ := h
    have ih inside := ih inside (Nat.le_of_succ_le hb) ⟨d, .tail c hd, hne⟩ (offset + c.utf8Size)
    rw [List.cons_append, ← Nat.add_assoc] at ih
    cases inside
    case true => rw [template, template, ih]
    case false =>
      rw [template, template, ih, ih, Lexeme.isEscaped_append h, embedding_moved hn hb]
      split
      case isTrue => simp
      case isFalse => split <;> simp

namespace Piece

-- The same piece further on, with the tokens embedded in it changed.
abbrev moved (width : Nat) (change : List Token → List Token) (p : Piece) : Piece :=
  { p with embeddings := p.embeddings.map (·.moved width change) }

theorem moved_of_eq_nil {p : Piece} (h : p.embeddings = []) (width : Nat)
    (change : List Token → List Token) : p.moved width change = p := by
  rw [moved, h, List.map_nil, ← h]

end Piece

theorem piece_moved {s : Scanner} {rest : List Char}
    (hn : MovesBelow nested nested' before s.keepTrivia keepTrivia change bound)
    (hb : rest.length ≤ bound) (c : Char) :
    piece nested' (s.moved before keepTrivia) c rest =
      (piece nested s c rest).moved (byteWidth before) change := by
  unfold piece
  dsimp only [moved]
  by_cases hc : c = '\\'
  case pos =>
    -- A backslash opens nothing that could be escaped.
    subst hc
    simpa [isLineBreak, isBlank] using (Piece.moved_of_eq_nil (operatorOrWord_embeddings ..) ..).symm
  case neg =>
    have h : ∃ d ∈ c :: s.behind, d ≠ '\\' := ⟨c, .head _, hc⟩
    rw [← List.cons_append, Nat.add_assoc, template_moved false hn hb h, Lexeme.quoted_moved c h,
      Lexeme.regex?_moved h]
    -- Only a template has embedded expressions. Both sides look for a regular expression in the same text.
    (repeat' split) <;>
      first
      | exact (Piece.moved_of_eq_nil rfl ..).symm
      | exact (Piece.moved_of_eq_nil (operatorOrWord_embeddings ..) ..).symm
      | rfl
      | simp_all

theorem note_moved (s : Scanner) (before : List Char) (keepTrivia : Bool) (kind : TokenKind)
    (marks : Marks) :
    (s.moved before keepTrivia).note kind marks = (s.note kind marks).moved before keepTrivia := by
  unfold note
  split <;> rfl

theorem advance_moved (s : Scanner) (before : List Char) (keepTrivia : Bool) (text : List Char) :
    (s.moved before keepTrivia).advance text = (s.advance text).moved before keepTrivia := by
  simp [advance, moved, Nat.add_assoc]

-- One step: the same token further on, and the scanner behind it is the moved one.
theorem scan_moved {s : Scanner}
    (hn : MovesBelow nested nested' before s.keepTrivia keepTrivia change s.ahead.length) :
    (s.moved before keepTrivia).scan nested' =
      ((s.scan nested).1.moved (byteWidth before) change, (s.scan nested).2.moved before keepTrivia) := by
  unfold scan
  split
  case h_1 ha =>
    have ha : s.ahead = [] := ha
    simp [ha, moved, Token.moved, Token.endOfInput, Span.moved]
  case h_2 c rest ha =>
    have ha : s.ahead = c :: rest := ha
    rw [piece_moved hn (by simp [ha])]
    simp only [ha, Token.moved, advance_moved, note_moved]
    simp [moved, Span.moved, Nat.add_assoc]

end Scanner
end ScriptTree
