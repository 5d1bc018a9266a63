import ScriptTree.Proofs.Parse.Implied
import ScriptTree.Token.Scanner

/-!
What a rule can see of the tokens that are ahead of it.

Blanks and comments are not seen at all, and of a line break only that it stands before a token. Two
streams with the same signs are therefore read alike, apart from spans.
-/

namespace ScriptTree

-- What is seen of a token that is no trivia.
structure Sign where
  kind       : TokenKind
  text       : String
  marks      : Marks := {}
  startsLine : Bool := false

namespace Sign

-- The signs of operators and words, as the scanner has them.

def op (operator : Operator) (startsLine : Bool) : Sign :=
  ⟨.operator operator, operator.spelling, .ofOperator operator, startsLine⟩

def word (text : String) (startsLine : Bool) : Sign :=
  ⟨(Scanner.word text.toList).kind, text, (Scanner.word text.toList).marks, startsLine⟩

def keyword (k : Keyword) (startsLine : Bool) : Sign :=
  word k.spelling startsLine

@[simp]
theorem op_kind (operator : Operator) (b : Bool) : (op operator b).kind = .operator operator :=
  rfl

@[simp]
theorem op_marks (operator : Operator) (b : Bool) : (op operator b).marks = .ofOperator operator :=
  rfl

@[simp]
theorem op_startsLine (operator : Operator) (b : Bool) : (op operator b).startsLine = b :=
  rfl

@[simp]
theorem word_text (text : String) (b : Bool) : (word text b).text = text :=
  rfl

@[simp]
theorem word_startsLine (text : String) (b : Bool) : (word text b).startsLine = b :=
  rfl

@[simp]
theorem keyword_kind (k : Keyword) (b : Bool) : (keyword k b).kind = .keyword k := by
  cases k <;> rfl

@[simp]
theorem keyword_startsLine (k : Keyword) (b : Bool) : (keyword k b).startsLine = b :=
  rfl

end Sign

namespace Token

-- Is the token, as trivia, a line break?
def breaksLine (t : Token) : Bool :=
  t.kind == .lineBreak || (t.kind == .comment && t.value.toList.contains '\n')

-- `isBroken` says that a line break stands before the tokens.
def signs (isBroken : Bool) : List Token → List Sign
  | [] => []
  | t :: tokens =>
    if t.isTrivia then signs (isBroken || t.breaksLine) tokens
    else ⟨t.kind, t.value, t.marks, isBroken⟩ :: signs false tokens

variable {t : Token} {tokens trivia : List Token} {isBroken : Bool}

theorem signs_of_not_isTrivia (ht : ¬t.isTrivia) :
    signs isBroken (t :: tokens) =
      ⟨t.kind, t.value, t.marks, isBroken⟩ :: signs false tokens := by
  rw [signs, if_neg ht]

theorem signs_append (h : ∀ t ∈ trivia, t.isTrivia) :
    signs isBroken (trivia ++ tokens) = signs (isBroken || trivia.any breaksLine) tokens := by
  induction trivia generalizing isBroken
  case nil => simp
  case cons t trivia ih =>
    obtain ⟨ht, h⟩ := List.forall_mem_cons.mp h
    simp only [List.cons_append, signs, if_pos ht, ih h, List.any_cons, Bool.or_assoc]

theorem length_signs_le : (signs isBroken tokens).length ≤ tokens.length := by
  induction tokens generalizing isBroken
  case nil => exact Nat.le_refl _
  case cons t tokens ih =>
    rw [signs]
    split
    · exact Nat.le_succ_of_le ih
    · exact Nat.succ_le_succ ih

end Token

namespace Cursor

open Token

-- Where the next token that is no trivia is not consumed, trivia alone are passed over.
theorem passOver_eq_skipTrivia {consumes : TokenKind → Bool} {behind ahead : List Token}
    {lastStop : Nat} {ending : Token} {implied : List Nat}
    (hc : ∀ k, consumes k → ¬k.isTrivia)
    (h : ∀ t ∈ ahead.find? (!·.isTrivia), ¬consumes t.kind) :
    passOver consumes behind lastStop ending implied ahead =
      passOver (fun _ => false) behind lastStop ending implied ahead := by
  induction ahead generalizing behind
  case nil => rfl
  case cons t ahead ih =>
    by_cases ht : t.isTrivia
    case pos =>
      have hk : ¬consumes t.kind := fun hk => hc _ hk ht
      simpa [passOver, hk, ht] using ih (by simpa [ht] using h)
    case neg => simp [passOver, ht, show ¬consumes t.kind from h t (by simp [ht])]

-- The cursor rests, and this is what it sees ahead.
structure Shows (c : Cursor) (ss : List Sign) : Prop where
  rests : c.Rests
  seen  : signs c.isAfterLineBreak c.ahead = ss

variable {c : Cursor} {s s' : Sign} {ss : List Sign}

theorem isAfterLineBreak_eq (c : Cursor) : c.isAfterLineBreak = c.trivia.any breaksLine :=
  rfl

namespace Shows

-- The current token is the one whose sign comes first.
theorem ahead (h : c.Shows (s :: ss)) : ∃ tokens, c.ahead = c.current :: tokens ∧
    ¬c.current.isTrivia ∧ signs false tokens = ss ∧
      s = ⟨c.current.kind, c.current.value, c.current.marks, c.isAfterLineBreak⟩ := by
  obtain ⟨hr, hs⟩ := h
  rw [current_eq_head?]
  cases hc : c.ahead
  case nil =>
    rw [hc] at hs
    cases hs
  case cons t tokens =>
    have ht : ¬t.isTrivia := hr.current t (by simp [hc])
    rw [hc, signs_of_not_isTrivia ht] at hs
    obtain ⟨hs, htokens⟩ := List.cons.inj hs
    exact ⟨tokens, rfl, ht, htokens, hs.symm⟩

theorem kind (h : c.Shows (s :: ss)) : c.current.kind = s.kind := by
  obtain ⟨_, _, _, _, rfl⟩ := h.ahead
  rfl

theorem text (h : c.Shows (s :: ss)) : c.current.value = s.text := by
  obtain ⟨_, _, _, _, rfl⟩ := h.ahead
  rfl

theorem marks (h : c.Shows (s :: ss)) : c.current.marks = s.marks := by
  obtain ⟨_, _, _, _, rfl⟩ := h.ahead
  rfl

theorem startsLine (h : c.Shows (s :: ss)) : c.isAfterLineBreak = s.startsLine := by
  obtain ⟨_, _, _, _, rfl⟩ := h.ahead
  rfl

theorem advance (h : c.Shows (s :: ss)) (hk : s.kind ≠ .endOfInput) : c.advance.Shows ss := by
  have hk : c.current.kind ≠ .endOfInput := h.kind ▸ hk
  obtain ⟨tokens, ha, ht, rfl, -⟩ := h.ahead
  refine ⟨h.rests.advance, ?_⟩
  obtain ⟨hahead, -⟩ := skipTrivia_cons ht (c := { c with
    behind := c.current :: c.behind, ahead := tokens, lastStop := c.current.span.stop }) rfl
  rw [advance_of_ne ha hk, isAfterLineBreak_eq]
  generalize skipTrivia _ = d at hahead ⊢
  have htrivia : ∀ t ∈ d.trivia.reverse, t.isTrivia := fun t ht =>
    List.mem_takeWhile_imp (List.mem_reverse.mp ht)
  rw [show tokens = d.trivia.reverse ++ d.ahead from hahead.symm, signs_append htrivia,
    List.any_reverse, Bool.false_or]

-- What the token behind the current one is.
theorem find? {tokens : List Token} {isBroken : Bool} (h : signs isBroken tokens = s :: ss) :
    ∃ t, tokens.find? (!·.isTrivia) = some t ∧ t.kind = s.kind := by
  induction tokens generalizing isBroken
  case nil => cases h
  case cons t tokens ih =>
    rw [signs] at h
    split at h
    case isTrue ht => simpa [ht] using ih h
    case isFalse ht =>
      obtain ⟨rfl, -⟩ := List.cons.inj h
      exact ⟨t, by simp [ht], rfl⟩

theorem following (h : c.Shows (s :: s' :: ss)) : c.following.kind = s'.kind := by
  obtain ⟨tokens, ha, -, hs, -⟩ := h.ahead
  obtain ⟨t, ht, hk⟩ := find? hs
  rw [Cursor.following, ha, List.tail_cons, ht, Option.getD_some, hk]

-- One semicolon is skipped, and the trivia behind it.
theorem skipSemicolons (h : c.Shows (s :: s' :: ss)) (hk : s.kind = .operator .semicolon)
    (hk' : s'.kind ≠ .operator .semicolon) : c.skipSemicolons.Shows (s' :: ss) := by
  have hadvance := h.advance (by simp [hk])
  have hk : c.current.kind = .operator .semicolon := h.kind.trans hk
  obtain ⟨tokens, ha, -, hs, -⟩ := h.ahead
  obtain ⟨t, ht, hkt⟩ := find? hs
  suffices c.skipSemicolons = c.advance from this ▸ hadvance
  rw [advance_of_ne ha (by simp [hk]), Cursor.skipSemicolons, ha, passOver, if_pos (by simp [hk])]
  refine passOver_eq_skipTrivia (fun k hk => (isSemicolon_ne hk).left) ?_
  rw [ht]
  simp [hkt, hk']

end Shows

end Cursor
end ScriptTree
