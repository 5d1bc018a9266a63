import ScriptTree.Proofs.Token.Moved
import ScriptTree.Proofs.Token.Tiling

/-!
The tokens of a range, one after the other.

The scanner has a bound, which serves the tokens of the range and the expressions embedded in them. The
length of the range is enough for both, so that the tokens of a range are the next one and those of
what is left.
-/

namespace ScriptTree

theorem Token.moved_zero_id (t : Token) : t.moved 0 id = t := by
  have h (e : Embedding Token) : e.moved 0 id = e := by simp [Embedding.moved, Span.moved]
  cases t
  simp [moved, Span.moved, h]

namespace Scanner

variable {nested nested' : Scanner → List Token}

theorem scan_kind_ne {s : Scanner} (ha : s.ahead ≠ []) : (s.scan nested).1.kind ≠ .endOfInput := by
  obtain ⟨c, rest, ha⟩ := List.exists_cons_of_ne_nil ha
  simpa [scan, ha] using (piece_fits nested s c rest).kind

theorem ahead_ne_nil_of_isTrivia {s : Scanner} (ht : (s.scan nested).1.isTrivia) : s.ahead ≠ [] := by
  intro ha
  simp [scan, ha, Token.endOfInput, Token.isTrivia, TokenKind.isTrivia] at ht

theorem moved_nil (s : Scanner) : s.moved [] s.keepTrivia = s := by
  simp [moved]

-- Only the scanner of embedded expressions that are shorter than the range counts.
theorem scan_congr {s : Scanner}
    (h : ∀ s' : Scanner, s'.ahead.length < s.ahead.length → nested s' = nested' s') :
    s.scan nested = s.scan nested' := by
  have hn : MovesBelow nested' nested [] s.keepTrivia s.keepTrivia id s.ahead.length :=
    fun s' hk hl => by rw [← hk, moved_nil, h s' hl, id]
  have hscan := scan_moved hn
  rwa [moved_nil, byteWidth_nil, Token.moved_zero_id, ← scan_keepTrivia nested' s, moved_nil] at hscan

-- More tokens to look at than the range holds characters change nothing.
theorem nextWithin_eq {s : Scanner} {limit limit' : Nat} (h : s.ahead.length < limit)
    (h' : s.ahead.length < limit') : s.nextWithin nested limit = s.nextWithin nested limit' := by
  induction limit generalizing s limit'
  case zero => exact absurd h (Nat.not_lt_zero _)
  case succ limit ih =>
    obtain ⟨limit', rfl⟩ := Nat.exists_eq_succ_of_ne_zero (Nat.ne_zero_of_lt h')
    simp only [nextWithin]
    split
    case isFalse => rfl
    case isTrue ht =>
      have := scan_length_lt nested (ahead_ne_nil_of_isTrivia (Bool.and_eq_true_iff.mp ht).left)
      exact ih (by omega) (by omega)

theorem tokensWithin_of_ahead_eq_nil {s : Scanner} (ha : s.ahead = []) (limit : Nat) :
    tokensWithin limit s = [] := by
  cases limit
  case zero => rfl
  case succ => simp [tokensWithin, nextWithin, scan, ha, Token.endOfInput, Token.isTrivia,
    TokenKind.isTrivia]

-- A token that is not wanted is passed over. The bound does not count it.
theorem tokensWithin_of_isTrivia {s : Scanner} {limit : Nat} (hl : s.ahead.length ≤ limit + 1)
    (ht : ((s.scan (tokensWithin limit)).1.isTrivia && !s.keepTrivia) = true) :
    tokensWithin (limit + 1) s = tokensWithin (limit + 1) (s.scan (tokensWithin limit)).2 := by
  have hlt := scan_length_lt (tokensWithin limit)
    (ahead_ne_nil_of_isTrivia (Bool.and_eq_true_iff.mp ht).left)
  have h : s.nextWithin (tokensWithin limit) (limit + 2) =
      (s.scan (tokensWithin limit)).2.nextWithin (tokensWithin limit) (limit + 2) := by
    rw [nextWithin]
    simp only [ht, if_true]
    exact nextWithin_eq (by omega) (by omega)
  rw [tokensWithin, tokensWithin, h]

-- A token that is wanted comes first.
theorem tokensWithin_of_wanted {s : Scanner} {limit : Nat} (ha : s.ahead ≠ [])
    (hw : ((s.scan (tokensWithin limit)).1.isTrivia && !s.keepTrivia) = false) :
    tokensWithin (limit + 1) s = (s.scan (tokensWithin limit)).1 ::
      tokensWithin limit (s.scan (tokensWithin limit)).2 := by
  rw [tokensWithin, nextWithin]
  simp only [hw, Bool.false_eq_true, if_false, if_neg (scan_kind_ne ha)]

-- The bound does not matter if it is as large as the range. The induction is on the length of the
-- range, because the bound does not count down at a token that is dropped.
theorem tokensWithin_eq {s : Scanner} {limit limit' : Nat} (h : s.ahead.length ≤ limit)
    (h' : s.ahead.length ≤ limit') : tokensWithin limit s = tokensWithin limit' s := by
  induction hn : s.ahead.length using Nat.strongRecOn generalizing s limit limit'
  case ind n ih =>
    subst hn
    by_cases ha : s.ahead = []
    case pos => rw [tokensWithin_of_ahead_eq_nil ha, tokensWithin_of_ahead_eq_nil ha]
    case neg =>
      have hpos := List.length_pos_iff.mpr ha
      obtain ⟨limit, rfl⟩ : ∃ m, limit = m + 1 := ⟨limit - 1, by omega⟩
      obtain ⟨limit', rfl⟩ : ∃ m, limit' = m + 1 := ⟨limit' - 1, by omega⟩
      have hscan : s.scan (tokensWithin limit) = s.scan (tokensWithin limit') :=
        scan_congr fun s' hl => ih _ hl (by omega) (by omega) rfl
      have hlt := scan_length_lt (tokensWithin limit) ha
      cases hw : (s.scan (tokensWithin limit)).1.isTrivia && !s.keepTrivia
      case true =>
        rw [tokensWithin_of_isTrivia h hw, tokensWithin_of_isTrivia h' (hscan ▸ hw), ← hscan]
        exact ih _ hlt (by omega) (by omega) rfl
      case false =>
        rw [tokensWithin_of_wanted ha hw, tokensWithin_of_wanted ha (hscan ▸ hw), ← hscan]
        exact congrArg _ (ih _ hlt (by omega) (by omega) rfl)

theorem tokensWithin_eq_tokens {s : Scanner} {limit : Nat} (h : s.ahead.length ≤ limit) :
    tokensWithin limit s = s.tokens :=
  tokensWithin_eq h (Nat.le_refl _)

theorem tokens_of_ahead_eq_nil {s : Scanner} (ha : s.ahead = []) : s.tokens = [] :=
  tokensWithin_of_ahead_eq_nil ha _

-- The tokens of a range are the next one, if it is wanted, and those of what is left.
theorem tokens_eq {s : Scanner} (ha : s.ahead ≠ []) :
    s.tokens =
      if (s.scan tokens).1.isTrivia && !s.keepTrivia then (s.scan tokens).2.tokens
      else (s.scan tokens).1 :: (s.scan tokens).2.tokens := by
  obtain ⟨limit, hl⟩ : ∃ m, s.ahead.length = m + 1 :=
    Nat.exists_eq_succ_of_ne_zero (Nat.ne_zero_of_lt (List.length_pos_iff.mpr ha))
  have hscan : s.scan (tokensWithin limit) = s.scan tokens :=
    scan_congr fun s' h => tokensWithin_eq_tokens (by omega)
  have hlt := scan_length_lt tokens ha
  rw [tokens, hl]
  split
  case isTrue hw =>
    rw [tokensWithin_of_isTrivia (by omega) (hscan ▸ hw), hscan, tokensWithin_eq_tokens (by omega)]
  case isFalse hw =>
    rw [tokensWithin_of_wanted ha (hscan ▸ Bool.eq_false_iff.mpr hw), hscan,
      tokensWithin_eq_tokens (by omega)]

end Scanner
end ScriptTree
