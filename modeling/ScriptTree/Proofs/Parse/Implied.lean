import Mathlib.Data.List.TakeWhile
import ScriptTree.Proofs.Parse.Yields

/-!
Streams of tokens with the semicolons written that were implied, and cursors in both streams that stand
at the same place.
-/

namespace ScriptTree

namespace Token

structure IsSemicolon (t : Token) : Prop where
  kind  : t.kind = .operator .semicolon
  marks : t.marks = .ofOperator .semicolon

-- The tokens with a semicolon written at the places, right behind the token that stands before it.
-- A place is so many tokens away from the start, trivia apart. After the end of input none is counted.
def withSemicolons (semicolon : Token → Token) (places : List Nat) (passed : Nat) :
    List Token → List Token
  | [] => []
  | t :: tokens =>
    if t.isTrivia then t :: withSemicolons semicolon places passed tokens
    else if t.kind = .endOfInput then t :: tokens
    else if passed + 1 ∈ places then
      t :: semicolon t :: withSemicolons semicolon places (passed + 1) tokens
    else t :: withSemicolons semicolon places (passed + 1) tokens

variable {semicolon : Token → Token} {places : List Nat} {passed : Nat} {tokens : List Token}

theorem withSemicolons_head? :
    (withSemicolons semicolon places passed tokens).head? = tokens.head? := by
  cases tokens
  case nil => rfl
  case cons =>
    simp only [withSemicolons]
    (repeat' split) <;> rfl

theorem withSemicolons_trivia {trivia : List Token} (h : ∀ t ∈ trivia, t.isTrivia) :
    withSemicolons semicolon places passed (trivia ++ tokens) =
      trivia ++ withSemicolons semicolon places passed tokens := by
  induction trivia
  case nil => rfl
  case cons t trivia ih =>
    have ⟨ht, h⟩ := List.forall_mem_cons.mp h
    simp [withSemicolons, ht, ih h]

theorem withSemicolons_find? :
    (withSemicolons semicolon places passed tokens).find? (!·.isTrivia) =
      tokens.find? (!·.isTrivia) := by
  induction tokens generalizing passed
  case nil => rfl
  case cons t tokens ih =>
    by_cases ht : t.isTrivia
    case pos => simp [withSemicolons, ht, ih]
    case neg =>
      simp only [withSemicolons]
      (repeat' split) <;> simp [ht]

theorem length_le_withSemicolons :
    tokens.length ≤ (withSemicolons semicolon places passed tokens).length := by
  induction tokens generalizing passed
  case nil => exact Nat.le_refl _
  case cons t tokens ih =>
    have ih (n : Nat) : tokens.length ≤ (withSemicolons semicolon places n tokens).length := ih
    simp only [withSemicolons]
    (repeat' split) <;> grind

-- The last token stays the last one if it ends the input.
theorem withSemicolons_getLast? {t : Token} (h : tokens.getLast? = some t)
    (hk : t.kind = .endOfInput) :
    (withSemicolons semicolon places passed tokens).getLast? = some t := by
  induction tokens generalizing passed
  case nil => cases h
  case cons u tokens ih =>
    cases tokens
    case nil =>
      obtain rfl : u = t := by simpa using h
      simp [withSemicolons, hk]
    case cons v tokens =>
      rw [List.getLast?_cons_cons] at h
      have ih (n : Nat) : (withSemicolons semicolon places n (v :: tokens)).getLast? = some t := ih h
      rw [withSemicolons]
      (repeat' split) <;> simp [List.getLast?_cons, h, ih]

end Token

namespace Cursor

open Token

-- The trivia right before the current token, nearest first.
def trivia (c : Cursor) : List Token :=
  c.behind.takeWhile Token.isTrivia

-- A cursor as it is between any two steps.
structure Rests (c : Cursor) : Prop where
  ending  : c.ending.kind = .endOfInput
  current : ∀ t ∈ c.ahead.head?, ¬t.isTrivia
  implied : ∀ p ∈ c.implied, p ≤ c.passed

-- All semicolons that are written before the cursor were implied.
def Settled (places : List Nat) (c : Cursor) : Prop :=
  ∀ p ∈ places, p < c.passed → p ∈ c.implied

-- If a semicolon is written here, it was implied already.
def IsClear (places : List Nat) (c : Cursor) : Prop :=
  c.passed ∈ places → c.passed ∈ c.implied

/-! ### Passing over tokens -/

section passOver

variable {consumes : TokenKind → Bool} {behind behind' : List Token} {lastStop lastStop' : Nat}
variable {ending ending' : Token} {implied implied' : List Nat} {ahead : List Token}

theorem passOver_implied :
    (passOver consumes behind lastStop ending implied ahead).implied = implied := by
  induction ahead generalizing behind lastStop
  case nil => rfl
  case cons t ahead ih =>
    rw [passOver]
    (repeat' split) <;> first | exact ih | rfl

theorem passOver_passed_ge :
    behind.countP (!·.isTrivia) ≤
      (passOver consumes behind lastStop ending implied ahead).passed := by
  induction ahead generalizing behind lastStop
  case nil => exact Nat.le_refl _
  case cons t ahead ih =>
    rw [passOver]
    (repeat' split)
    · exact Nat.le_trans (List.Sublist.countP_le (List.sublist_cons_self ..)) ih
    · exact Nat.le_trans (List.Sublist.countP_le (List.sublist_cons_self ..)) ih
    · exact Nat.le_refl _

theorem passOver_head? {t : Token}
    (h : (passOver consumes behind lastStop ending implied ahead).ahead.head? = some t) :
    ¬t.isTrivia ∧ ¬consumes t.kind := by
  induction ahead generalizing behind lastStop
  case nil => cases h
  case cons u ahead ih =>
    rw [passOver] at h
    (repeat' split at h)
    · exact ih h
    · exact ih h
    · cases h
      exact ⟨‹_›, ‹_›⟩

theorem passOver_rests (he : ending.kind = .endOfInput)
    (hi : ∀ p ∈ implied, p ≤ behind.countP (!·.isTrivia)) :
    (passOver consumes behind lastStop ending implied ahead).Rests where
  ending := by rwa [passOver_ending]
  current t ht := (passOver_head? ht).left
  implied p hp := by
    rw [passOver_implied] at hp
    exact Nat.le_trans (hi p hp) passOver_passed_ge

-- Trivia are passed over in any case.
theorem passOver_trivia {trivia : List Token} (h : ∀ t ∈ trivia, t.isTrivia ∧ ¬consumes t.kind) :
    passOver consumes behind lastStop ending implied (trivia ++ ahead) =
      passOver consumes (trivia.reverse ++ behind) lastStop ending implied ahead := by
  induction trivia generalizing behind
  case nil => rfl
  case cons t trivia ih =>
    have ⟨ht, h⟩ := List.forall_mem_cons.mp h
    simp [passOver, ht, ih h]

theorem passOver_of_head? (h : ∀ t ∈ ahead.head?, ¬t.isTrivia ∧ ¬consumes t.kind) :
    passOver consumes behind lastStop ending implied ahead =
      ⟨behind, ahead, lastStop, ending, implied⟩ := by
  cases ahead
  case nil => rfl
  case cons t ahead =>
    have ⟨ht, hc⟩ := h t rfl
    simp [passOver, ht, hc]

end passOver

theorem skipTrivia_eq (c : Cursor) :
    c.skipTrivia = { c with
      behind := (c.ahead.takeWhile Token.isTrivia).reverse ++ c.behind
      ahead := c.ahead.dropWhile Token.isTrivia } := by
  rw [skipTrivia]
  generalize c.behind = behind
  induction c.ahead generalizing behind
  case nil => rfl
  case cons t ahead ih =>
    by_cases ht : t.isTrivia <;> simp [passOver, ht, ih]

theorem skipTrivia_passed (c : Cursor) : c.skipTrivia.passed = c.passed := by
  have h : (c.ahead.takeWhile Token.isTrivia).countP (!·.isTrivia) = 0 := by
    rw [List.countP_eq_zero]
    intro t ht
    simp [List.mem_takeWhile_imp ht]
  rw [skipTrivia_eq, passed, List.countP_append, List.countP_reverse, h, Nat.zero_add]
  rfl

theorem takeWhile_trivia_append {t : Token} {trivia tokens : List Token}
    (h : ∀ t ∈ trivia, t.isTrivia) (ht : ¬t.isTrivia) :
    (trivia ++ t :: tokens).takeWhile Token.isTrivia = trivia := by
  rw [List.takeWhile_append_of_pos h, List.takeWhile_cons_of_neg ht, List.append_nil]

-- The cursor behind some trivia, in front of which stands a token that is none.
theorem skipTrivia_cons {c : Cursor} {t : Token} {tokens : List Token} (ht : ¬t.isTrivia)
    (hb : c.behind = t :: tokens) :
    c.skipTrivia.trivia.reverse ++ c.skipTrivia.ahead = c.ahead ∧
      c.skipTrivia.behind = c.skipTrivia.trivia ++ c.behind := by
  have htrivia : c.skipTrivia.trivia = (c.ahead.takeWhile Token.isTrivia).reverse := by
    rw [skipTrivia_eq, trivia, hb, takeWhile_trivia_append (fun t ht => ?_) ht]
    exact List.mem_takeWhile_imp (List.mem_reverse.mp ht)
  rw [htrivia, List.reverse_reverse, skipTrivia_eq]
  exact ⟨List.takeWhile_append_dropWhile, rfl⟩

/-! ### Cursors at the same place -/

variable {semicolon : Token → Token} {places : List Nat} {c d : Cursor}

-- The cursors stand before the same tokens, the second one where semicolons are written.
structure Level (semicolon : Token → Token) (places : List Nat) (c d : Cursor) : Prop where
  ending : d.ending = c.ending
  ahead  : d.ahead = withSemicolons semicolon places c.passed c.ahead
  trivia : d.trivia = c.trivia
  behind : c.behind ⊆ d.behind

-- The second cursor stands before a semicolon, and the trivia behind that are still ahead of it.
structure Waits (semicolon : Token → Token) (places : List Nat) (c d : Cursor) : Prop where
  ending : d.ending = c.ending
  ahead  : ∃ s : Token, s.IsSemicolon ∧
    d.ahead = s :: (c.trivia.reverse ++ withSemicolons semicolon places c.passed c.ahead)
  behind : c.behind ⊆ c.trivia ++ d.behind

-- The cursors stand at the same place. A semicolon that is written there is passed by the second one
-- when the first one has passed over its absence.
structure Tracks (semicolon : Token → Token) (places : List Nat) (c d : Cursor) : Prop where
  level : c.IsClear places → Level semicolon places c d
  waits : ¬c.IsClear places → Waits semicolon places c d

theorem current_eq_head? (c : Cursor) : c.current = c.ahead.head?.getD c.ending := by
  rw [Cursor.current, List.headD_eq_head?_getD]

namespace Level

theorem current (h : Level semicolon places c d) : d.current = c.current := by
  rw [current_eq_head?, current_eq_head?, h.ahead, withSemicolons_head?, h.ending]

theorem isAfterLineBreak (h : Level semicolon places c d) :
    d.isAfterLineBreak = c.isAfterLineBreak :=
  congrArg (List.any · _) h.trivia

theorem hasPassedTerminator (h : Level semicolon places c d) (hc : c.hasPassedTerminator) :
    d.hasPassedTerminator := by
  simp only [Cursor.hasPassedTerminator, List.any_eq_true] at hc ⊢
  exact hc.imp fun _ ⟨ht, hk⟩ => ⟨h.behind ht, hk⟩

-- Both cursors pass over the same tokens if no semicolon is written among them.
theorem passOver {consumes : TokenKind → Bool}
    (hconsumes : ∀ k, consumes k → ¬k.isTrivia ∧ k ≠ .endOfInput)
    {behind behind' : List Token} {lastStop lastStop' : Nat} {ending : Token}
    {implied implied' : List Nat} {ahead : List Token}
    (hplaces : ∀ p ∈ places, behind.countP (!·.isTrivia) < p →
      ¬p ≤ (passOver consumes behind lastStop ending implied ahead).passed)
    (htrivia : behind'.takeWhile Token.isTrivia = behind.takeWhile Token.isTrivia)
    (hbehind : behind ⊆ behind') :
    Level semicolon places (Cursor.passOver consumes behind lastStop ending implied ahead)
      (Cursor.passOver consumes behind' lastStop' ending implied'
        (withSemicolons semicolon places (behind.countP (!·.isTrivia)) ahead)) := by
  induction ahead generalizing behind behind' lastStop lastStop'
  case nil => exact ⟨rfl, rfl, htrivia, hbehind⟩
  case cons t ahead ih =>
    by_cases hc : consumes t.kind
    case pos =>
      have ⟨(ht : ¬t.isTrivia), hk⟩ := hconsumes _ hc
      have hcount : (t :: behind).countP (!·.isTrivia) = behind.countP (!·.isTrivia) + 1 := by
        simp [ht]
      simp only [Cursor.passOver, hc, ↓reduceIte] at hplaces ⊢
      have hp : behind.countP (!·.isTrivia) + 1 ∉ places := fun hp =>
        hplaces _ hp (Nat.lt_succ_self _) (hcount ▸ passOver_passed_ge)
      rw [withSemicolons, if_neg ht, if_neg hk, if_neg hp, Cursor.passOver, if_pos hc, ← hcount]
      refine ih (fun p hp hlt => hplaces p hp ?_) ?_ ?_
      · exact Nat.lt_of_le_of_lt (List.Sublist.countP_le (List.sublist_cons_self ..)) hlt
      · simp [ht]
      · exact List.cons_subset_cons t hbehind
    case neg =>
      by_cases ht : t.isTrivia
      case pos =>
        have hcount : (t :: behind).countP (!·.isTrivia) = behind.countP (!·.isTrivia) := by
          simp [ht]
        simp only [Cursor.passOver, hc, ht, ↓reduceIte] at hplaces ⊢
        rw [withSemicolons, if_pos ht, Cursor.passOver, if_neg hc, if_pos ht, ← hcount]
        refine ih (fun p hp hlt => hplaces p hp (hcount ▸ hlt)) ?_ ?_
        · simp [ht, htrivia]
        · exact List.cons_subset_cons t hbehind
      case neg =>
        have hstop {ts : List Token} (h : ts.head? = some t) u (hu : u ∈ ts.head?) :
            ¬u.isTrivia ∧ ¬consumes u.kind := by
          rw [h] at hu
          cases hu
          exact ⟨ht, hc⟩
        rw [passOver_of_head? (hstop rfl), passOver_of_head? (hstop withSemicolons_head?)]
        exact ⟨rfl, rfl, htrivia, hbehind⟩

theorem skipTrivia (h : Level semicolon places c d) :
    Level semicolon places c.skipTrivia d.skipTrivia := by
  rw [Cursor.skipTrivia, Cursor.skipTrivia, h.ahead, h.ending]
  refine passOver (by simp) (fun p _ hlt hle => ?_) h.trivia h.behind
  exact Nat.not_le_of_lt hlt (Nat.le_trans hle (skipTrivia_passed c).le)

end Level

theorem Waits.current (h : Waits semicolon places c d) : d.current.IsSemicolon := by
  have ⟨s, hs, ha⟩ := h.ahead
  rwa [current_eq_head?, ha]

-- Where the second cursor sees something else than a semicolon, the first one sees it too.
theorem Tracks.level_of_ne (h : Tracks semicolon places c d)
    (hk : d.current.kind ≠ .operator .semicolon) : Level semicolon places c d := by
  by_cases hc : c.IsClear places
  case pos => exact h.level hc
  case neg => exact absurd (h.waits hc).current.kind hk

/-! ### Advancing -/

theorem Rests.ahead_of_ne (h : c.Rests) (hk : c.current.kind ≠ .endOfInput) :
    ∃ ahead, c.ahead = c.current :: ahead ∧ ¬c.current.isTrivia := by
  rw [current_eq_head?] at hk ⊢
  cases hc : c.ahead
  case nil => exact absurd h.ending (by simpa [hc] using hk)
  case cons t ahead => exact ⟨ahead, rfl, h.current t (by simp [hc])⟩

theorem advance_of_ne {t : Token} {ahead : List Token} (ha : c.ahead = t :: ahead)
    (hk : t.kind ≠ .endOfInput) :
    c.advance =
      skipTrivia { c with behind := t :: c.behind, ahead := ahead, lastStop := t.span.stop } := by
  simp [advance, ha, hk]

theorem advance_of_cons {t u : Token} {ahead : List Token} (ha : c.ahead = t :: u :: ahead)
    (hk : t.kind ≠ .endOfInput) (hu : ¬u.isTrivia) :
    c.advance =
      { c with behind := t :: c.behind, ahead := u :: ahead, lastStop := t.span.stop } := by
  rw [advance_of_ne ha hk, skipTrivia_eq, List.takeWhile_cons_of_neg hu, List.dropWhile_cons_of_neg hu]
  rfl

theorem Rests.advance (h : c.Rests) : c.advance.Rests := by
  by_cases hk : c.current.kind = .endOfInput
  case pos =>
    rw [current_eq_head?] at hk
    cases hc : c.ahead <;> simp_all [Cursor.advance]
  case neg =>
    have ⟨ahead, ha, _⟩ := h.ahead_of_ne hk
    rw [advance_of_ne ha hk]
    exact passOver_rests h.ending fun p hp =>
      Nat.le_trans (h.implied p hp) (List.Sublist.countP_le (List.sublist_cons_self ..))

theorem Rests.advance_passed (h : c.Rests) (hk : c.current.kind ≠ .endOfInput) :
    c.advance.passed = c.passed + 1 := by
  have ⟨ahead, ha, ht⟩ := h.ahead_of_ne hk
  rw [advance_of_ne ha hk, skipTrivia_passed]
  simp [passed, ht]

theorem advance_implied (c : Cursor) : c.advance.implied = c.implied := by
  unfold Cursor.advance
  (repeat' split) <;> first | exact passOver_implied | rfl

-- A place that was just reached is clear exactly if no semicolon is written there.
theorem Rests.isClear_advance (h : c.Rests) (hk : c.current.kind ≠ .endOfInput) :
    c.advance.IsClear places ↔ c.passed + 1 ∉ places := by
  rw [IsClear, h.advance_passed hk, advance_implied]
  refine ⟨fun hclear hp => ?_, fun hp hmem => absurd hmem hp⟩
  exact Nat.not_succ_le_self _ (h.implied _ (hclear hp))

-- Where a token is passed, a semicolon may be written behind it.
theorem Level.advance (hs : ∀ t, (semicolon t).IsSemicolon) (hc : c.Rests)
    (h : Level semicolon places c d) (hk : c.current.kind ≠ .endOfInput) :
    Tracks semicolon places c.advance d.advance := by
  have ⟨ahead, ha, ht⟩ := hc.ahead_of_ne hk
  have hd := h.ahead
  have hclear : c.advance.IsClear places ↔ _ := hc.isClear_advance hk
  have hpassed := hc.advance_passed hk
  rw [ha, withSemicolons, if_neg ht, if_neg hk] at hd
  rw [advance_of_ne ha hk] at hclear hpassed ⊢
  refine ⟨fun h' => ?_, fun h' => ?_⟩
  · rw [if_neg (hclear.mp h')] at hd
    rw [advance_of_ne hd hk]
    refine skipTrivia ⟨h.ending, ?_, ?_, List.cons_subset_cons _ h.behind⟩
    · simp [Cursor.passed, ht]
    · simp [Cursor.trivia, ht]
  · rw [if_pos (by simpa [hclear] using h')] at hd
    have hsemi : ¬(semicolon c.current).isTrivia := by
      simp [Token.isTrivia, (hs _).kind, TokenKind.isTrivia]
    have ⟨hahead, hbehind⟩ := skipTrivia_cons ht (c := { c with
      behind := c.current :: c.behind, ahead := ahead, lastStop := c.current.span.stop }) rfl
    rw [advance_of_cons hd hk hsemi]
    refine ⟨?_, ⟨semicolon c.current, hs _, ?_⟩, ?_⟩
    · rw [Cursor.skipTrivia, passOver_ending, h.ending]
    · rw [hpassed, ← withSemicolons_trivia fun t ht => ?_, hahead]
      exact List.mem_takeWhile_imp (List.mem_reverse.mp ht)
    · rw [hbehind]
      exact List.append_subset.mpr ⟨List.subset_append_left .., fun t ht =>
        List.mem_append_right _ (List.cons_subset_cons _ h.behind ht)⟩

-- The token behind the current one is the same, or a semicolon is written there.
theorem Level.following (hs : ∀ t, (semicolon t).IsSemicolon) (hc : c.Rests)
    (h : Level semicolon places c d) :
    d.following = c.following ∨ c.passed + 1 ∈ places ∧ d.following.IsSemicolon := by
  unfold Cursor.following
  rw [h.ahead, h.ending]
  cases hahead : c.ahead
  case nil => exact .inl rfl
  case cons t ahead =>
    have ht : ¬t.isTrivia := hc.current t (by simp [hahead])
    rw [withSemicolons, if_neg ht]
    (repeat' split)
    · exact .inl rfl
    case _ hp =>
      have hsemi : ¬(semicolon t).isTrivia := by
        simp [Token.isTrivia, (hs _).kind, TokenKind.isTrivia]
      exact .inr ⟨hp, by simpa [hsemi] using hs t⟩
    · exact .inl (by rw [List.tail_cons, List.tail_cons, withSemicolons_find?])

/-! ### Semicolons -/

theorem Rests.skipSemicolons (h : c.Rests) : c.skipSemicolons.Rests :=
  passOver_rests h.ending h.implied

theorem skipSemicolons_implied (c : Cursor) : c.skipSemicolons.implied = c.implied :=
  passOver_implied

theorem isSemicolon_ne {k : TokenKind} (h : k == .operator .semicolon) :
    ¬k.isTrivia ∧ k ≠ .endOfInput := by
  cases beq_iff_eq.mp h
  exact ⟨nofun, nofun⟩

theorem Rests.lt_skipSemicolons_passed (h : c.Rests)
    (hk : c.current.kind = .operator .semicolon) : c.passed < c.skipSemicolons.passed := by
  have ⟨ahead, ha, ht⟩ := h.ahead_of_ne (by simp [hk])
  have hcount : (c.current :: c.behind).countP (!·.isTrivia) = c.passed + 1 := by
    simp [ht, passed]
  rw [Nat.lt_iff_add_one_le, ← hcount, Cursor.skipSemicolons, ha, passOver, if_pos (by simp [hk])]
  exact passOver_passed_ge

-- No semicolon is written among semicolons, since none is implied there.
theorem Level.skipSemicolons (hc : c.Rests) (h : Level semicolon places c d)
    (hs : c.skipSemicolons.Settled places) (hclear : c.skipSemicolons.IsClear places) :
    Level semicolon places c.skipSemicolons d.skipSemicolons := by
  rw [Cursor.skipSemicolons, Cursor.skipSemicolons, h.ahead, h.ending]
  refine passOver (fun _ => isSemicolon_ne) (fun p hp hlt hle => ?_) h.trivia h.behind
  have hmem : p ∈ c.skipSemicolons.implied := by
    rcases Nat.lt_or_eq_of_le hle with hlt | rfl
    · exact hs p hp hlt
    · exact hclear hp
  exact Nat.not_le_of_lt hlt (hc.implied p (skipSemicolons_implied c ▸ hmem))

-- The semicolon that is written where none was passed, and nothing else, is passed.
theorem Waits.skipSemicolons (hc : c.Rests) (h : Waits semicolon places c d)
    (hk : c.current.kind ≠ .operator .semicolon) :
    Level semicolon places c.endStatement d.skipSemicolons := by
  have ⟨s, hs, ha⟩ := h.ahead
  have htrivia : ∀ t ∈ c.trivia.reverse, t.isTrivia ∧ ¬(t.kind == .operator .semicolon) :=
    fun t ht => by
      have ht : t.isTrivia := List.mem_takeWhile_imp (List.mem_reverse.mp ht)
      exact ⟨ht, fun hk => (isSemicolon_ne hk).left ht⟩
  have hstop : ∀ t ∈ (withSemicolons semicolon places c.passed c.ahead).head?,
      ¬t.isTrivia ∧ ¬(t.kind == .operator .semicolon) := by
    intro t ht
    rw [withSemicolons_head?] at ht
    refine ⟨hc.current t ht, ?_⟩
    rw [current_eq_head?, ht] at hk
    simpa using hk
  have hsemi : ¬s.isTrivia := by simp [Token.isTrivia, hs.kind, TokenKind.isTrivia]
  rw [Cursor.skipSemicolons, ha, Cursor.passOver, if_pos (by simp [hs.kind]), passOver_trivia htrivia,
    passOver_of_head? hstop, List.reverse_reverse]
  refine ⟨h.ending, rfl, ?_, ?_⟩
  · exact takeWhile_trivia_append (fun t => List.mem_takeWhile_imp) hsemi
  · exact fun t ht => List.mem_append.mpr ((List.mem_append.mp (h.behind ht)).imp_right (.tail _))

end Cursor
end ScriptTree
