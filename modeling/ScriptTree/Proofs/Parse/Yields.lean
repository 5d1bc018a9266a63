import ScriptTree.Parse

/-!
What holds of the result of a rule, if it has one.
-/

namespace ScriptTree

variable {L : Token → Prop} {α β : Type}

namespace Cursor

-- `L` holds of all tokens that are still ahead.
structure Within (L : Token → Prop) (c : Cursor) : Prop where
  ahead  : ∀ t ∈ c.ahead, L t
  ending : c.ending.kind = .endOfInput

theorem passOver_ahead_subset (consumes : TokenKind → Bool) (behind : List Token) (lastStop : Nat)
    (ending : Token) (implied : List Nat) (ahead : List Token) :
    (passOver consumes behind lastStop ending implied ahead).ahead ⊆ ahead := by
  induction ahead generalizing behind lastStop
  case nil => simp [passOver]
  case cons t ahead ih =>
    simp only [passOver]
    (repeat' split) <;> simp_all

theorem passOver_ending (consumes : TokenKind → Bool) (behind : List Token) (lastStop : Nat)
    (ending : Token) (implied : List Nat) (ahead : List Token) :
    (passOver consumes behind lastStop ending implied ahead).ending = ending := by
  induction ahead generalizing behind lastStop
  case nil => simp [passOver]
  case cons t ahead ih =>
    simp only [passOver]
    (repeat' split) <;> simp_all

theorem Within.passOver {consumes : TokenKind → Bool} {behind : List Token} {lastStop : Nat}
    {ending : Token} {implied : List Nat} {ahead : List Token} (ha : ∀ t ∈ ahead, L t)
    (he : ending.kind = .endOfInput) :
    (passOver consumes behind lastStop ending implied ahead).Within L where
  ahead t ht := ha t (passOver_ahead_subset _ _ _ _ _ _ ht)
  ending := by rwa [passOver_ending]

theorem Within.advance {c : Cursor} (h : c.Within L) : c.advance.Within L := by
  unfold Cursor.advance
  split
  · exact h
  case h_2 t ahead ht =>
    split
    · exact h
    · exact .passOver (fun u hu => h.ahead u (ht ▸ .tail _ hu)) h.ending

theorem Within.current {c : Cursor} (h : c.Within L) :
    c.current.kind = .endOfInput ∨ L c.current := by
  unfold Cursor.current
  cases hc : c.ahead
  case nil => exact .inl h.ending
  case cons t ahead => exact .inr (h.ahead t (hc ▸ .head _))

theorem Within.current_of_ne {c : Cursor} (h : c.Within L) (hk : c.current.kind ≠ .endOfInput) :
    L c.current :=
  h.current.resolve_left hk

theorem passOver_current (consumes : TokenKind → Bool) (behind : List Token) (lastStop : Nat)
    {ending : Token} (implied : List Nat) (ahead : List Token) (he : consumes ending.kind = false) :
    consumes (passOver consumes behind lastStop ending implied ahead).current.kind = false := by
  induction ahead generalizing behind lastStop
  case nil => exact he
  case cons t ahead ih =>
    simp only [passOver]
    (repeat' split) <;> simp_all [Cursor.current]

theorem Within.skipSemicolons {c : Cursor} (h : c.Within L) :
    c.skipSemicolons.Within L ∧ c.skipSemicolons.current.kind ≠ .operator .semicolon := by
  have hne : (c.ending.kind == .operator .semicolon) = false := by simp [h.ending]
  have := passOver_current (· == .operator .semicolon) c.behind c.lastStop c.implied c.ahead hne
  exact ⟨.passOver h.ahead h.ending, by simpa [Cursor.skipSemicolons] using this⟩

end Cursor

namespace Rule

-- If the rule has a result from `c` on, where `L` holds of what is ahead, then `Q` holds of the
-- result and of the cursor behind it.
def Yields (L : Token → Prop) (r : Rule α) (c : Cursor) (Q : α → Cursor → Prop) : Prop :=
  c.Within L → match r.run c with
    | .ok (a, c') => c'.Within L ∧ Q a c'
    | .error _ => True

namespace Yields

variable {r : Rule α} {f : α → Rule β} {c : Cursor}
variable {Q : α → Cursor → Prop} {R : β → Cursor → Prop}

theorem pure {a : α} (h : Q a c) : Yields L (pure a) c Q :=
  fun hc => ⟨hc, h⟩

theorem bind (hr : Yields L r c Q) (hf : ∀ a c', Q a c' → Yields L (f a) c' R) :
    Yields L (r >>= f) c R := by
  intro hc
  have hr := hr hc
  rw [StateT.run_bind]
  rcases hrun : r.run c with _ | ⟨a, c'⟩
  case error => trivial
  case ok =>
    rw [hrun] at hr
    exact hf a c' hr.right hr.left

theorem mono {R : α → Cursor → Prop} (hr : Yields L r c Q)
    (h : ∀ a c', Q a c' → R a c') : Yields L r c R := by
  intro hc
  have hr := hr hc
  rcases hrun : r.run c with _ | ⟨a, c'⟩ <;> simp only [hrun] at hr ⊢
  exact ⟨hr.left, h a c' hr.right⟩

theorem map {g : α → β} (hr : Yields L r c fun a c' => R (g a) c') :
    Yields L (g <$> r) c R := by
  rw [← bind_pure_comp]
  exact hr.bind fun a c' h => .pure h

theorem map_bind {γ : Type} {g : α → γ} {f : γ → Rule β} (hr : Yields L r c Q)
    (hf : ∀ a c', Q a c' → Yields L (f (g a)) c' R) : Yields L (g <$> r >>= f) c R := by
  rw [← bind_pure_comp, bind_assoc]
  exact hr.bind fun a c' h => by simpa using hf a c' h

theorem throw {stop : Stop} : Yields L (throw stop : Rule α) c Q :=
  fun _ => trivial

theorem fail {error : ParseError} : Yields L (fail error : Rule α) c Q :=
  fun _ => trivial

theorem unexpected : Yields L (unexpected : Rule α) c Q :=
  fun _ => trivial

theorem unexpected_bind : Yields L (Rule.unexpected >>= f) c R :=
  fun _ => trivial

theorem get : Yields L get c fun a c' => a = c ∧ c' = c :=
  fun hc => ⟨hc, rfl, rfl⟩

theorem set {s : Cursor} {Q : PUnit → Cursor → Prop} (hs : s.Within L) (h : Q ⟨⟩ s) :
    Yields L (set s) c Q :=
  fun _ => ⟨hs, h⟩

theorem endStatement {Q : PUnit → Cursor → Prop} (h : Q ⟨⟩ c.endStatement) :
    Yields L (modify Cursor.endStatement) c Q :=
  fun hc => ⟨⟨hc.ahead, hc.ending⟩, h⟩

theorem current : Yields L current c fun t c' => t = c.current ∧ c' = c :=
  fun hc => ⟨hc, rfl, rfl⟩

theorem current_holds :
    Yields L Rule.current c fun t c' => c' = c ∧ (t.kind ≠ .endOfInput → L t) :=
  fun hc => ⟨hc, rfl, hc.current_of_ne⟩

theorem start : Yields L start c fun _ c' => c' = c :=
  fun hc => ⟨hc, rfl⟩

theorem spanFrom {start : Nat} : Yields L (spanFrom start) c fun _ c' => c' = c :=
  fun hc => ⟨hc, rfl⟩

theorem isAtEnd : Yields L isAtEnd c fun b c' => b = c.isAtEnd ∧ c' = c :=
  fun hc => ⟨hc, rfl, rfl⟩

theorem isAfterLineBreak : Yields L isAfterLineBreak c fun _ c' => c' = c :=
  fun hc => ⟨hc, rfl⟩

theorem check {kind : TokenKind} :
    Yields L (check kind) c fun b c' => b = (c.current.kind == kind) ∧ c' = c :=
  fun hc => ⟨hc, rfl, rfl⟩

theorem advance :
    Yields L advance c fun t c' =>
      t = c.current ∧ c' = c.advance ∧ (t.kind ≠ .endOfInput → L t) :=
  fun hc => ⟨hc.advance, rfl, rfl, hc.current_of_ne⟩

theorem skip : Yields L (Functor.discard Rule.advance) c fun _ c' => c' = c.advance :=
  fun hc => ⟨hc.advance, rfl⟩

-- A branch on the kind of the current token.
theorem check_ite {kind : TokenKind} {x y : Rule α}
    (hx : c.current.kind = kind → Yields L x c Q)
    (hy : c.current.kind ≠ kind → Yields L y c Q) :
    Yields L (Rule.check kind >>= fun b => if b then x else y) c Q := by
  refine check.bind fun b c' ⟨hb, hc'⟩ => ?_
  subst hc'
  split
  case isTrue h => exact hx (by simp_all)
  case isFalse h => exact hy (by simp_all)

theorem accept {kind : TokenKind} :
    Yields L (accept kind) c fun b c' =>
      if b then c.current.kind = kind ∧ c' = c.advance else c.current.kind ≠ kind ∧ c' = c :=
  check_ite (fun h => skip.bind fun _ _ hc => .pure ⟨h, hc⟩) (fun h => .pure ⟨h, rfl⟩)

-- A branch on the kind of the current token, which is consumed if it is the one that is asked for.
theorem accept_ite {kind : TokenKind} {x y : Rule α}
    (hx : c.current.kind = kind → Yields L x c.advance Q)
    (hy : c.current.kind ≠ kind → Yields L y c Q) :
    Yields L (Rule.accept kind >>= fun b => if b then x else y) c Q := by
  refine accept.bind fun b c' h => ?_
  cases b
  case true => exact h.right ▸ hx h.left
  case false => exact h.right ▸ hy h.left

theorem isAtEnd_ite {x y : Rule α} (hx : c.current.kind = .endOfInput → Yields L x c Q)
    (hy : c.current.kind ≠ .endOfInput → Yields L y c Q) :
    Yields L (Rule.isAtEnd >>= fun b => if b then x else y) c Q := by
  refine isAtEnd.bind fun b c' ⟨hb, hc'⟩ => ?_
  subst hc'
  split
  case isTrue h => exact hx (by simp_all [Cursor.isAtEnd])
  case isFalse h => exact hy (by simp_all [Cursor.isAtEnd])

theorem expect {kind : TokenKind} :
    Yields L (expect kind) c fun t c' =>
      t.kind = kind ∧ c.current.kind = kind ∧ c' = c.advance ∧ (kind ≠ .endOfInput → L t) := by
  refine check_ite (fun h => ?_) fun _ => unexpected
  exact advance.mono fun t c' ⟨ht, hc, hl⟩ => ⟨ht ▸ h, h, hc, fun hk => hl (ht ▸ h ▸ hk)⟩

theorem expect_skip {kind : TokenKind} :
    Yields L (Functor.discard (Rule.expect kind)) c fun _ c' =>
      c.current.kind = kind ∧ c' = c.advance :=
  (expect.mono fun _ _ ⟨_, hk, hc, _⟩ => ⟨hk, hc⟩).map

-- A loop keeps what each of its rounds keeps.
theorem loop {I : α → Cursor → Prop} {round : α → Rule (Round α β)}
    (hround : ∀ a c, I a c → Yields L (round a) c fun r c' =>
      match r with
      | .again a' => I a' c'
      | .finish b => R b c')
    {limit : Nat} {a : α} (ha : I a c) : Yields L (loop limit round a) c R := by
  induction limit generalizing a c
  case zero => exact throw
  case succ limit ih =>
    refine (hround a c ha).bind fun r c' h => ?_
    cases r
    case again => exact ih h
    case finish => exact .pure h

end Yields
end Rule
end ScriptTree
