import ScriptTree.Proofs.Parse.Follows

/-!
Rules that come to an end: with a result or with an error, but never because the depth that was allowed
is exhausted.

A second run of the rule is followed beside the first one, in a grammar that may go deeper and from a
cursor that the rules cannot tell from the first one. It ends with the same result or the same error.
-/

namespace ScriptTree

namespace Cursor

-- All tokens of the stream that the cursor is a place in.
def stream (c : Cursor) : List Token :=
  c.behind.reverse ++ c.ahead

-- The second cursor is a place in the same stream.
structure Shares (c c' : Cursor) : Prop where
  ending : c'.ending = c.ending
  stream : c'.stream = c.stream

variable {c c' c'' : Cursor}

theorem Shares.refl (c : Cursor) : c.Shares c :=
  ⟨rfl, rfl⟩

theorem Shares.trans (h : c.Shares c') (h' : c'.Shares c'') : c.Shares c'' :=
  ⟨h'.ending.trans h.ending, h'.stream.trans h.stream⟩

-- Where less is left of the stream, more of it was passed.
theorem Shares.length_behind (h : c.Shares c') (hl : c'.ahead.length < c.ahead.length) :
    c.behind.length < c'.behind.length := by
  have := congrArg List.length h.stream
  simp only [Cursor.stream, List.length_append, List.length_reverse] at this
  omega

section passOver

variable {consumes : TokenKind → Bool} {behind ahead : List Token} {lastStop : Nat} {ending : Token}
variable {implied : List Nat}

theorem passOver_stream :
    (passOver consumes behind lastStop ending implied ahead).stream = behind.reverse ++ ahead := by
  induction ahead generalizing behind lastStop
  case nil => rfl
  case cons t ahead ih =>
    rw [passOver]
    (repeat' split)
    · rw [ih, List.reverse_cons, List.append_assoc, List.singleton_append]
    · rw [ih, List.reverse_cons, List.append_assoc, List.singleton_append]
    · rfl

theorem passOver_length_le :
    (passOver consumes behind lastStop ending implied ahead).ahead.length ≤ ahead.length := by
  induction ahead generalizing behind lastStop
  case nil => exact Nat.le_refl _
  case cons t ahead ih =>
    rw [passOver]
    (repeat' split)
    · exact Nat.le_succ_of_le ih
    · exact Nat.le_succ_of_le ih
    · exact Nat.le_refl _

end passOver

theorem shares_skipSemicolons (c : Cursor) : c.Shares c.skipSemicolons :=
  ⟨passOver_ending .., passOver_stream⟩

theorem shares_advance (c : Cursor) : c.Shares c.advance := by
  unfold advance
  split
  · exact .refl c
  case h_2 t ahead ha =>
    split
    · exact .refl c
    · refine ⟨passOver_ending .., passOver_stream.trans ?_⟩
      simp [stream, ha]

theorem length_advance_le (c : Cursor) : c.advance.ahead.length ≤ c.ahead.length := by
  unfold advance
  split
  · exact Nat.le_refl _
  case h_2 t ahead ha =>
    split
    · exact Nat.le_refl _
    · exact Nat.le_trans passOver_length_le (by simp [ha])

-- A token is consumed unless it is the end of input.
theorem length_advance_lt (he : c.ending.kind = .endOfInput) (hk : c.current.kind ≠ .endOfInput) :
    c.advance.ahead.length < c.ahead.length := by
  rw [current_eq_head?] at hk
  cases ha : c.ahead
  case nil => exact absurd he (by simpa [ha] using hk)
  case cons t ahead =>
    rw [advance_of_ne ha (by simpa [ha] using hk)]
    exact Nat.lt_succ_of_le passOver_length_le

-- Cursors that rules cannot tell apart, whatever they do next, or only by this: the second one has passed
-- what may end a statement, and the first one has not.
structure Likeness where
  IsStrict            : Prop
  Holds               : Cursor → Cursor → Prop
  current             : ∀ {c d}, Holds c d → d.current = c.current
  following           : ∀ {c d}, Holds c d → d.following = c.following
  lastStop            : ∀ {c d}, Holds c d → d.lastStop = c.lastStop
  isAfterLineBreak    : ∀ {c d}, Holds c d → d.isAfterLineBreak = c.isAfterLineBreak
  hasPassedTerminator : ∀ {c d}, Holds c d → c.hasPassedTerminator → d.hasPassedTerminator
  strict              : ∀ {c d}, IsStrict → Holds c d → d.hasPassedTerminator → c.hasPassedTerminator
  advance             : ∀ {c d}, Holds c d → Holds c.advance d.advance
  skipSemicolons      : ∀ {c d}, Holds c d → Holds c.skipSemicolons d.skipSemicolons
  endStatement        : ∀ {c d}, Holds c d → Holds c.endStatement d.endStatement

def Likeness.equality : Likeness where
  IsStrict := True
  Holds c d := d = c
  current := by rintro c d rfl; rfl
  following := by rintro c d rfl; rfl
  lastStop := by rintro c d rfl; rfl
  isAfterLineBreak := by rintro c d rfl; rfl
  hasPassedTerminator := by rintro c d rfl h; exact h
  strict := by rintro c d - rfl h; exact h
  advance := by rintro c d rfl; rfl
  skipSemicolons := by rintro c d rfl; rfl
  endStatement := by rintro c d rfl; rfl

end Cursor

open Cursor

-- What holds behind a round of a loop, as another one follows or not.
abbrev Round.Holds {α β : Type} (again : α → Cursor → Prop) (finish : β → Cursor → Prop) :
    Round α β → Cursor → Prop
  | .again a, c  => again a c
  | .finish b, c => finish b c

namespace Rule

variable {α β : Type}

-- What the first run from `c` comes to, beside a second run: a result of which `Q` holds, or an error, and
-- the second run comes to the same. Where the cursors are not strictly alike, nothing is said of the second
-- run behind an error, since a statement that could not end may end there.
def Beside (R : Likeness) (c : Cursor) (Q : α → Cursor → Prop) (second : Except Stop (α × Cursor)) :
    Except Stop (α × Cursor) → Prop
  | .ok (a, c')        => c.Shares c' ∧ Q a c' ∧ ∃ d', second = .ok (a, d') ∧ R.Holds c' d'
  | .error (.failed e) => R.IsStrict → second = .error (.failed e)
  | .error .exhausted  => False

-- The rule comes to an end from `c` on, and so does the second one from any cursor that is like `c`.
def Finishes (R : Likeness) (r r' : Rule α) (c : Cursor) (Q : α → Cursor → Prop) : Prop :=
  c.ending.kind = .endOfInput → ∀ d, R.Holds c d → Beside R c Q (r'.run d) (r.run c)

-- Results behind which less of the stream is left, and those behind which no more is left.

abbrev Shorter (c : Cursor) (_ : α) (c' : Cursor) : Prop :=
  c'.ahead.length < c.ahead.length

abbrev NoLonger (c : Cursor) (_ : α) (c' : Cursor) : Prop :=
  c'.ahead.length ≤ c.ahead.length

theorem Beside.imp {R : Likeness} {c c₀ : Cursor} {Q Q' : α → Cursor → Prop}
    {first second : Except Stop (α × Cursor)} (h : Beside R c Q second first) (hc : c₀.Shares c)
    (hq : ∀ a c', Q a c' → Q' a c') : Beside R c₀ Q' second first := by
  rcases first with (_ | _) | ⟨a, c'⟩
  case error.failed => exact h
  case error.exhausted => exact h
  case ok => exact ⟨hc.trans h.1, hq a c' h.2.1, h.2.2⟩

namespace Finishes

variable {R : Likeness} {r r' : Rule α} {f f' : α → Rule β} {c : Cursor}
variable {Q : α → Cursor → Prop} {S : β → Cursor → Prop} {kind : TokenKind}

theorem pure {a : α} (h : Q a c) : Finishes R (pure a) (pure a) c Q :=
  fun _ d hd => ⟨.refl c, h, d, rfl, hd⟩

theorem bind (hr : Finishes R r r' c Q)
    (hf : ∀ a c', Q a c' → Finishes R (f a) (f' a) c' S) :
    Finishes R (r >>= f) (r' >>= f') c S := by
  intro hc d hd
  have hr := hr hc d hd
  rw [StateT.run_bind, StateT.run_bind]
  revert hr
  rcases r.run c with (_ | _) | ⟨a, c'⟩ <;> intro hr
  case error.failed =>
    intro hstrict
    rw [show r'.run d = _ from hr hstrict]
    rfl
  case error.exhausted => exact hr
  case ok =>
    obtain ⟨hs, hq, d', hrun', hd'⟩ := hr
    rw [hrun']
    exact (hf a c' hq (hs.ending ▸ hc) d' hd').imp hs fun _ _ h => h

theorem mono {Q' : α → Cursor → Prop} (hr : Finishes R r r' c Q) (h : ∀ a c', Q a c' → Q' a c') :
    Finishes R r r' c Q' :=
  fun hc d hd => (hr hc d hd).imp (.refl c) h

theorem map {g : α → β} (hr : Finishes R r r' c fun a c' => S (g a) c') :
    Finishes R (g <$> r) (g <$> r') c S := by
  rw [← bind_pure_comp, ← bind_pure_comp]
  exact hr.bind fun a c' h => .pure h

theorem map_bind {γ : Type} {g : α → γ} {f f' : γ → Rule β}
    (h : Finishes R (r >>= fun a => f (g a)) (r' >>= fun a => f' (g a)) c S) :
    Finishes R (g <$> r >>= f) (g <$> r' >>= f') c S := by
  rwa [bind_map_left, bind_map_left]

theorem fail {error : ParseError} : Finishes R (fail error : Rule α) (Rule.fail error) c Q :=
  fun _ _ _ _ => rfl

theorem congr_run {x x' : Rule α} (hx : x.run c = r.run c)
    (hx' : ∀ d, R.Holds c d → x'.run d = r'.run d) (h : Finishes R r r' c Q) :
    Finishes R x x' c Q := by
  intro hc d hd
  rw [hx, hx' d hd]
  exact h hc d hd

/-! ### Looking -/

-- What is read from both cursors is the same.
theorem read {τ : Type} {x : Rule τ} {get : Cursor → τ} {f f' : τ → Rule β}
    (hx : ∀ c, x.run c = .ok (get c, c)) (hget : ∀ {d}, R.Holds c d → get d = get c)
    (hf : Finishes R (f (get c)) (f' (get c)) c S) :
    Finishes R (x >>= f) (x >>= f') c S :=
  congr_run (Follows.run_read hx f c) (fun d hd => hget hd ▸ Follows.run_read hx f' d) hf

theorem current {f f' : Token → Rule β} (hf : Finishes R (f c.current) (f' c.current) c S) :
    Finishes R (Rule.current >>= f) (Rule.current >>= f') c S :=
  read (fun _ => rfl) R.current hf

theorem start {f f' : Nat → Rule β} (hf : ∀ start, Finishes R (f start) (f' start) c S) :
    Finishes R (Rule.start >>= f) (Rule.start >>= f') c S :=
  read (fun _ => rfl) (fun h => congrArg (·.span.start) (R.current h)) (hf _)

theorem spanFrom {start : Nat} {f f' : Span → Rule β}
    (hf : ∀ span, Finishes R (f span) (f' span) c S) :
    Finishes R (Rule.spanFrom start >>= f) (Rule.spanFrom start >>= f') c S :=
  read (fun _ => rfl) (fun h => by rw [R.lastStop h]) (hf _)

theorem isAfterLineBreak {f f' : Bool → Rule β} (hf : ∀ b, Finishes R (f b) (f' b) c S) :
    Finishes R (Rule.isAfterLineBreak >>= f) (Rule.isAfterLineBreak >>= f') c S :=
  read (fun _ => rfl) R.isAfterLineBreak (hf _)

-- The node that is made of what was read, which ends where the cursor stands.
theorem spanned {start : Nat} {form : Form Node} {Q : Node → Cursor → Prop} (h : ∀ n, Q n c) :
    Finishes R (do return .mk (← Rule.spanFrom start) form)
      (do return .mk (← Rule.spanFrom start) form) c Q :=
  .spanFrom fun _ => .pure (h _)

theorem unexpected : Finishes R (Rule.unexpected : Rule α) Rule.unexpected c Q :=
  .current .fail

-- A branch on what is seen.
theorem test_ite {x : Rule Bool} {b : Cursor → Bool} {y z y' z' : Rule β}
    (hx : ∀ c, x.run c = .ok (b c, c)) (hb : ∀ {d}, R.Holds c d → b d = b c)
    (hy : b c = true → Finishes R y y' c S) (hz : b c = false → Finishes R z z' c S) :
    Finishes R (x >>= fun b => if b then y else z) (x >>= fun b => if b then y' else z') c S := by
  refine read hx hb ?_
  split
  case isTrue h => exact hy h
  case isFalse h => exact hz (by simpa using h)

theorem check_ite {y z y' z' : Rule β} (hy : c.current.kind = kind → Finishes R y y' c S)
    (hz : c.current.kind ≠ kind → Finishes R z z' c S) :
    Finishes R (Rule.check kind >>= fun b => if b then y else z)
      (Rule.check kind >>= fun b => if b then y' else z') c S :=
  test_ite (fun _ => rfl) (fun h => congrArg (·.kind == _) (R.current h))
    (fun h => hy (beq_iff_eq.mp h)) fun h => hz (by simpa using h)

theorem isAtEnd_ite {y z y' z' : Rule β} (hy : Finishes R y y' c S)
    (hz : c.current.kind ≠ .endOfInput → Finishes R z z' c S) :
    Finishes R (Rule.isAtEnd >>= fun b => if b then y else z)
      (Rule.isAtEnd >>= fun b => if b then y' else z') c S :=
  check_ite (fun _ => hy) hz

-- A rule that is one of two others, as the cursor says.
theorem run_ite {x x' y z y' z' : Rule β} {b : Cursor → Bool}
    (hx : x.run c = if b c then y.run c else z.run c)
    (hx' : ∀ d, R.Holds c d → x'.run d = if b d then y'.run d else z'.run d)
    (hb : ∀ {d}, R.Holds c d → b d = b c) (hy : b c = true → Finishes R y y' c S)
    (hz : Finishes R z z' c S) : Finishes R x x' c S := by
  cases h : b c
  case true =>
    exact congr_run (by rw [hx, h]; rfl) (fun d hd => by rw [hx' d hd, hb hd, h]; rfl) (hy h)
  case false => exact congr_run (by rw [hx, h]; rfl) (fun d hd => by rw [hx' d hd, hb hd, h]; rfl) hz

/-! ### Consuming -/

theorem advance (hk : c.current.kind ≠ .endOfInput) :
    Finishes R Rule.advance Rule.advance c fun t c' => t = c.current ∧ Shorter c t c' := by
  intro hc d hd
  refine ⟨shares_advance c, ⟨rfl, length_advance_lt hc hk⟩, d.advance, ?_, R.advance hd⟩
  show Except.ok (d.current, d.advance) = _
  rw [R.current hd]

-- What consumes the current token whatever it is, and finds an error in it at the end of input.
theorem advance_bind {f f' : Token → Rule β}
    (hf : ∀ c', NoLonger c c.current c' → (c.current.kind ≠ .endOfInput → Shorter c c.current c') →
      Finishes R (f c.current) (f' c.current) c' S) :
    Finishes R (Rule.advance >>= f) (Rule.advance >>= f') c S := by
  intro hc d hd
  have h := hf c.advance (length_advance_le c) (length_advance_lt hc) ((shares_advance c).ending ▸ hc)
    d.advance (R.advance hd)
  have hrun : (Rule.advance >>= f).run c = (f c.current).run c.advance := Follows.run_bind_of_ok rfl
  have hrun' : (Rule.advance >>= f').run d = (f' c.current).run d.advance :=
    Follows.run_bind_of_ok (congrArg (fun t => Except.ok (t, d.advance)) (R.current hd))
  rw [hrun, hrun']
  exact h.imp (shares_advance c) fun _ _ h => h

theorem skip_bind {f f' : Rule β} (hk : c.current.kind ≠ .endOfInput)
    (hf : ∀ c', c'.ahead.length < c.ahead.length → Finishes R f f' c' S) :
    Finishes R (discard Rule.advance >>= fun _ => f) (discard Rule.advance >>= fun _ => f') c S :=
  map_bind ((advance hk).bind fun _ c' h => hf c' h.right)

theorem expect (hk : kind ≠ .endOfInput) :
    Finishes R (Rule.expect kind) (Rule.expect kind) c (Shorter c) :=
  check_ite (fun h => (advance (h ▸ hk)).mono fun _ _ h => h.right) fun _ => unexpected

-- The next token must be of a kind, and is consumed.
theorem expecting {f f' : Rule β} (hk : kind ≠ .endOfInput)
    (hf : ∀ c', c'.ahead.length < c.ahead.length → Finishes R f f' c' S) :
    Finishes R (discard (Rule.expect kind) >>= fun _ => f)
      (discard (Rule.expect kind) >>= fun _ => f') c S :=
  map_bind ((expect hk).bind fun _ c' h => hf c' h)

-- A branch on the kind of the current token, which is consumed if it is the one that is asked for.
theorem accept_ite {y z y' z' : Rule β} (hk : kind ≠ .endOfInput)
    (hy : ∀ c', c'.ahead.length < c.ahead.length → Finishes R y y' c' S)
    (hz : c.current.kind ≠ kind → Finishes R z z' c S) :
    Finishes R (Rule.accept kind >>= fun b => if b then y else z)
      (Rule.accept kind >>= fun b => if b then y' else z') c S := by
  rw [Follows.accept_bind_ite, Follows.accept_bind_ite]
  exact check_ite (fun h => skip_bind (h ▸ hk) hy) hz

theorem accept (hk : kind ≠ .endOfInput) :
    Finishes R (Rule.accept kind) (Rule.accept kind) c (NoLonger c) :=
  check_ite (fun h => skip_bind (h ▸ hk) fun _ h => .pure (Nat.le_of_lt h))
    fun _ => .pure (Nat.le_refl _)

-- A loop in which less is left after each round ends before its limit, if that is more than what is
-- left at first.
theorem loop {I : α → Cursor → Prop} {round round' : α → Rule (Round α β)} {limit limit' : Nat}
    (hround : ∀ a c, I a c → Finishes R (round a) (round' a) c
      (Round.Holds (fun a' c' => I a' c' ∧ c'.ahead.length < c.ahead.length) S))
    {a : α} (ha : I a c) (hl : c.ahead.length < limit) (hl' : c.ahead.length < limit') :
    Finishes R (Rule.loop limit round a) (Rule.loop limit' round' a) c S := by
  induction limit generalizing limit' a c
  case zero => exact absurd hl (Nat.not_lt_zero _)
  case succ limit ih =>
    obtain ⟨limit', rfl⟩ := Nat.exists_eq_succ_of_ne_zero (Nat.ne_zero_of_lt hl')
    refine (hround a c ha).bind fun r c' h => ?_
    cases r
    case again => exact ih h.left (by omega) (by omega)
    case finish => exact .pure h

theorem terminator : Finishes R Rule.terminator Rule.terminator c (NoLonger c) := by
  intro hc d hd
  by_cases hk : c.current.kind = .operator .semicolon
  case pos =>
    rw [Follows.terminator_run_of_semicolon hk]
    exact ⟨shares_skipSemicolons c, passOver_length_le, d.skipSemicolons,
      Follows.terminator_run_of_semicolon (R.current hd ▸ hk), R.skipSemicolons hd⟩
  case neg =>
    have hrun' := Follows.terminator_run_of_ne (R.current hd ▸ hk)
    rw [Follows.terminator_run_of_ne hk, hrun', R.current hd]
    by_cases h : Follows.endsStatement c
    case pos =>
      rw [if_pos h, if_pos (Follows.endsStatement_imp (R.current hd) (R.hasPassedTerminator hd) h)]
      exact ⟨⟨rfl, rfl⟩, Nat.le_refl _, d.endStatement, rfl, R.endStatement hd⟩
    case neg =>
      rw [if_neg h]
      intro hstrict
      rw [if_neg fun h' => h (Follows.endsStatement_imp (R.current hd).symm (R.strict hstrict hd) h')]

end Finishes

end Rule
end ScriptTree
