import ScriptTree.Parse.Rule
import ScriptTree.Proofs.Parse.Implied

/-!
Two runs of a rule, the second one where the semicolons are written that the first one implied.

Such a semicolon ends what was read before it, and only a terminator takes it. So the second run can
stand before one while the first run still looks for more to read, as long as it finds nothing. What is
said of a rule therefore names how the rule moves the cursor, and after which results the place it ends
at must be clear of semicolons.
-/

namespace ScriptTree

namespace Cursor

variable {places : List Nat} {c c' c'' : Cursor}

-- Tokens are consumed, and if a statement ended without a semicolon, then behind the first of them.
structure Eats (c c' : Cursor) : Prop where
  passed  : c.passed < c'.passed
  implied : ∀ p ∈ c'.implied, p ≤ c.passed → p ∈ c.implied

-- The cursor moves on, or a statement ends at its place.
structure Reaches (c c' : Cursor) : Prop where
  passed  : c.passed ≤ c'.passed
  implied : ∀ p ∈ c'.implied, p < c.passed → p ∈ c.implied

namespace Reaches

theorem refl (c : Cursor) : c.Reaches c :=
  ⟨Nat.le_refl _, fun _ hp _ => hp⟩

theorem trans (h : c.Reaches c') (h' : c'.Reaches c'') : c.Reaches c'' :=
  ⟨Nat.le_trans h.passed h'.passed, fun p hp hlt =>
    h.implied p (h'.implied p hp (Nat.lt_of_lt_of_le hlt h.passed)) hlt⟩

theorem settled (h : c.Reaches c') (hs : c'.Settled places) : c.Settled places := fun p hp hlt =>
  h.implied p (hs p hp (Nat.lt_of_lt_of_le hlt h.passed)) hlt

end Reaches

namespace Eats

theorem reaches (h : c.Eats c') : c.Reaches c' :=
  ⟨Nat.le_of_lt h.passed, fun p hp hlt => h.implied p hp (Nat.le_of_lt hlt)⟩

theorem trans (h : c.Eats c') (h' : c'.Reaches c'') : c.Eats c'' :=
  ⟨Nat.lt_of_lt_of_le h.passed h'.passed, fun p hp hle =>
    h.implied p (h'.implied p hp (Nat.lt_of_le_of_lt hle h.passed)) hle⟩

-- Where tokens are consumed, no statement has just ended.
theorem isClear (h : c.Eats c') (hs : c'.Settled places) : c.IsClear places := fun hp =>
  h.implied _ (hs _ hp h.passed) (Nat.le_refl _)

end Eats

theorem Rests.eats_advance (h : c.Rests) (hk : c.current.kind ≠ .endOfInput) : c.Eats c.advance :=
  ⟨h.advance_passed hk ▸ Nat.lt_succ_self _, fun _ hp _ => advance_implied c ▸ hp⟩

end Cursor

open Cursor

def Round.map {α β γ δ : Type} (e : α → γ) (e' : β → δ) : Round α β → Round γ δ
  | again a => again (e a)
  | finish b => finish (e' b)

namespace Rule

-- How a rule moves the cursor.
inductive Move where
  -- Tokens are consumed.
  | eats
  -- Tokens are consumed, or the cursor stays at a place that must be clear.
  | holds
  -- Tokens are consumed, or the cursor stays.
  | stays
  -- A statement may end.
  | ends

namespace Move

variable {m m' : Move} {clear clear' : Prop} {c c' c'' : Cursor} {places : List Nat}

def Holds (clear : Prop) : Move → Cursor → Cursor → Prop
  | eats, c, c' => c.Eats c'
  | holds, c, c' => c' = c ∧ clear ∨ c.Eats c'
  | stays, c, c' => c' = c ∨ c.Eats c'
  | ends, c, c' => c.Reaches c'

-- May the cursor stay?
def Stays (clear : Prop) : Move → Prop
  | eats => False
  | holds => clear
  | stays | ends => True

-- Is the place that is left clear in any case?
def Pins : Move → Prop
  | eats | holds => True
  | stays | ends => False

-- One move after the other.
def andThen : Move → Move → Move
  | eats, _ => eats
  | ends, _ => ends
  | holds, m | stays, m => m

theorem Holds.of_eats (h : c.Eats c') : m.Holds clear c c' := by
  cases m
  case eats => exact h
  case holds | stays => exact .inr h
  case ends => exact h.reaches

theorem Holds.reaches (h : m.Holds clear c c') : c.Reaches c' := by
  cases m
  case eats => exact h.reaches
  case holds =>
    rcases h with ⟨rfl, _⟩ | h
    · exact .refl _
    · exact h.reaches
  case stays =>
    rcases h with rfl | h
    · exact .refl _
    · exact h.reaches
  case ends => exact h

theorem Holds.imp (h : m.Holds clear c c') (hclear : clear → clear') : m.Holds clear' c c' := by
  cases m
  case holds => exact h.imp_left (.imp_right hclear)
  case eats | stays | ends => exact h

theorem Stays.holds (h : m.Stays clear) : m.Holds clear c c := by
  cases m
  case eats => cases h
  case holds => exact .inl ⟨rfl, h⟩
  case stays => exact .inl rfl
  case ends => exact .refl _

theorem Holds.andThen (h : m.Holds clear c c') (h' : m'.Holds clear' c' c'') :
    (m.andThen m').Holds clear' c c'' := by
  cases m
  case eats => exact Eats.trans h h'.reaches
  case holds =>
    rcases h with ⟨rfl, _⟩ | h
    · exact h'
    · exact .of_eats (h.trans h'.reaches)
  case stays =>
    rcases h with rfl | h
    · exact h'
    · exact .of_eats (h.trans h'.reaches)
  case ends => exact Reaches.trans h h'.reaches

theorem Holds.isClear (h : m.Holds clear c c') (hm : m.Pins) (hs : c'.Settled places)
    (hclear : clear → c'.IsClear places) : c.IsClear places := by
  cases m
  case eats => exact Eats.isClear h hs
  case holds =>
    rcases h with ⟨rfl, h⟩ | h
    · exact hclear h
    · exact h.isClear hs
  case stays | ends => cases hm

theorem andThen_self (m : Move) : m.andThen m = m := by
  cases m <;> rfl

end Move

variable {α β γ δ : Type}

-- The second run of a rule, beside a first one from `c` to `c'` with the result `a`: from the same
-- place it leads to the same place and, apart from what `e` erases, to the same result.
structure Mirrors (m : Move) (clear : Prop) (e : α → γ) (r' : Rule α) (c : Cursor) (a : α)
    (c' : Cursor) : Prop where
  rests  : c'.Rests
  moves  : m.Holds clear c c'
  mirror : ∀ {semicolon places d}, (∀ t, (semicolon t).IsSemicolon) → c'.Settled places →
    (clear → c'.IsClear places) → Tracks semicolon places c d →
      ∃ a' d', r'.run d = .ok (a', d') ∧ e a' = e a ∧ Tracks semicolon places c' d'

-- Whatever the result of `r` from `c` on, there is a second run of `r'` beside.
def Follows (m : Move) (clear : α → Prop) (e : α → γ) (r r' : Rule α) (c : Cursor) : Prop :=
  c.Rests → ∀ {a c'}, r.run c = .ok (a, c') → Mirrors m (clear a) e r' c a c'

-- Results after which any place will do, and results after which it must be clear.
abbrev Loose (_ : α) : Prop := False

abbrev Clear (_ : α) : Prop := True

namespace Follows

variable {m m' : Move} {K : α → Prop} {K' : β → Prop} {e : α → γ} {e' : β → δ}
variable {r r' : Rule α} {f f' : α → Rule β} {c : Cursor}

theorem run_bind_of_ok {a : α} {c' : Cursor} (h : r.run c = .ok (a, c')) :
    (r >>= f).run c = (f a).run c' := by
  rw [StateT.run_bind, h]
  rfl

theorem fails (h : ∀ x, r.run c ≠ .ok x) : Follows m K e r r' c :=
  fun _ {_ _} hr => absurd hr (h _)

theorem of_moves (h : Follows m K e r r' c)
    (hm : ∀ {clear c c'}, m.Holds clear c c' → m'.Holds clear c c') : Follows m' K e r r' c :=
  fun hc _ _ hr => ⟨(h hc hr).rests, hm (h hc hr).moves, (h hc hr).mirror⟩

theorem of_eats (h : Follows .eats K e r r' c) : Follows m K e r r' c :=
  h.of_moves fun h => .of_eats h

theorem of_holds (h : Follows .holds K e r r' c) : Follows .ends K e r r' c :=
  h.of_moves Move.Holds.reaches

theorem of_loose (h : Follows m Loose e r r' c) : Follows m K e r r' c := fun hc _ _ hr =>
  have h := h hc hr
  ⟨h.rests, h.moves.imp False.elim, fun hs hset _ ht => h.mirror hs hset False.elim ht⟩

theorem pure {a a' : α} (hm : m.Stays (K a)) (he : e a' = e a) :
    Follows m K e (pure a) (pure a') c := by
  intro hc _ _ hr
  cases hr
  exact ⟨hc, hm.holds, fun _ _ _ ht => ⟨a', _, rfl, he, ht⟩⟩

-- A rule goes on where another one has ended. A place that must be clear has to be followed by a rule
-- that leaves none that is not.
theorem bind (hr : Follows m K e r r' c)
    (hf : ∀ a a' c', e a' = e a → Follows m' K' e' (f a) (f' a') c')
    (hK : ∀ a, K a → m'.Pins) : Follows (m.andThen m') K' e' (r >>= f) (r' >>= f') c := by
  intro hc b c'' hrun
  rw [StateT.run_bind] at hrun
  rcases hrun' : r.run c with _ | ⟨a, c'⟩
  case error => simp [hrun', Bind.bind, Except.bind] at hrun
  rw [hrun'] at hrun
  have h := hr hc hrun'
  have hb := hf a a c' rfl h.rests hrun
  refine ⟨hb.rests, h.moves.andThen hb.moves, fun hs hset hclear ht => ?_⟩
  obtain ⟨a', d', hd, he, ht⟩ := h.mirror hs (hb.moves.reaches.settled hset)
    (fun hk => hb.moves.isClear (hK a hk) hset hclear) ht
  obtain ⟨b', d'', hd', he', ht'⟩ := (hf a a' c' he h.rests hrun).mirror hs hset hclear ht
  exact ⟨b', d'', (run_bind_of_ok hd).trans hd', he', ht'⟩

theorem map {g : α → β} (hr : Follows m K e r r' c)
    (hg : ∀ {a a'}, e a' = e a → e' (g a') = e' (g a)) (hK : ∀ a, K a → K' (g a)) :
    Follows m K' e' (g <$> r) (g <$> r') c := by
  intro hc b c' hrun
  rw [StateT.run_map] at hrun
  rcases hrun' : r.run c with _ | ⟨a, c''⟩
  case error => simp [hrun', Functor.map, Except.map] at hrun
  rw [hrun'] at hrun
  cases hrun
  have h := hr hc hrun'
  refine ⟨h.rests, h.moves.imp (hK a), fun hs hset hclear ht => ?_⟩
  obtain ⟨a', d', hd, he, ht⟩ := h.mirror hs hset (hclear ∘ hK a) ht
  refine ⟨g a', d', ?_, hg he, ht⟩
  rw [StateT.run_map, hd]
  rfl

theorem discard {e : Unit → δ} (hr : Follows m Loose id r r' c) :
    Follows m Loose e (discard r) (discard r') c :=
  hr.map (fun _ => rfl) nofun

theorem map_bind {g : α → β} {f f' : β → Rule γ} {K : γ → Prop} {e : γ → δ}
    (h : Follows m K e (r >>= fun a => f (g a)) (r' >>= fun a => f' (g a)) c) :
    Follows m K e (g <$> r >>= f) (g <$> r' >>= f') c := by
  rwa [bind_map_left, bind_map_left]

-- The common ways to go on.

theorem eats_bind (hr : Follows .eats Loose e r r' c)
    (hf : ∀ a a' c', e a' = e a → Follows .ends K' e' (f a) (f' a') c') :
    Follows m K' e' (r >>= f) (r' >>= f') c :=
  of_eats (hr.bind hf nofun)

theorem eats_bind_holds (hr : Follows .eats K e r r' c)
    (hf : ∀ a a' c', e a' = e a → Follows .holds K' e' (f a) (f' a') c') :
    Follows m K' e' (r >>= f) (r' >>= f') c :=
  of_eats (hr.bind hf fun _ _ => trivial)

theorem stays_bind (hr : Follows .stays Loose e r r' c)
    (hf : ∀ a a' c', e a' = e a → Follows m K' e' (f a) (f' a') c') :
    Follows m K' e' (r >>= f) (r' >>= f') c :=
  hr.bind hf nofun

theorem holds_bind (hr : Follows .holds K e r r' c) (hm : m.Pins)
    (hf : ∀ a a' c', e a' = e a → Follows m K' e' (f a) (f' a') c') :
    Follows m K' e' (r >>= f) (r' >>= f') c :=
  hr.bind hf fun _ _ => hm

theorem ends_bind (hr : Follows .ends K e r r' c)
    (hf : ∀ a a' c', e a' = e a → Follows .holds K' e' (f a) (f' a') c') :
    Follows .ends K' e' (r >>= f) (r' >>= f') c :=
  hr.bind hf fun _ _ => trivial

/-! ### Reading -/

theorem run_read {τ : Type} {x : Rule τ} {get : Cursor → τ} (hx : ∀ c, x.run c = .ok (get c, c))
    (f : τ → Rule β) (c : Cursor) : (x >>= f).run c = (f (get c)).run c :=
  run_bind_of_ok (hx c)

theorem run_get_ite (b : Cursor → Bool) (y z : Rule α) (c : Cursor) :
    (get >>= fun c => if b c then y else z : Rule α).run c = if b c then y.run c else z.run c := by
  rw [run_read (x := get) fun _ => rfl]
  split <;> rfl

-- What is read from the cursors may differ.
theorem read {τ : Type} {x x' : Rule τ} {get get' : Cursor → τ} {f f' : τ → Rule β}
    (hx : ∀ c, x.run c = .ok (get c, c)) (hx' : ∀ c, x'.run c = .ok (get' c, c))
    (hf : ∀ t t', Follows m K' e' (f t) (f' t') c) :
    Follows m K' e' (x >>= f) (x' >>= f') c := by
  intro hc b c' hr
  rw [run_read hx] at hr
  have h := hf _ (get c) hc hr
  refine ⟨h.rests, h.moves, fun {_ _ d} hs hset hclear ht => ?_⟩
  rw [run_read hx']
  exact (hf _ (get' d) hc hr).mirror hs hset hclear ht

theorem start {f f' : Nat → Rule β} (hf : ∀ s s', Follows m K' e' (f s) (f' s') c) :
    Follows m K' e' (Rule.start >>= f) (Rule.start >>= f') c :=
  read (fun _ => rfl) (fun _ => rfl) hf

theorem spanFrom {s s' : Nat} {f f' : Span → Rule β}
    (hf : ∀ s s', Follows m K' e' (f s) (f' s') c) :
    Follows m K' e' (Rule.spanFrom s >>= f) (Rule.spanFrom s' >>= f') c :=
  read (fun _ => rfl) (fun _ => rfl) hf

section seen

variable {σ : Type} {s : Cursor → σ} {x x' : Rule β} {f f' : σ → Rule β}

-- A rule may look at the cursor before it goes on. Where the cursors are level it sees the same.
theorem seen_pins (hx : x.run c = (f (s c)).run c) (hx' : ∀ d, x'.run d = (f' (s d)).run d)
    (hs : ∀ {semicolon places d}, Level semicolon places c d → s d = s c) (hm : m.Pins)
    (hf : Follows m K' e' (f (s c)) (f' (s c)) c) : Follows m K' e' x x' c := by
  intro hc b c' hr
  rw [hx] at hr
  have h := hf hc hr
  refine ⟨h.rests, h.moves, fun {_ _ d} hsemi hset hclear ht => ?_⟩
  rw [hx', hs (ht.level (h.moves.isClear hm hset hclear))]
  exact h.mirror hsemi hset hclear ht

-- Where the second cursor may stand before a semicolon, tokens are consumed by the first run, or both
-- runs stay.
theorem seen (hx : x.run c = (f (s c)).run c) (hx' : ∀ d, x'.run d = (f' (s d)).run d)
    (hs : ∀ {semicolon places d}, Level semicolon places c d → s d = s c)
    (hf : Follows .eats K' e' (f (s c)) (f' (s c)) c ∨
      Follows m K' e' (f (s c)) (f' (s c)) c ∧
        ∀ {d : Cursor}, d.current.IsSemicolon → Follows m K' e' (f (s c)) (f' (s d)) c) :
    Follows m K' e' x x' c := by
  rcases hf with hf | ⟨hlevel, hwaits⟩
  case inl => exact of_eats (seen_pins hx hx' hs trivial hf)
  case inr =>
    intro hc b c' hr
    rw [hx] at hr
    have h := hlevel hc hr
    refine ⟨h.rests, h.moves, fun {_ places d} hsemi hset hclear ht => ?_⟩
    rw [hx']
    by_cases hc' : c.IsClear places
    case pos => exact hs (ht.level hc') ▸ h.mirror hsemi hset hclear ht
    case neg => exact (hwaits (ht.waits hc').current hc hr).mirror hsemi hset hclear ht

variable {τ : Type} {x : Rule τ} {get : Cursor → τ} {f f' : τ → Rule β}

theorem read_pins (hx : ∀ c, x.run c = .ok (get c, c))
    (hget : ∀ {semicolon places d}, Level semicolon places c d → get d = get c) (hm : m.Pins)
    (hf : Follows m K' e' (f (get c)) (f' (get c)) c) :
    Follows m K' e' (x >>= f) (x >>= f') c :=
  seen_pins (run_read hx f c) (run_read hx f') hget hm hf

theorem read_seen (hx : ∀ c, x.run c = .ok (get c, c))
    (hget : ∀ {semicolon places d}, Level semicolon places c d → get d = get c)
    (hf : Follows .eats K' e' (f (get c)) (f' (get c)) c ∨
      Follows m K' e' (f (get c)) (f' (get c)) c ∧
        ∀ {d : Cursor}, d.current.IsSemicolon → Follows m K' e' (f (get c)) (f' (get d)) c) :
    Follows m K' e' (x >>= f) (x >>= f') c :=
  seen (run_read hx f c) (run_read hx f') hget hf

end seen

-- A test that fails before a semicolon. Where it holds, tokens are consumed.
theorem test_ite {x : Rule Bool} {b : Cursor → Bool} {y z y' z' : Rule β}
    (hx : ∀ c, x.run c = .ok (b c, c))
    (hlevel : ∀ {semicolon places d}, Level semicolon places c d → b d = b c)
    (hsemi : ∀ {d : Cursor}, d.current.IsSemicolon → b d = false)
    (hy : b c = true → Follows .eats K' e' y y' c) (hz : b c = false → Follows m K' e' z z' c) :
    Follows m K' e' (x >>= fun b => if b then y else z) (x >>= fun b => if b then y' else z') c := by
  refine read_seen hx hlevel ?_
  cases hb : b c
  case true => exact .inl (hy hb)
  case false => exact .inr ⟨hz hb, fun hd => by simpa [hsemi hd] using hz hb⟩

section tokens

variable {kind : TokenKind} {y z y' z' : Rule α}

theorem isAtEnd_ite (hy : c.current.kind = .endOfInput → Follows .eats K e y y' c)
    (hz : Follows m K e z z' c) :
    Follows m K e (Rule.isAtEnd >>= fun b => if b then y else z)
      (Rule.isAtEnd >>= fun b => if b then y' else z') c :=
  test_ite (fun _ => rfl) (fun h => congrArg (·.kind == _) h.current)
    (fun h => by simp [Cursor.isAtEnd, h.kind]) (fun h => hy (beq_iff_eq.mp h)) fun _ => hz

theorem check_ite (hk : kind ≠ .operator .semicolon)
    (hy : c.current.kind = kind → Follows .eats K e y y' c)
    (hz : c.current.kind ≠ kind → Follows m K e z z' c) :
    Follows m K e (Rule.check kind >>= fun b => if b then y else z)
      (Rule.check kind >>= fun b => if b then y' else z') c :=
  test_ite (fun _ => rfl) (fun h => congrArg (·.kind == _) h.current)
    (fun h => by simpa [h.kind] using hk.symm) (fun h => hy (beq_iff_eq.mp h))
    fun h => hz (by simpa using h)

-- The same where the place that is left is clear; then the token that is asked for may be a semicolon.
theorem check_ite_pins (hm : m.Pins) (hy : c.current.kind = kind → Follows m K e y y' c)
    (hz : c.current.kind ≠ kind → Follows m K e z z' c) :
    Follows m K e (Rule.check kind >>= fun b => if b then y else z)
      (Rule.check kind >>= fun b => if b then y' else z') c := by
  refine read_pins (fun _ => rfl) (fun h => congrArg (·.kind == _) h.current) hm ?_
  split
  case isTrue h => exact hy (by simpa using h)
  case isFalse h => exact hz (by simpa using h)

theorem isAtEnd_ite_pins (hm : m.Pins) (hy : Follows m K e y y' c) (hz : Follows m K e z z' c) :
    Follows m K e (Rule.isAtEnd >>= fun b => if b then y else z)
      (Rule.isAtEnd >>= fun b => if b then y' else z') c := by
  refine read_pins (fun _ => rfl) (fun h => congrArg (·.kind == _) h.current) hm ?_
  split
  · exact hy
  · exact hz

-- What follows from the current token where the place that is left is clear.
theorem current_pins {f f' : Token → Rule α} (hm : m.Pins)
    (hf : Follows m K e (f c.current) (f' c.current) c) :
    Follows m K e (Rule.current >>= f) (Rule.current >>= f') c :=
  read_pins (fun _ => rfl) (·.current) hm hf

theorem current {f f' : Token → Rule α}
    (hf : Follows .eats K e (f c.current) (f' c.current) c ∨
      Follows m K e (f c.current) (f' c.current) c ∧
        ∀ {d : Cursor}, d.current.IsSemicolon → Follows m K e (f c.current) (f' d.current) c) :
    Follows m K e (Rule.current >>= f) (Rule.current >>= f') c :=
  read_seen (fun _ => rfl) (·.current) hf

theorem unexpected : Follows m K e Rule.unexpected Rule.unexpected c :=
  fails fun _ h => by cases h

theorem advance (hk : c.current.kind ≠ .endOfInput) :
    Follows .eats Loose id Rule.advance Rule.advance c := by
  intro hc t c' hr
  cases hr
  have heats := hc.eats_advance hk
  refine ⟨hc.advance, heats, fun {_ _ d} hs hset _ ht => ⟨_, d.advance, rfl, ?_, ?_⟩⟩
  · exact (ht.level (heats.isClear hset)).current
  · exact (ht.level (heats.isClear hset)).advance hs hc hk

-- What consumes the current token whatever it is, and has no result at the end of input.
theorem advance_bind {f f' : Token → Rule α}
    (hend : c.current.kind = .endOfInput → ∀ c' x, (f c.current).run c' ≠ .ok x)
    (hf : ∀ c', Follows .ends K e (f c.current) (f' c.current) c') :
    Follows m K e (Rule.advance >>= f) (Rule.advance >>= f') c := by
  by_cases hk : c.current.kind = .endOfInput
  case pos =>
    refine fails fun x h => hend hk c.advance x ?_
    rwa [StateT.run_bind] at h
  case neg =>
    intro hc a c' hr
    have heats := hc.eats_advance hk
    have h := hf c.advance hc.advance hr
    refine ⟨h.rests, .of_eats (heats.trans h.moves), fun hs hset hclear ht => ?_⟩
    have hl := ht.level ((heats.trans h.moves).isClear hset)
    rw [StateT.run_bind]
    have := h.mirror hs hset hclear (hl.advance hs hc hk)
    rwa [← hl.current] at this

theorem skip_bind {f f' : Rule α} (hk : c.current.kind ≠ .endOfInput)
    (hf : ∀ c, Follows .ends K e f f' c) :
    Follows m K e (Functor.discard Rule.advance >>= fun _ => f)
      (Functor.discard Rule.advance >>= fun _ => f') c :=
  (advance hk).discard.eats_bind (e := fun _ => ()) fun _ _ _ _ => hf _

theorem expect (hk : kind ≠ .endOfInput) :
    Follows .eats Loose id (Rule.expect kind) (Rule.expect kind) c :=
  check_ite_pins trivial (fun h => advance (h ▸ hk)) fun _ => unexpected

theorem expect_run (hk : c.current.kind = kind) :
    (Rule.expect kind).run c = .ok (c.current, c.advance) := by
  rw [Rule.expect, run_read (x := check _) fun _ => rfl, if_pos (by simp [hk])]
  rfl

theorem expect_skip_run (hk : c.current.kind = kind) :
    (Functor.discard (Rule.expect kind)).run c = .ok ((), c.advance) := by
  show ((fun _ => ()) <$> Rule.expect kind).run c = _
  rw [StateT.run_map, expect_run hk]
  rfl

theorem accept_run_of_eq (hk : c.current.kind = kind) :
    (Rule.accept kind).run c = .ok (true, c.advance) := by
  rw [Rule.accept, run_read (x := check _) fun _ => rfl, if_pos (by simp [hk])]
  rfl

theorem accept_run_of_ne (hk : c.current.kind ≠ kind) :
    (Rule.accept kind).run c = .ok (false, c) := by
  rw [Rule.accept, run_read (x := check _) fun _ => rfl, if_neg (by simp [hk])]
  rfl

-- The next token must be of a kind, and is consumed.
theorem expecting {f f' : Rule α} (hk : kind ≠ .endOfInput)
    (hf : ∀ c, Follows .ends K e f f' c) :
    Follows m K e (Functor.discard (Rule.expect kind) >>= fun _ => f)
      (Functor.discard (Rule.expect kind) >>= fun _ => f') c :=
  (expect hk).discard.eats_bind (e := fun _ => ()) fun _ _ _ _ => hf _

theorem accept (hk : kind ≠ .operator .semicolon ∧ kind ≠ .endOfInput) :
    Follows .stays Loose id (Rule.accept kind) (Rule.accept kind) c :=
  check_ite hk.left (fun h => skip_bind (h ▸ hk.right) fun _ => pure trivial rfl)
    fun _ => pure trivial rfl

theorem accept_bind_ite (kind : TokenKind) (y z : Rule α) :
    (Rule.accept kind >>= fun b => if b then y else z) =
      Rule.check kind >>= fun b => if b then Functor.discard Rule.advance >>= fun _ => y else z := by
  rw [Rule.accept, bind_assoc]
  congr
  funext b
  cases b <;> simp

-- A branch on the kind of the current token, which is consumed if it is the one that is asked for.
theorem accept_ite (hk : kind ≠ .operator .semicolon ∧ kind ≠ .endOfInput)
    (hy : ∀ c, Follows .ends K e y y' c) (hz : c.current.kind ≠ kind → Follows m K e z z' c) :
    Follows m K e (Rule.accept kind >>= fun b => if b then y else z)
      (Rule.accept kind >>= fun b => if b then y' else z') c := by
  rw [accept_bind_ite, accept_bind_ite]
  exact check_ite hk.left (fun h => skip_bind (h ▸ hk.right) hy) hz

end tokens

-- A loop moves as its rounds do. A round that must end clear has to be followed by rounds that leave
-- no place that is not.
theorem loop {limit limit' : Nat} {round round' : α → Rule (Round α β)} {K : Round α β → Prop}
    (hround : ∀ a a' c, e a' = e a → Follows m K (Round.map e e') (round a) (round' a') c)
    (hK : ∀ a, K (.again a) → m.Pins) (hlimit : limit ≤ limit') {a a' : α} (ha : e a' = e a) :
    Follows m (fun b => K (.finish b)) e' (Rule.loop limit round a) (Rule.loop limit' round' a') c := by
  induction limit generalizing limit' a a' c
  case zero => exact fails fun _ h => by cases h
  case succ limit ih =>
    obtain ⟨limit', rfl⟩ := Nat.exists_eq_succ_of_ne_zero (Nat.ne_zero_of_lt hlimit)
    have ih {s s' c} (hs : e s' = e s) : Follows m (fun b => K (.finish b)) e'
        (Rule.loop limit round s) (Rule.loop limit' round' s') c :=
      ih (Nat.le_of_succ_le_succ hlimit) hs
    intro hc b c' hrun
    rw [Rule.loop, StateT.run_bind] at hrun
    rcases hrun' : (round a).run c with _ | ⟨r, c''⟩
    case error => simp [hrun', Bind.bind, Except.bind] at hrun
    rw [hrun'] at hrun
    have h := hround a a' c ha hc hrun'
    cases r
    case finish =>
      cases hrun
      refine ⟨h.rests, h.moves, fun hs hset hclear ht => ?_⟩
      obtain ⟨_ | b', d', hd, he, ht⟩ := h.mirror hs hset hclear ht
      case again => cases he
      refine ⟨b', d', ?_, Round.finish.inj he, ht⟩
      rw [Rule.loop, StateT.run_bind, hd]
      rfl
    case again s =>
      have hs := ih rfl h.rests hrun
      refine ⟨hs.rests, m.andThen_self ▸ h.moves.andThen hs.moves, fun hsemi hset hclear ht => ?_⟩
      obtain ⟨s' | _, d', hd, he, ht⟩ := h.mirror hsemi (hs.moves.reaches.settled hset)
        (fun hk => hs.moves.isClear (hK s hk) hset hclear) ht
      case finish => cases he
      obtain ⟨b', d'', hd', he, ht⟩ :=
        (ih (Round.again.inj he) h.rests hrun).mirror hsemi hset hclear ht
      refine ⟨b', d'', ?_, he, ht⟩
      rw [Rule.loop, StateT.run_bind, hd]
      exact hd'

-- A loop consumes tokens if its first round does.
theorem loop_of_first {limit limit' : Nat} {round round' : α → Rule (Round α β)} {a a' : α}
    (hfirst : Follows .eats Loose (Round.map e e') (round a) (round' a') c)
    (hround : ∀ a a' c, e a' = e a → Follows .stays Loose (Round.map e e') (round a) (round' a') c)
    (hlimit : limit ≤ limit') :
    Follows .eats Loose e' (Rule.loop limit round a) (Rule.loop limit' round' a') c := by
  cases limit
  case zero => exact fails fun _ h => by cases h
  case succ limit =>
    obtain ⟨limit', rfl⟩ := Nat.exists_eq_succ_of_ne_zero (Nat.ne_zero_of_lt hlimit)
    refine eats_bind hfirst fun r r' c hr => ?_
    cases r <;> cases r'
    case again.again =>
      have := loop (c := c) hround nofun (Nat.le_of_succ_le_succ hlimit) (Round.again.inj hr)
      exact this.of_moves Move.Holds.reaches
    case finish.finish => exact pure trivial (Round.finish.inj hr)
    case again.finish | finish.again => cases hr

-- A rule may look further ahead than the current token. Where the second run finds there what the test
-- asks for, the first one does too, and the other way round if what it found is consumed.
theorem peek_ite {x y z x' y' z' : Rule α} {b : Cursor → Bool}
    (hx : x.run c = if b c then y.run c else z.run c)
    (hx' : ∀ {semicolon places d}, Level semicolon places c d →
      x'.run d = if b d then y'.run d else z'.run d) (hm : m.Pins)
    (hof : ∀ {semicolon places d}, (∀ t, (semicolon t).IsSemicolon) → c.Rests →
      Level semicolon places c d → b d → b c)
    (hto : ∀ {semicolon places d a c'}, (∀ t, (semicolon t).IsSemicolon) → c.Rests →
      Level semicolon places c d → y.run c = .ok (a, c') → c'.Settled places → b c → b d)
    (hy : b c → Follows m K e y y' c) (hz : Follows m K e z z' c) : Follows m K e x x' c := by
  intro hc a c' hr
  rw [hx] at hr
  split at hr
  case isTrue hb =>
    have h := hy hb hc hr
    refine ⟨h.rests, h.moves, fun hs hset hclear ht => ?_⟩
    have hl := ht.level (h.moves.isClear hm hset hclear)
    rw [hx' hl, if_pos (hto hs hc hl hr hset hb)]
    exact h.mirror hs hset hclear ht
  case isFalse hb =>
    have h := hz hc hr
    refine ⟨h.rests, h.moves, fun hs hset hclear ht => ?_⟩
    have hl := ht.level (h.moves.isClear hm hset hclear)
    rw [hx' hl, if_neg fun hd => hb (hof hs hc hl hd)]
    exact h.mirror hs hset hclear ht

/-! ### Terminators -/

theorem terminator_run_of_semicolon (hk : c.current.kind = .operator .semicolon) :
    Rule.terminator.run c = .ok ((), c.skipSemicolons) := by
  rw [Rule.terminator, run_read (x := Rule.isAtEnd) fun _ => rfl, run_read (x := check _) fun _ => rfl,
    if_neg (by simp [Cursor.isAtEnd, hk]), run_read (x := check _) fun _ => rfl, if_pos (by simp [hk])]
  rfl

-- Does a statement end here without a semicolon?
def endsStatement (c : Cursor) : Bool :=
  c.isAtEnd || c.current.kind == .operator .rightBrace || c.hasPassedTerminator

theorem endsStatement_imp {c d : Cursor} (hk : d.current = c.current)
    (h : c.hasPassedTerminator → d.hasPassedTerminator) (hc : endsStatement c) : endsStatement d := by
  simp only [endsStatement, Cursor.isAtEnd, hk, Bool.or_eq_true] at hc ⊢
  exact hc.imp_right h

theorem terminator_run_of_ne (hk : c.current.kind ≠ .operator .semicolon) :
    Rule.terminator.run c =
      if endsStatement c then .ok ((), c.endStatement)
      else .error (.failed (.unexpected c.current)) := by
  rw [Rule.terminator, run_read (x := Rule.isAtEnd) fun _ => rfl, run_read (x := check _) fun _ => rfl,
    endsStatement]
  split
  case isTrue h =>
    rw [if_pos (by simp_all)]
    rfl
  case isFalse h =>
    rw [run_read (x := check _) fun _ => rfl, if_neg (by simp [hk]), run_read (x := get) fun _ => rfl]
    simp only [Bool.not_eq_true] at h
    rw [h, Bool.false_or]
    split <;> rfl

theorem terminator : Follows .ends Clear id Rule.terminator Rule.terminator c := by
  intro hc a c' hr
  by_cases hk : c.current.kind = .operator .semicolon
  case pos =>
    rw [terminator_run_of_semicolon hk] at hr
    cases hr
    have heats : c.Eats c.skipSemicolons :=
      ⟨hc.lt_skipSemicolons_passed hk, fun _ hp _ => skipSemicolons_implied c ▸ hp⟩
    refine ⟨hc.skipSemicolons, heats.reaches, fun {_ _ d} _ hset hclear ht => ?_⟩
    have hl := ht.level (heats.isClear hset)
    refine ⟨(), d.skipSemicolons, terminator_run_of_semicolon (hl.current ▸ hk), rfl, ?_⟩
    exact ⟨fun hclear => hl.skipSemicolons hc hset hclear, absurd (hclear trivial)⟩
  case neg =>
    rw [terminator_run_of_ne hk] at hr
    split at hr
    case isFalse => cases hr
    case isTrue hends =>
      cases hr
      refine ⟨?_, ⟨Nat.le_refl _, ?_⟩, fun {_ places d} _ _ hclear ht => ?_⟩
      · exact ⟨hc.ending, hc.current, List.forall_mem_cons.mpr ⟨Nat.le_refl _, hc.implied⟩⟩
      · intro p hp hlt
        exact (List.mem_cons.mp hp).resolve_left (Nat.ne_of_lt hlt)
      · by_cases hc' : c.IsClear places
        case pos =>
          have hl := ht.level hc'
          have hends := endsStatement_imp hl.current hl.hasPassedTerminator hends
          refine ⟨(), d.endStatement, ?_, rfl, ?_⟩
          · rw [terminator_run_of_ne (hl.current ▸ hk), if_pos hends]
          · exact ⟨fun _ => ⟨hl.ending, hl.ahead, hl.trivia, hl.behind⟩, absurd (hclear trivial)⟩
        case neg =>
          have hw := ht.waits hc'
          refine ⟨(), d.skipSemicolons, terminator_run_of_semicolon hw.current.kind, rfl, ?_⟩
          exact ⟨fun _ => hw.skipSemicolons hc hk, absurd (hclear trivial)⟩

end Follows

end Rule
end ScriptTree
