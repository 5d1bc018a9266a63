import ScriptTree.Proofs.Parse.Follows
import ScriptTree.Proofs.Parse.Signs

/-!
Runs of a rule that are known to have a result, from the signs that are ahead.
-/

namespace ScriptTree.Rule

open Cursor

variable {α β γ δ : Type}

-- The rule has a result from here, `b` apart from what `e` erases, and leaves `ss` ahead.
def Reads (e : α → γ) (r : Rule α) (c : Cursor) (b : γ) (ss : List Sign) : Prop :=
  ∃ a c', r.run c = .ok (a, c') ∧ e a = b ∧ c'.Shows ss

namespace Reads

variable {e : α → γ} {e' : β → δ} {r : Rule α} {f : α → Rule β} {c : Cursor} {b : γ} {b' : δ}
variable {s s' : Sign} {ss ss' : List Sign} {kind : TokenKind}

theorem pure {a : α} (hc : c.Shows ss) (ha : e a = b) : Reads e (pure a) c b ss :=
  ⟨a, c, rfl, ha, hc⟩

theorem bind (hr : Reads e r c b ss)
    (hf : ∀ a c', e a = b → c'.Shows ss → Reads e' (f a) c' b' ss') :
    Reads e' (r >>= f) c b' ss' := by
  obtain ⟨a, c', hrun, ha, hc⟩ := hr
  obtain ⟨a', c'', hrun', h⟩ := hf a c' ha hc
  exact ⟨a', c'', (Follows.run_bind_of_ok hrun).trans hrun', h⟩

-- What comes behind a run that is known.
theorem run_bind {a : α} {c' : Cursor} (hr : r.run c = .ok (a, c')) (hf : Reads e' (f a) c' b' ss') :
    Reads e' (r >>= f) c b' ss' :=
  have ⟨x, c'', hrun, h⟩ := hf
  ⟨x, c'', (Follows.run_bind_of_ok hr).trans hrun, h⟩

theorem map {g : α → β} (hr : Reads e r c b ss) (hg : ∀ a, e a = b → e' (g a) = b') :
    Reads e' (g <$> r) c b' ss := by
  rw [← bind_pure_comp]
  exact hr.bind fun a c' ha hc => .pure hc (hg a ha)

theorem map_bind {g : α → β} {f : β → Rule δ} {e' : δ → γ} {b' : γ}
    (h : Reads e' (r >>= fun a => f (g a)) c b' ss) : Reads e' (g <$> r >>= f) c b' ss := by
  rwa [bind_map_left]

theorem congr_run {r' : Rule α} (h : r.run c = r'.run c) (hr : Reads e r' c b ss) :
    Reads e r c b ss := by
  rwa [Reads, h]

/-! ### Looking -/

-- A rule may look at the cursor before it goes on.
theorem read {τ : Type} {x : Rule τ} {get : Cursor → τ} {f : τ → Rule β}
    (hx : ∀ c, x.run c = .ok (get c, c)) (hf : Reads e' (f (get c)) c b' ss) :
    Reads e' (x >>= f) c b' ss := by
  obtain ⟨a, c', hrun, h⟩ := hf
  exact ⟨a, c', (Follows.run_read hx f c).trans hrun, h⟩

theorem start {f : Nat → Rule β} (hf : ∀ start, Reads e' (f start) c b' ss) :
    Reads e' (Rule.start >>= f) c b' ss :=
  read (fun _ => rfl) (hf _)

theorem spanFrom {start : Nat} {f : Span → Rule β} (hf : ∀ span, Reads e' (f span) c b' ss) :
    Reads e' (Rule.spanFrom start >>= f) c b' ss :=
  read (fun _ => rfl) (hf _)

theorem current {f : Token → Rule β} (hf : Reads e' (f c.current) c b' ss) :
    Reads e' (Rule.current >>= f) c b' ss :=
  read (fun _ => rfl) hf

theorem check_ite_of_eq {x y : Rule β} (hc : c.Shows (s :: ss')) (hk : s.kind = kind)
    (hx : Reads e' x c b' ss) : Reads e' (check kind >>= fun b => if b then x else y) c b' ss := by
  refine read (fun _ => rfl) ?_
  rwa [if_pos (by rw [hc.kind, hk, beq_self_eq_true])]

theorem check_ite_of_ne {x y : Rule β} (hc : c.Shows (s :: ss')) (hk : s.kind ≠ kind)
    (hy : Reads e' y c b' ss) : Reads e' (check kind >>= fun b => if b then x else y) c b' ss := by
  refine read (fun _ => rfl) ?_
  rwa [if_neg (by simpa [hc.kind] using hk)]

theorem isAtEnd_ite_of_eq {x y : Rule β} (hc : c.Shows (s :: ss')) (hk : s.kind = .endOfInput)
    (hx : Reads e' x c b' ss) : Reads e' (isAtEnd >>= fun b => if b then x else y) c b' ss :=
  check_ite_of_eq hc hk hx

theorem isAtEnd_ite_of_ne {x y : Rule β} (hc : c.Shows (s :: ss')) (hk : s.kind ≠ .endOfInput)
    (hy : Reads e' y c b' ss) : Reads e' (isAtEnd >>= fun b => if b then x else y) c b' ss :=
  check_ite_of_ne hc hk hy

/-! ### Consuming -/

theorem advance (hc : c.Shows (s :: ss)) (hk : s.kind ≠ .endOfInput) :
    Reads id Rule.advance c c.current ss :=
  ⟨_, _, rfl, rfl, hc.advance hk⟩

theorem advance_bind {f : Token → Rule β} (hc : c.Shows (s :: ss)) (hk : s.kind ≠ .endOfInput)
    (hf : ∀ c', c'.Shows ss → Reads e' (f c.current) c' b' ss') :
    Reads e' (Rule.advance >>= f) c b' ss' :=
  (advance hc hk).bind fun t _ (ht : t = _) hc => ht ▸ hf _ hc

theorem skip_bind {f : Rule β} (hc : c.Shows (s :: ss)) (hk : s.kind ≠ .endOfInput)
    (hf : ∀ c', c'.Shows ss → Reads e' f c' b' ss') :
    Reads e' (discard Rule.advance >>= fun _ => f) c b' ss' :=
  map_bind (advance_bind hc hk hf)

theorem expect (hc : c.Shows (s :: ss)) (hk : s.kind = kind) (he : kind ≠ .endOfInput) :
    Reads id (Rule.expect kind) c c.current ss :=
  ⟨_, _, Follows.expect_run (hc.kind.trans hk), rfl, hc.advance (hk ▸ he)⟩

-- The next token must be of a kind, and is.
theorem expecting {f : Rule β} (hc : c.Shows (s :: ss)) (hk : s.kind = kind)
    (he : kind ≠ .endOfInput) (hf : ∀ c', c'.Shows ss → Reads e' f c' b' ss') :
    Reads e' (discard (Rule.expect kind) >>= fun _ => f) c b' ss' :=
  map_bind ((expect hc hk he).bind fun _ _ _ hc => hf _ hc)

theorem accept_ite_of_eq {x y : Rule β} (hc : c.Shows (s :: ss)) (hk : s.kind = kind)
    (he : kind ≠ .endOfInput) (hx : ∀ c', c'.Shows ss → Reads e' x c' b' ss') :
    Reads e' (accept kind >>= fun b => if b then x else y) c b' ss' := by
  rw [Follows.accept_bind_ite]
  exact check_ite_of_eq hc hk (skip_bind hc (hk ▸ he) hx)

theorem accept_ite_of_ne {x y : Rule β} (hc : c.Shows (s :: ss')) (hk : s.kind ≠ kind)
    (hy : Reads e' y c b' ss) :
    Reads e' (accept kind >>= fun b => if b then x else y) c b' ss := by
  rw [Follows.accept_bind_ite]
  exact check_ite_of_ne hc hk hy

-- A statement ends with one semicolon.
theorem terminator {f : Rule β} (hc : c.Shows (s :: s' :: ss)) (hk : s.kind = .operator .semicolon)
    (hk' : s'.kind ≠ .operator .semicolon)
    (hf : ∀ c', c'.Shows (s' :: ss) → Reads e' f c' b' ss') :
    Reads e' (Rule.terminator >>= fun _ => f) c b' ss' :=
  bind (e := fun _ => ()) (b := ())
    ⟨_, _, Follows.terminator_run_of_semicolon (hc.kind.trans hk), rfl,
      hc.skipSemicolons hk hk'⟩ fun _ _ _ hc => hf _ hc

/-! ### Loops -/

section loop

variable {limit limit' : Nat} {round : α → Rule (Round α β)} {a : α}

-- More rounds than needed do no harm.
theorem loop_run_mono {x : β × Cursor} (h : (loop limit round a).run c = .ok x)
    (hle : limit ≤ limit') : (loop limit' round a).run c = .ok x := by
  induction limit generalizing limit' a c
  case zero => cases h
  case succ limit ih =>
    obtain ⟨limit', rfl⟩ := Nat.exists_eq_add_one_of_ne_zero (Nat.ne_zero_of_lt hle)
    rw [loop, StateT.run_bind] at h ⊢
    rcases hround : (round a).run c with _ | ⟨r, c'⟩
    case error => simp [hround, Bind.bind, Except.bind] at h
    rw [hround] at h
    cases r
    case again a => exact ih h (Nat.le_of_succ_le_succ hle)
    case finish => exact h

theorem loop_run_again {a' : α} {c' : Cursor} (h : (round a).run c = .ok (.again a', c')) :
    (loop (limit + 1) round a).run c = (loop limit round a').run c' := by
  rw [loop, Follows.run_bind_of_ok h]

theorem loop_run_finish {x : β} {c' : Cursor} (h : (round a).run c = .ok (.finish x, c')) :
    (loop (limit + 1) round a).run c = .ok (x, c') := by
  rw [loop, Follows.run_bind_of_ok h]
  rfl

-- A round that asks for another one.
theorem loop_again {ε : Type} {k : β → ε} (hr : Reads (Round.map e k) (round a) c (.again b) ss)
    (hl : ∀ a' c', e a' = b → c'.Shows ss → Reads e' (loop limit round a') c' b' ss') :
    Reads e' (loop (limit + 1) round a) c b' ss' := by
  refine hr.bind fun r c' hr hc => ?_
  cases r
  case again a' => exact hl a' c' (Round.again.inj hr) hc
  case finish => cases hr

-- The last round.
theorem loop_finish {ε : Type} {k : α → ε}
    (hr : Reads (Round.map k e') (round a) c (.finish b') ss) :
    Reads e' (loop (limit + 1) round a) c b' ss := by
  refine hr.bind fun r c' hr hc => ?_
  cases r
  case again => cases hr
  case finish x => exact .pure hc (Round.finish.inj hr)

-- Rounds before what comes after the loop.

theorem loop_again_bind {ε : Type} {k : β → ε} {f : β → Rule δ} {e'' : δ → γ} {b'' : γ}
    (hr : Reads (Round.map e k) (round a) c (.again b) ss)
    (hl : ∀ a' c', e a' = b → c'.Shows ss →
      Reads e'' (loop limit round a' >>= f) c' b'' ss') :
    Reads e'' (loop (limit + 1) round a >>= f) c b'' ss' := by
  obtain ⟨r, c', hrun, hr, hc⟩ := hr
  cases r
  case again a' =>
    obtain ⟨x, c'', hrun', h⟩ := hl a' c' (Round.again.inj hr) hc
    refine ⟨x, c'', ?_, h⟩
    rw [StateT.run_bind, loop_run_again hrun, ← StateT.run_bind, hrun']
  case finish => cases hr

theorem loop_finish_bind {x : β} {f : β → Rule δ} {e'' : δ → γ} {b'' : γ}
    (hrun : (round a).run c = .ok (.finish x, c)) (h : Reads e'' (f x) c b'' ss') :
    Reads e'' (loop (limit + 1) round a >>= f) c b'' ss' := by
  obtain ⟨y, c', hrun', h⟩ := h
  exact ⟨y, c', (Follows.run_bind_of_ok (loop_run_finish hrun)).trans hrun', h⟩

end loop

end Reads
end ScriptTree.Rule
