import ScriptTree.Proofs.Parse.Spells.Operand

/-!
Signs that are read as a run of operands, a conditional, an assignment or a sequence.
-/

namespace ScriptTree

open Node Rule Grammar

/-! ### Runs of operands -/

namespace Grammar.OperandRun

variable {k : Nat} {pending : List (Node × Operator)} {left right n f : Node}
variable {run : OperandRun} {operator : Operator} {level : Nat} {span : Span}

-- Operators from level `k` on leave what is pending alone.
def Below (k : Nat) (pending : List (Node × Operator)) : Prop :=
  ∀ p ∈ pending, ¬p.2.level.any (k ≤ ·)

-- Folded by whatever takes all operators from level `k` on, the run is `n` behind what was pending.
def Settles (k : Nat) (pending : List (Node × Operator)) (n : Node) (run : OperandRun) : Prop :=
  ∀ takes : Operator → Bool, (∀ op : Operator, op.level.any (k ≤ ·) → takes op) →
    (fold takes run.pending run.last).bare = (fold takes pending n).bare

theorem any_le_mono {k' : Nat} {level : Option Nat} (hk : k' ≤ k) (h : level.any (k ≤ ·)) :
    level.any (k' ≤ ·) := by
  simp only [Option.any_eq_true, decide_eq_true_eq] at h ⊢
  exact h.imp fun _ h => ⟨h.1, Nat.le_trans hk h.2⟩

theorem Below.mono {k' : Nat} (h : Below k pending) (hk : k ≤ k') : Below k' pending :=
  fun p hp hany => h p hp (any_le_mono hk hany)

theorem fold_of_below (h : Below k pending) :
    fold (fun op => op.level.any (k ≤ ·)) pending n = ⟨pending, n⟩ := by
  cases pending
  case nil => rfl
  case cons p pending =>
    obtain ⟨left, operator⟩ := p
    rw [fold, if_neg (h _ (.head _))]

theorem Settles.refl (h : f.bare = n.bare) : Settles k pending n ⟨pending, f⟩ :=
  fun takes _ =>
    have h : OperandRun.bare ⟨pending, f⟩ = OperandRun.bare ⟨pending, n⟩ := by
      simp [OperandRun.bare, h]
    fold_of_bare takes h

theorem Settles.mono {k' : Nat} (h : Settles k pending n run) (hk : k' ≤ k) :
    Settles k' pending n run :=
  fun takes ht => h takes fun op hop => ht op (any_le_mono hk hop)

-- An operator takes a run as its left operand.
theorem Settles.push (h : Settles level pending left run) (hb : Below level pending) :
    (run.push operator level f).bare = OperandRun.bare ⟨(left, operator) :: pending, f⟩ := by
  have h := h (fun op => op.level.any (level ≤ ·)) fun _ hop => hop
  rw [fold_of_below hb] at h
  have hpending := congrArg OperandRun.pending h
  have hlast := congrArg OperandRun.last h
  simp only [OperandRun.bare] at hpending hlast
  simp [OperandRun.push, OperandRun.bare, hpending, hlast]

-- A run that is settled as the right operand of what is pending first.
theorem Settles.join (h : Settles (level + 1) ((left, operator) :: pending) right run)
    (hlevel : operator.level = some level) (hk : k ≤ level) :
    Settles k pending (.mk span (.binaryExpression left operator right)) run := by
  intro takes ht
  have htakes : takes operator := ht operator (by simp [hlevel, hk])
  have hjoin : OperandRun.bare ⟨pending, OperandRun.join left operator right⟩ =
      OperandRun.bare ⟨pending, .mk span (.binaryExpression left operator right)⟩ := by
    simp [OperandRun.bare, OperandRun.join, bare_mk]
  rw [h takes fun op hop => ht op (any_le_mono (by omega) hop), fold, if_pos htakes]
  exact fold_of_bare takes hjoin

theorem Settles.of_bare {run' : OperandRun} (h : Settles k pending n run) (hr : run'.bare = run.bare) :
    Settles k pending n run' :=
  fun takes ht => (fold_of_bare takes hr).trans (h takes ht)

theorem Settles.toNode (h : Settles k [] n run) : run.toNode.bare = n.bare :=
  last_of_bare (h (fun _ => true) fun _ _ => rfl)

end Grammar.OperandRun

open Grammar.OperandRun hiding bare push

variable {n : Node} {ts us : List Sign} {span : Span} {joinsIn : Bool} {k : Nat}

-- An operator, and the operand behind it.
structure Joined where
  sign     : Sign
  operator : Operator
  level    : Nat
  operand  : Node
  signs    : List Sign

namespace Joined

def push (run : OperandRun) (x : Joined) : OperandRun :=
  run.push x.operator x.level x.operand

-- The operator joins operands, and goes on with none.
structure Stands (joinsIn : Bool) (x : Joined) : Prop where
  operand  : IsOperand x.operand x.signs
  joins    : joiner? joinsIn x.sign.token = some (x.operator, x.level)
  function : x.sign.kind ≠ .keyword .functionWord
  stops    : ¬x.sign.Follows ⟨true, true, true⟩

def spelled (xs : List Joined) : List Sign :=
  xs.flatMap fun x => x.sign :: x.signs

theorem foldl_push_of_bare {run run' : OperandRun} (h : run'.bare = run.bare) (xs : List Joined) :
    (xs.foldl push run').bare = (xs.foldl push run).bare := by
  induction xs generalizing run run'
  case nil => exact h
  case cons x xs ih => exact ih (push_of_bare h rfl x.operator x.level)

end Joined

open ScriptTree.Joined

-- A first operand and others joined to it, which are `n` if all operators from level `k` on are folded.
def IsRun (joinsIn : Bool) (k : Nat) (n : Node) (ts : List Sign) : Prop :=
  ∃ f us xs, ts = us ++ spelled xs ∧ IsOperand f us ∧ (∀ x ∈ xs, x.Stands joinsIn) ∧
    ∀ pending, Below k pending → Settles k pending n (xs.foldl push ⟨pending, f⟩)

theorem IsOperand.isRun (h : IsOperand n ts) : IsRun joinsIn k n ts :=
  ⟨n, ts, [], by simp [spelled], h, by simp, fun _ _ => .refl rfl⟩

theorem IsRun.mono {k' : Nat} (h : IsRun joinsIn k n ts) (hk : k' ≤ k) : IsRun joinsIn k' n ts :=
  have ⟨f, us, xs, hts, hf, hxs, hn⟩ := h
  ⟨f, us, xs, hts, hf, hxs, fun pending hp => (hn pending (hp.mono hk)).mono hk⟩

theorem IsRun.join {left right : Node} {operator : Operator} {level : Nat} {s : Sign}
    (hleft : IsRun joinsIn level left ts) (hright : IsRun joinsIn (level + 1) right us)
    (hs : joiner? joinsIn s.token = some (operator, level)) (hlevel : operator.level = some level)
    (hfunction : s.kind ≠ .keyword .functionWord) (hstops : ¬s.Follows ⟨true, true, true⟩) :
    IsRun joinsIn level (.mk span (.binaryExpression left operator right)) (ts ++ s :: us) := by
  obtain ⟨f, us, xs, rfl, hf, hxs, hleft⟩ := hleft
  obtain ⟨f', us', xs', rfl, hf', hxs', hright⟩ := hright
  refine ⟨f, us, xs ++ ⟨s, operator, level, f', us'⟩ :: xs', by simp [spelled], hf, ?_, ?_⟩
  · simp only [List.mem_append, List.mem_cons]
    rintro x (hx | rfl | hx)
    · exact hxs x hx
    · exact ⟨hf', hs, hfunction, hstops⟩
    · exact hxs' x hx
  · intro pending hp
    have hb : Below (level + 1) ((left, operator) :: pending) :=
      List.forall_mem_cons.mpr ⟨by simp [hlevel], hp.mono (Nat.le_succ _)⟩
    have hpush : OperandRun.bare (OperandRun.push _ operator level f') =
        OperandRun.bare ⟨(left, operator) :: pending, f'⟩ := (hleft pending hp).push hp
    have hsettles := (hright _ hb).of_bare (foldl_push_of_bare hpush xs')
    rw [List.foldl_append, List.foldl_cons]
    exact hsettles.join hlevel (Nat.le_refl _)

theorem joiner?_current {s : Sign} {ss : List Sign} {c : Cursor} (hc : c.Shows (s :: ss)) :
    joiner? joinsIn c.current = joiner? joinsIn s.token := by
  rw [joiner?, joiner?, hc.kind, hc.marks]
  rfl

theorem Joined.Stands.endsOperand {x : Joined} (h : x.Stands joinsIn) : x.sign.EndsOperand :=
  ⟨h.function, Bool.eq_false_iff.mpr fun hs => h.stops (.inl hs)⟩

theorem spelled_cons (x : Joined) (xs : List Joined) :
    spelled (x :: xs) = x.sign :: (x.signs ++ spelled xs) := by
  simp [spelled]

-- An operand before others ends where they start.
theorem exists_endsOperand {xs : List Joined} {s : Sign} (hxs : ∀ x ∈ xs, x.Stands joinsIn)
    (hs : s.EndsOperand) (rest : List Sign) :
    ∃ t ss, spelled xs ++ s :: rest = t :: ss ∧ t.EndsOperand := by
  cases xs
  case nil => exact ⟨s, rest, rfl, hs⟩
  case cons x xs => exact ⟨x.sign, _, by rw [spelled_cons]; rfl, (hxs x (.head _)).endsOperand⟩

-- The operators are read, and the operands behind them.
theorem run_reads {xs : List Joined} {run : OperandRun} {s : Sign} {rest : List Sign} {c : Cursor}
    {d limit : Nat} (hxs : ∀ x ∈ xs, x.Stands joinsIn) (hs : s.EndsOperand)
    (hj : joiner? joinsIn s.token = none) (hc : c.Shows (spelled xs ++ s :: rest))
    (hd : 3 * (spelled xs ++ s :: rest).length ≤ d) (hl : (spelled xs).length < limit) :
    Reads OperandRun.bare (loop limit ((ofDepth d).nextOperand joinsIn) run) c
      (xs.foldl push run).bare (s :: rest) := by
  obtain ⟨limit, rfl⟩ := Nat.exists_eq_add_one_of_ne_zero (Nat.ne_zero_of_lt hl)
  induction xs generalizing run c limit
  case nil =>
    refine Reads.loop_finish (k := id) (.current ?_)
    simp only [joiner?_current hc, hj]
    exact .pure hc rfl
  case cons x xs ih =>
    obtain ⟨hx, hxs⟩ := List.forall_mem_cons.mp hxs
    rw [spelled_cons, List.cons_append, List.append_assoc] at hc hd
    rw [spelled_cons] at hl
    obtain ⟨t, ss, ht, hends⟩ := exists_endsOperand hxs hs rest
    have hround : Reads (Round.map OperandRun.bare id) ((ofDepth d).nextOperand joinsIn run) c
        (.again (x.push run).bare) (spelled xs ++ s :: rest) := by
      refine .current ?_
      simp only [joiner?_current hc, hx.joins]
      have hne : x.sign.kind ≠ .endOfInput := fun h => by simpa [joiner?, Sign.token, h] using hx.joins
      refine .skip_bind hc hne fun c hc => ?_
      rw [ht] at hc hd ⊢
      refine (hx.operand.reads hends hc (by simp at hd ⊢; omega)).bind fun a c ha hc => ?_
      exact .pure hc (congrArg Round.again (push_of_bare rfl ha x.operator x.level))
    obtain ⟨limit, rfl⟩ := Nat.exists_eq_add_one_of_ne_zero (n := limit) (by simp at hl; omega)
    refine Reads.loop_again hround fun run' c hrun hc => ?_
    rw [List.foldl_cons, ← foldl_push_of_bare hrun]
    exact ih hxs hc (by simp at hd ⊢; omega) limit (by simp at hl ⊢; omega)

/-! ### Expressions -/

-- The signs are read as an expression `n` that ends where `ends` says, if what follows it is then read.
def IsExpression (ends : Sign → Prop) (joinsIn : Bool) (n : Node) (ts : List Sign) : Prop :=
  ∀ ⦃d sequence s rest c b t out⦄, ends s → c.Shows (ts ++ s :: rest) →
    3 * (ts ++ s :: rest).length ≤ d →
    (∀ a c l, a.bare = n.bare → c.Shows (s :: rest) → 2 * (s :: rest).length ≤ l →
      Reads bare (loop l ((ofDepth d).followOnce ⟨sequence, true, true⟩) a) c b (t :: out)) →
    joiner? joinsIn t.token = none →
    Reads bare ((ofDepth d).expressionRule sequence joinsIn) c b (t :: out)

-- An expression from its first operand on, which is read with what follows it.
def restOfExpression (g : Grammar) (sequence joinsIn : Bool) (first : Node) : Rule Node := do
  if (joiner? joinsIn (← current)).isNone then return first
  else
    let run ← loop g.limit (g.nextOperand joinsIn) (OperandRun.mk [] first)
    g.followed ⟨sequence, true, true⟩ run.toNode

theorem expressionRule_eq (g : Grammar) (sequence joinsIn : Bool) :
    g.expressionRule sequence joinsIn =
      g.primary >>= g.followed ⟨sequence, true, true⟩ >>= restOfExpression g sequence joinsIn := by
  rw [bind_assoc]
  rfl

-- The first operand, with what follows it, is the whole expression.
theorem expressionRule_of_first {d : Nat} {sequence : Bool} {c : Cursor} {b : Node} {t : Sign}
    {out : List Sign}
    (h : Reads bare ((ofDepth d).primary >>= (ofDepth d).followed ⟨sequence, true, true⟩) c b
      (t :: out))
    (hj : joiner? joinsIn t.token = none) :
    Reads bare ((ofDepth d).expressionRule sequence joinsIn) c b (t :: out) := by
  rw [expressionRule_eq]
  refine h.bind fun a c ha hc => .current ?_
  rw [if_pos (by rw [joiner?_current hc, hj]; rfl)]
  exact .pure hc ha

theorem IsRun.isExpression (h : IsRun joinsIn k n ts) :
    IsExpression (Sign.Ends ⟨false, false, true⟩ joinsIn) joinsIn n ts := by
  obtain ⟨f, us, xs, rfl, hf, hxs, hn⟩ := h
  intro d sequence s rest c b t out hs hc hd hgo ht
  cases xs
  case nil =>
    have hn : f.bare = n.bare := (hn [] nofun).toNode
    simp only [spelled, List.flatMap_nil, List.append_nil] at hc hd
    refine expressionRule_of_first ?_ ht
    exact hf.followed_reads hs.endsOperand hc hd fun a c l ha hc hl => hgo a c l (ha.trans hn) hc hl
  case cons x xs =>
    have hx := hxs x (.head _)
    rw [List.append_assoc, spelled_cons, List.cons_append] at hc hd
    rw [expressionRule_eq]
    have hstops : ¬x.sign.Follows ⟨sequence, true, true⟩ := fun h =>
      hx.stops (h.mono (fun _ => rfl) id)
    have hfirst : Reads bare ((ofDepth d).primary >>= (ofDepth d).followed ⟨sequence, true, true⟩) c
        f.bare (x.sign :: (x.signs ++ spelled xs ++ s :: rest)) :=
      hf.followed_reads hx.endsOperand hc hd fun a c l ha hc hl =>
        ha ▸ loop_of_not_follows hc hstops (Nat.lt_of_lt_of_le (by simp) hl)
    refine hfirst.bind fun a c ha hc => .current ?_
    rw [if_neg (by rw [joiner?_current hc, hx.joins]; simp)]
    have hc : c.Shows (spelled (x :: xs) ++ s :: rest) := by rwa [spelled_cons]
    refine (run_reads hxs hs.endsOperand hs.joins hc ?_ ?_).bind fun run c hrun hc => ?_
    · rw [spelled_cons]
      simp at hd ⊢
      omega
    · rw [spelled_cons]
      change _ < d
      simp at hd ⊢
      omega
    · rw [followed_eq]
      have hfirst : OperandRun.bare ⟨[], a⟩ = OperandRun.bare ⟨[], f⟩ := by
        simp [OperandRun.bare, ha]
      refine hgo _ c d ?_ hc ?_
      · exact ((hn [] nofun).of_bare (hrun.trans (foldl_push_of_bare hfirst _))).toNode
      · simp at hd ⊢
        omega

-- Where an expression ends that is no sequence.
abbrev Sign.EndsExpression : Sign → Prop :=
  Sign.Ends ⟨false, true, true⟩ true

theorem joiner?_eq_none {s : Sign} (h : joiner? true s.token = none) :
    joiner? joinsIn s.token = none := by
  cases joinsIn
  case true => exact h
  case false =>
    by_cases hk : s.token.kind = .keyword .inWord
    case pos => rw [joiner?, hk]; rfl
    case neg =>
      rw [joiner?] at h ⊢
      split <;> simp_all

theorem Sign.EndsExpression.endsRun {s : Sign} (h : s.EndsExpression) :
    s.Ends ⟨false, false, true⟩ joinsIn :=
  ⟨h.function, fun hs => h.stops (hs.mono id fun _ => rfl), joiner?_eq_none h.joins⟩

theorem Sign.Ends.endsExpression {s : Sign} {sequence : Bool}
    (h : s.Ends ⟨sequence, true, true⟩ true) : s.EndsExpression :=
  ⟨h.function, fun hs => h.stops (hs.mono (absurd · Bool.false_ne_true) id), h.joins⟩

theorem IsExpression.mono {ends ends' : Sign → Prop} (h : IsExpression ends joinsIn n ts)
    (he : ∀ s, ends' s → ends s) : IsExpression ends' joinsIn n ts :=
  fun _ _ _ _ _ _ _ _ hs => h (he _ hs)

theorem IsExpression.isRead {sequence : Bool} (h : IsExpression Sign.EndsExpression joinsIn n ts)
    (hs : Starts ts) : IsRead sequence joinsIn n ts := by
  refine ⟨hs, fun d s rest c hs hc hd => ?_⟩
  obtain ⟨d, rfl⟩ := Nat.exists_eq_add_one_of_ne_zero (n := d) (by omega)
  refine h hs.endsExpression hc (by omega)
    (fun a c l ha hc hl => ha ▸ ?_) (joiner?_eq_none hs.joins)
  exact loop_of_not_follows hc hs.stops (Nat.lt_of_lt_of_le (by simp) hl)

-- A round that takes in what follows, and the rounds behind it.
theorem loop_of_follow {allows : Followers} {a m b : Node} {c : Cursor} {rest out : List Sign}
    {d l : Nat}
    (hround : Reads (Round.map bare id) ((ofDepth d).follow allows a (c.current, c.isAfterLineBreak)) c
      (.again m.bare) rest)
    (hgo : ∀ a c l, a.bare = m.bare → c.Shows rest → 2 * rest.length ≤ l →
      Reads bare (loop l ((ofDepth d).followOnce allows) a) c b out)
    (hl : 2 * rest.length < l) : Reads bare (loop l ((ofDepth d).followOnce allows) a) c b out := by
  obtain ⟨l, rfl⟩ := Nat.exists_eq_add_one_of_ne_zero (Nat.ne_zero_of_lt hl)
  exact Reads.loop_again (.read (fun _ => rfl) (.read (fun _ => rfl) hround))
    fun a' c' ha' hc' => hgo a' c' l ha' hc' (Nat.le_of_lt_succ hl)

theorem Sign.question_ends {b : Bool} :
    (Sign.op .question b).Ends ⟨false, false, true⟩ joinsIn := by
  refine ⟨by simp, ?_, rfl⟩
  rw [Follows, show (Sign.op .question b).extendsOperand = false from rfl,
    show (Sign.op .question b).marks.assignment = false from rfl]
  simp

theorem IsExpression.conditional {consequent alternate : Node} {vs : List Sign} {b b' : Bool}
    (htest : IsExpression (Sign.Ends ⟨false, false, true⟩ joinsIn) joinsIn n ts)
    (hconsequent : IsRead false true consequent us) (halternate : IsRead false true alternate vs) :
    IsExpression Sign.EndsExpression joinsIn
      (.mk span (.conditionalExpression n consequent alternate))
      (ts ++ .op .question b :: (us ++ .op .colon b' :: vs)) := by
  intro d sequence s rest c m t out hs hc hd hgo ht
  simp only [List.append_assoc, List.cons_append] at hc hd
  refine htest Sign.question_ends hc hd (fun a c l ha hc hl => ?_) ht
  · refine loop_of_follow ?_ hgo (by simp at hl ⊢; omega)
    have hbranch : (ofDepth d).follow ⟨sequence, true, true⟩ a (c.current, c.isAfterLineBreak) =
        (discard advance >>= fun _ => .again <$> (ofDepth d).branched a) := by
      have hmarks : c.current.marks.update = false ∧ c.current.marks.assignment = false := by
        rw [hc.marks]
        exact ⟨rfl, rfl⟩
      simp [follow, hc.kind, hmarks]
    rw [hbranch]
    refine .skip_bind hc (by simp) fun c hc => Reads.map (e := bare) ?_ fun _ hn => congrArg Round.again hn
    refine (hconsequent.reads (Sign.ends_op rfl (by simp)) hc (by simp at hd ⊢; omega)).bind
      fun m c hm hc => .expecting hc rfl (by simp) fun c hc => ?_
    refine (halternate.reads hs hc (by simp at hd ⊢; omega)).bind fun m' c hm' hc => ?_
    exact spanned_reads hc (by simp [Form.map, ha, hm, hm'])

theorem Sign.marks_of_assignment {operator : Operator} (h : operator.category = .assignment) (b : Bool) :
    (Sign.op operator b).marks.update = false ∧ (Sign.op operator b).marks.assignment ∧
      (Sign.op operator b).extendsOperand = false := by
  cases operator <;> first | exact absurd h (by decide) | exact ⟨rfl, rfl, rfl⟩

theorem follow_of_assigns {g : Grammar} {allows : Followers} {a : Node} {c : Cursor} {operator : Operator}
    {b : Bool} {ss : List Sign} (hc : c.Shows (.op operator b :: ss))
    (hop : operator.category = .assignment) (ha : allows.assignment) :
    g.follow allows a (c.current, c.isAfterLineBreak) = .again <$> g.assigned a := by
  obtain ⟨hupdate, hassign, hstops⟩ := Sign.marks_of_assignment hop b
  rw [← hc.marks] at hupdate hassign
  simp only [Sign.extendsOperand, Bool.or_eq_false_iff, beq_eq_false_iff_ne] at hstops
  simp [follow, hc.kind ▸ hstops.1.1.1, hc.kind ▸ hstops.1.1.2, hc.kind ▸ hstops.1.2, hupdate, hassign, ha]

theorem IsExpression.assignment {operator : Operator} {right : Node} {b : Bool} (hleft : IsOperand n ts)
    (hn : n.isAssignable) (hop : operator.category = .assignment) (hright : IsRead false true right us) :
    IsExpression Sign.EndsExpression joinsIn (.mk span (.assignmentExpression operator n right))
      (ts ++ .op operator b :: us) := by
  intro d sequence s rest c m t out hs hc hd hgo ht
  simp only [List.append_assoc, List.cons_append] at hc hd
  have hends : (Sign.op operator b).EndsOperand := ⟨by simp, (Sign.marks_of_assignment hop b).2.2⟩
  refine expressionRule_of_first (hleft.followed_reads hends hc hd fun a c l ha hc hl => ?_) ht
  refine loop_of_follow ?_ hgo (by simp at hl ⊢; omega)
  rw [follow_of_assigns hc hop rfl]
  refine Reads.map (e := bare) (.advance_bind hc (by simp) fun c' hc' => ?_) fun _ hn => congrArg Round.again hn
  rw [isAssignable_of_bare ha, hn, hc.kind]
  refine (hright.reads hs hc' (by simp at hd ⊢; omega)).bind fun m' c hm' hc => ?_
  exact spanned_reads hc (by simp [Form.map, ha, hm'])

/-! ### Sequences -/

theorem sequence_reads {ns : List Node} {s : Sign} {rest : List Sign} {c : Cursor}
    {d limit : Nat} (acc : List Node) (h : Commaed (IsRead false true) ns us) (hs : s.Ends ⟨true, true, true⟩ true)
    (hc : c.Shows (us ++ s :: rest)) (hd : 3 * (us ++ s :: rest).length ≤ d) (hl : us.length < limit) :
    Reads (List.map bare) (loop limit (ofDepth d).nextInSequence acc) c
      (acc.map bare ++ ns.map bare) (s :: rest) := by
  obtain ⟨limit, rfl⟩ := Nat.exists_eq_add_one_of_ne_zero (Nat.ne_zero_of_lt hl)
  induction ns generalizing us c limit acc
  case nil =>
    obtain rfl : us = [] := h
    have hne : s.kind ≠ .operator .comma := fun h => hs.stops (.inr (.inr (.inl ⟨rfl, h⟩)))
    refine Reads.loop_finish (k := id) (.accept_ite_of_ne hc hne ?_)
    exact .pure hc (by simp [Round.map])
  case cons n ns ih =>
    obtain ⟨b, ts, vs, rfl, hn, hns⟩ := h
    simp only [List.cons_append, List.append_assoc] at hc hd
    have hround : Reads (Round.map (List.map bare) id) ((ofDepth d).nextInSequence acc) c
        (.again (acc.map bare ++ [n.bare])) (vs ++ s :: rest) := by
      refine .accept_ite_of_eq hc rfl (by simp) fun c hc => ?_
      obtain ⟨t, ss, ht, hends⟩ : ∃ t ss, vs ++ s :: rest = t :: ss ∧ t.Ends ⟨false, true, true⟩ true := by
        cases ns
        case nil =>
          obtain rfl : vs = [] := hns
          exact ⟨s, rest, rfl, hs.endsExpression⟩
        case cons n' ns =>
          obtain ⟨b', ts', vs', rfl, -⟩ := hns
          exact ⟨_, _, rfl, Sign.ends_op rfl (by simp)⟩
      rw [ht] at hc hd ⊢
      refine (hn.reads hends hc (by simp at hd ⊢; omega)).bind fun a c ha hc => ?_
      exact .pure hc (by simp [Round.map, ha])
    obtain ⟨limit, rfl⟩ := Nat.exists_eq_add_one_of_ne_zero (n := limit) (by simp at hl; omega)
    refine Reads.loop_again hround fun acc' c hacc hc => ?_
    simpa [hacc] using ih acc' hns hc (by simp at hd ⊢; omega) limit (by simp at hl ⊢; omega)

theorem IsExpression.sequence {ns : List Node} (hn : IsExpression Sign.EndsExpression joinsIn n ts)
    (hts : Starts ts) (hns : Commaed (IsRead false true) ns us) (hne : ns ≠ []) :
    IsRead true joinsIn (.mk span (.sequenceExpression (n :: ns))) (ts ++ us) := by
  refine ⟨hts.append us, fun d s rest c hs hc hd => ?_⟩
  obtain ⟨d, rfl⟩ := Nat.exists_eq_add_one_of_ne_zero (n := d) (by omega)
  obtain ⟨n', ns, rfl⟩ := List.exists_cons_of_ne_nil hne
  obtain ⟨b, ts', vs, rfl, hn', hns'⟩ := id hns
  rw [List.append_assoc] at hc hd
  have hcomma : (Sign.op .comma b).EndsExpression := Sign.ends_op rfl nofun
  refine hn hcomma hc (by simp at hd ⊢; omega) (fun a c l ha hc hl => ?_) (joiner?_eq_none hs.joins)
  refine loop_of_follow (m := .mk span (.sequenceExpression (n :: n' :: ns))) ?_
    (fun a c l ha hc hl => ha ▸ loop_of_not_follows hc hs.stops (Nat.lt_of_lt_of_le (by simp) hl))
    (by simp at hl ⊢; omega)
  have hseq : (ofDepth d).follow ⟨true, true, true⟩ a (c.current, c.isAfterLineBreak) =
      .again <$> (ofDepth d).sequenced a := by
    have hmarks : c.current.marks.update = false ∧ c.current.marks.assignment = false := by
      rw [hc.marks]
      exact ⟨rfl, rfl⟩
    simp [follow, hc.kind, hmarks]
  rw [hseq]
  refine Reads.map (e := bare) ?_ fun _ hn => congrArg Round.again hn
  have hc : c.Shows (.op .comma b :: (ts' ++ vs) ++ s :: rest) := by simpa using hc
  refine (sequence_reads [a] hns hs hc (by simp at hd ⊢; omega) ?_).bind fun ms c hms hc => ?_
  · change _ < d
    simp at hd ⊢
    omega
  · exact spanned_reads hc (by simp [Form.map, hms, ha])

-- An operand ends before the word `in` where that joins no operands.
theorem IsOperand.reads_before_in {rest : List Sign} {c : Cursor} {d : Nat} {b : Bool}
    (h : IsOperand n ts) (hc : c.Shows (ts ++ .keyword .inWord b :: rest))
    (hd : 3 * (ts ++ .keyword .inWord b :: rest).length + 1 ≤ d) :
    Reads bare (expressionWithin d true false) c n.bare (.keyword .inWord b :: rest) := by
  obtain ⟨d, rfl⟩ := Nat.exists_eq_add_one_of_ne_zero (n := d) (by omega)
  have hstops : ¬(Sign.keyword .inWord b).Follows ⟨true, true, true⟩ := by
    rw [Sign.Follows, show (Sign.keyword .inWord b).extendsOperand = false from rfl,
      show (Sign.keyword .inWord b).marks.assignment = false from rfl]
    simp
  have hends : (Sign.keyword .inWord b).Ends ⟨false, false, true⟩ false :=
    ⟨by simp, fun h => hstops (h.mono (fun _ => rfl) fun _ => rfl), rfl⟩
  refine h.isRun (k := 0) |>.isExpression hends hc (by omega) (fun a c l ha hc hl => ha ▸ ?_) hends.joins
  exact loop_of_not_follows hc hstops (Nat.lt_of_lt_of_le (by simp) hl)

end ScriptTree
