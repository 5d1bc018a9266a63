import ScriptTree.Proofs.Parse.Follows.Expression
import ScriptTree.Proofs.Parse.Reads

/-!
Signs that are read as an operand, whatever stands behind them.

Rules call each other only so deep, and loops take only so many rounds. Three calls for each sign that
is ahead are enough: one of a statement, one of an expression and one of an operand.
-/

namespace ScriptTree

open Node Rule Grammar

-- The operator as a token has it.
def UpdateOperator.toOperator : UpdateOperator → Operator
  | increment => .increment
  | decrement => .decrement

namespace Sign

-- A token with this sign.
def token (s : Sign) : Token where
  kind := s.kind
  span := nowhere
  value := s.text
  marks := s.marks

-- Does an operand go on with what has this sign?
def extendsOperand (s : Sign) : Bool :=
  s.kind == .operator .dot || s.kind == .operator .leftBracket || s.kind == .operator .leftParen
    || (s.marks.update && !s.startsLine)

structure EndsOperand (s : Sign) : Prop where
  function : s.kind ≠ .keyword .functionWord
  stops    : s.extendsOperand = false

end Sign

namespace Grammar

variable {g : Grammar} {allows : Followers} {c : Cursor} {s : Sign} {ss out : List Sign}
variable {a : Node} {b : Node} {l : Nat}

-- One round of what may follow an operand.
def followOnce (g : Grammar) (allows : Followers) (node : Node) : Rule (Round Node Node) := do
  let token ← current
  let isBroken ← isAfterLineBreak
  g.follow allows node (token, isBroken)

theorem followOnce_run (g : Grammar) (allows : Followers) (a : Node) (c : Cursor) :
    (g.followOnce allows a).run c = (g.follow allows a (c.current, c.isAfterLineBreak)).run c :=
  rfl

theorem followed_eq (g : Grammar) (allows : Followers) :
    g.followed allows = loop g.limit (g.followOnce allows) := by
  funext operand
  refine congrArg (loop g.limit · operand) (funext fun node => StateT.ext fun c => ?_)
  rw [followOnce_run, Follows.run_read (x := current) fun _ => rfl]
  unfold follow
  split
  · rfl
  split
  · rfl
  rw [Follows.run_read (x := isAfterLineBreak) fun _ => rfl]

-- Accesses, and then what else may follow an operand.
def goOn (g : Grammar) (k l : Nat) (allows : Followers) (operand : Node) : Rule Node :=
  loop k g.access operand >>= loop l (g.followOnce allows)

theorem access_run_of_ne (hdot : c.current.kind ≠ .operator .dot)
    (hbracket : c.current.kind ≠ .operator .leftBracket) :
    (g.access a).run c = .ok (.finish a, c) := by
  rw [access, Follows.accept_bind_ite, Follows.run_read (x := check _) fun _ => rfl,
    if_neg (by simpa using hdot), Follows.accept_bind_ite,
    Follows.run_read (x := check _) fun _ => rfl, if_neg (by simpa using hbracket)]
  rfl

-- Accesses are looked for first in any case.
theorem followed_run_of_goOn {x : Node × Cursor}
    (h : (g.goOn g.limit l allows a).run c = .ok x) :
    (loop (l + 1) (g.followOnce allows) a).run c = .ok x := by
  by_cases hk : c.current.kind = .operator .dot ∨ c.current.kind = .operator .leftBracket
  case pos =>
    have hround : (g.followOnce allows a).run c = (.again <$> g.members a).run c := by
      rw [followOnce_run, follow, if_pos (by simpa using hk)]
    have h : (g.members a >>= loop l (g.followOnce allows)).run c = .ok x := h
    rcases hm : (g.members a).run c with _ | ⟨m, c'⟩
    · rw [StateT.run_bind, hm] at h
      cases h
    · rw [Follows.run_bind_of_ok hm] at h
      have hagain : (g.followOnce allows a).run c = .ok (.again m, c') := by
        rw [hround, StateT.run_map, hm]
        rfl
      rwa [Reads.loop_run_again hagain]
  case neg =>
    rw [not_or] at hk
    rcases hlimit : g.limit with _ | limit
    · rw [hlimit] at h
      cases h
    · rw [hlimit, goOn, Follows.run_bind_of_ok (Reads.loop_run_finish (access_run_of_ne hk.1 hk.2))] at h
      exact Reads.loop_run_mono h (Nat.le_succ _)

theorem followed_of_goOn (h : Reads bare (g.goOn g.limit l allows a) c b out) :
    Reads bare (loop (l + 1) (g.followOnce allows) a) c b out :=
  have ⟨a, c', hrun, h⟩ := h
  ⟨a, c', followed_run_of_goOn hrun, h⟩

end Grammar

/-! ### Ways to be read -/

namespace Sign

-- Does what has this sign go on with an operand that may be followed by so much?
def Follows (allows : Followers) (s : Sign) : Prop :=
  s.extendsOperand ∨ allows.assignment ∧ s.marks.assignment ∨
    allows.sequence ∧ s.kind = .operator .comma ∨ allows.conditional ∧ s.kind = .operator .question

theorem Follows.mono {s : Sign} {sequence sequence' conditional conditional' assignment : Bool}
    (hs : sequence → sequence') (hc : conditional → conditional')
    (h : s.Follows ⟨sequence, conditional, assignment⟩) :
    s.Follows ⟨sequence', conditional', assignment⟩ :=
  h.imp_right (.imp_right (.imp (.imp_left hs) (.imp_left hc)))

-- Where operands that may be followed by so much end, and a run of them.
structure Ends (allows : Followers) (joinsIn : Bool) (s : Sign) : Prop where
  function : s.kind ≠ .keyword .functionWord
  stops    : ¬s.Follows allows
  joins    : joiner? joinsIn s.token = none

theorem Ends.endsOperand {allows : Followers} {joinsIn : Bool} {s : Sign}
    (h : s.Ends allows joinsIn) : s.EndsOperand :=
  ⟨h.function, Bool.eq_false_iff.mpr fun hs => h.stops (.inl hs)⟩

end Sign

-- Can an expression start with a token of this kind?
def TokenKind.startsExpression : TokenKind → Bool
  | .identifier | .number | .string | .regex | .special _ => true
  | .keyword k => [.thisWord, .functionWord, .newWord, .voidWord, .typeofWord, .deleteWord].contains k
  | .operator op =>
    [.plus, .minus, .tilde, .bang, .increment, .decrement, .leftParen, .leftBracket,
      .leftBrace].contains op
  | _ => false

def Starts (ts : List Sign) : Prop :=
  ∃ s us, ts = s :: us ∧ s.kind.startsExpression

theorem Starts.append {ts : List Sign} (h : Starts ts) (us : List Sign) : Starts (ts ++ us) :=
  have ⟨s, vs, hts, hs⟩ := h
  ⟨s, vs ++ us, by rw [hts, List.cons_append], hs⟩

theorem Starts.kind_ne {kind : TokenKind} {ts : List Sign} (h : Starts ts)
    (hk : kind.startsExpression = false) : ∃ s us, ts = s :: us ∧ s.kind ≠ kind :=
  have ⟨s, us, hts, hs⟩ := h
  ⟨s, us, hts, fun h => by simp [h, hk] at hs⟩

-- Rules that go on with an operand, for a number of rounds.
abbrev Sequel := Grammar → Nat → Node → Rule Node

structure IsRead (sequence joinsIn : Bool) (n : Node) (ts : List Sign) : Prop where
  starts : Starts ts
  reads  : ∀ ⦃d s rest c⦄, s.Ends ⟨sequence, true, true⟩ true → c.Shows (ts ++ s :: rest) →
    3 * (ts ++ s :: rest).length + 1 ≤ d →
    Reads bare (expressionWithin d sequence joinsIn) c n.bare (s :: rest)

-- The signs are read as the operand `n`, and the sequel goes on with it, accesses first.
def Leads (sequel : Sequel) (ends : Sign → Prop) (n : Node) (ts : List Sign) : Prop :=
  ∀ ⦃d s rest c b out k l⦄, ends s → c.Shows (ts ++ s :: rest) →
    3 * (ts ++ s :: rest).length ≤ d →
    (∀ a c k l, a.bare = n.bare → c.Shows (s :: rest) → (s :: rest).length < k →
      2 * (s :: rest).length ≤ l →
      Reads bare (loop k (ofDepth d).access a >>= sequel (ofDepth d) l) c b out) →
    (ts ++ s :: rest).length < k → 2 * (ts ++ s :: rest).length ≤ l →
    Reads bare (primaryWithin d >>= fun a => loop k (ofDepth d).access a >>= sequel (ofDepth d) l)
      c b out

def followers (allows : Followers) : Sequel :=
  fun g l => loop l (g.followOnce allows)

-- Where the name of an asynchronous function would be taken for it.
def Sign.IsNoFunction (s : Sign) : Prop :=
  s.kind ≠ .keyword .functionWord

-- The signs are read as an operand that stands for itself.
def IsPrimary (ends : Sign → Prop) (n : Node) (ts : List Sign) : Prop :=
  ∀ ⦃d s rest c⦄, ends s → c.Shows (ts ++ s :: rest) → 3 * (ts ++ s :: rest).length ≤ d →
    Reads bare (primaryWithin d) c n.bare (s :: rest)

-- As an operand with accesses alone.
def IsPlain (n : Node) (ts : List Sign) : Prop :=
  ∀ sequel, Leads sequel Sign.IsNoFunction n ts

-- As an operand with whatever may follow it.
def IsChain (n : Node) (ts : List Sign) : Prop :=
  ∀ allows, Leads (followers allows) Sign.IsNoFunction n ts

-- As an operand that must be at its end.
def IsOperand (n : Node) (ts : List Sign) : Prop :=
  ∀ allows, Leads (followers allows) Sign.EndsOperand n ts

section

variable {sequel : Sequel} {ends : Sign → Prop} {n o : Node} {ts us : List Sign} {span span' : Span}

theorem IsPrimary.leads (h : IsPrimary ends n ts) : Leads sequel ends n ts := by
  intro d s rest c b out k l hs hc hd hgo hk hl
  refine (h hs hc hd).bind fun a c' ha hc => hgo a c' k l ha hc ?_ ?_
  · simp only [List.length_append] at hk
    omega
  · simp only [List.length_append] at hl
    omega

theorem Leads.mono {ends' : Sign → Prop} (h : Leads sequel ends n ts) (he : ∀ s, ends' s → ends s) :
    Leads sequel ends' n ts :=
  fun _ _ _ _ _ _ _ _ hs => h (he _ hs)

theorem IsPlain.isChain (h : IsPlain n ts) : IsChain n ts :=
  fun _ => h _

theorem IsChain.isOperand (h : IsChain n ts) : IsOperand n ts :=
  fun allows => (h allows).mono fun _ hs => hs.function

-- The punctuation that neither joins operands nor goes on with one.
def Operator.closes (operator : Operator) : Bool :=
  [.rightParen, .rightBracket, .rightBrace, .semicolon, .colon, .comma].contains operator

theorem Operator.startsExpression_of_closes {operator : Operator} (h : operator.closes) :
    (TokenKind.operator operator).startsExpression = false := by
  cases operator <;> first | exact absurd h (by decide) | rfl

theorem Sign.ends_op {operator : Operator} {sequence b : Bool} (h : operator.closes)
    (hcomma : sequence → operator ≠ .comma) :
    (Sign.op operator b).Ends ⟨sequence, true, true⟩ true := by
  have h : ((Sign.op operator b).extendsOperand = false ∧
      (Sign.op operator b).marks.assignment = false ∧
      joiner? true (Sign.op operator b).token = none) ∧ operator ≠ .question := by
    cases operator <;> first | exact absurd h (by decide) | exact ⟨⟨rfl, rfl, rfl⟩, nofun⟩
  refine ⟨by simp, ?_, h.1.2.2⟩
  rw [Sign.Follows, h.1.1, h.1.2.1]
  simpa [h.2] using hcomma

-- A node with what was read as its parts.
theorem spanned_reads {start : Nat} {form form' : Form Node} {c : Cursor} {ss : List Sign}
    (hc : c.Shows ss) (h : form'.map bare = form.map bare) :
    Reads bare (do return .mk (← spanFrom start) form') c (Node.bare (.mk span form)) ss :=
  .spanFrom fun _ => .pure hc (by rw [bare_mk, bare_mk, h])

theorem memberOf_reads {a member member' : Node} {isComputed : Bool} {c : Cursor} {ss : List Sign}
    (hc : c.Shows ss) (ha : a.bare = o.bare) (hm : member'.bare = member.bare) :
    Reads (Round.map bare (id : Node → Node)) (.again <$> memberOf a member' isComputed) c
      (.again (Node.bare (.mk span (.memberExpression o member isComputed false)))) ss :=
  (spanned_reads hc (by simp [Form.map, ha, hm])).map fun _ hn => congrArg Round.again hn

theorem identifierOf_bare {t : Token} {name : String} (ht : t.value = name) :
    (identifierOf t).bare = Node.bare (.mk span (.identifier name)) := by
  rw [identifierOf, bare_mk, bare_mk, ht]

theorem Leads.dot {name : String} {b b' : Bool} (ho : Leads sequel Sign.IsNoFunction o ts)
    (hw : (Sign.word name b').kind.isWord) :
    Leads sequel Sign.IsNoFunction
      (.mk span (.memberExpression o (.mk span' (.identifier name)) false false))
      (ts ++ [.op .dot b, .word name b']) := by
  intro d s rest c b out k l hs hc hd hgo hk hl
  rw [List.append_assoc] at hc hd hk hl
  refine ho (by simp [Sign.IsNoFunction]) hc hd (fun a c k l ha hc hk hl => ?_) hk hl
  obtain ⟨k, rfl⟩ := Nat.exists_eq_add_one_of_ne_zero (Nat.ne_zero_of_lt hk)
  refine Reads.loop_again_bind (e := bare) (k := id) ?_ fun a' c ha' hc =>
    hgo a' c k l ha' hc (by simp at hk ⊢; omega) (by simp at hl ⊢; omega)
  refine .accept_ite_of_eq hc rfl (by simp) fun c hc => .current ?_
  have hword : c.current.isWord := by rw [Token.isWord, hc.kind, hw]
  rw [if_pos hword]
  have hne : (Sign.word name b').kind ≠ .endOfInput := fun h => by simp [h, TokenKind.isWord] at hw
  exact .advance_bind hc hne fun c' hc' => memberOf_reads hc' ha (identifierOf_bare hc.text)

theorem Leads.bracket {member : Node} {b b' : Bool} (ho : Leads sequel Sign.IsNoFunction o ts)
    (hm : IsRead true true member us) :
    Leads sequel Sign.IsNoFunction (.mk span (.memberExpression o member true false))
      (ts ++ .op .leftBracket b :: us ++ [.op .rightBracket b']) := by
  intro d s rest c b out k l hs hc hd hgo hk hl
  simp only [List.append_assoc, List.cons_append, List.nil_append] at hc hd hk hl
  refine ho (by simp [Sign.IsNoFunction]) hc hd (fun a c k l ha hc hk hl => ?_) hk hl
  obtain ⟨k, rfl⟩ := Nat.exists_eq_add_one_of_ne_zero (Nat.ne_zero_of_lt hk)
  refine Reads.loop_again_bind (e := bare) (k := id) ?_ fun a' c ha' hc =>
    hgo a' c k l ha' hc (by simp at hk ⊢; omega) (by simp at hl ⊢; omega)
  refine .accept_ite_of_ne hc (by simp) (.accept_ite_of_eq hc rfl (by simp) fun c hc => ?_)
  refine (hm.reads ?_ hc ?_).bind fun m c hm hc => .expecting hc rfl (by simp) fun c hc =>
    memberOf_reads hc ha hm
  · exact Sign.ends_op rfl nofun
  · simp at hd ⊢
    omega

/-! ### Items with commas between them -/

-- Items that each have a comma in front.
def Commaed (R : Node → List Sign → Prop) : List Node → List Sign → Prop
  | [], us => us = []
  | n :: ns, us => ∃ b ts vs, us = .op .comma b :: (ts ++ vs) ∧ R n ts ∧ Commaed R ns vs

def Listed (R : Node → List Sign → Prop) : List Node → List Sign → Prop
  | [], us => us = []
  | n :: ns, us => ∃ ts vs, us = ts ++ vs ∧ R n ts ∧ Commaed R ns vs

-- A loop over items, at least one of them.
theorem loop_listed_cons {R : Node → List Sign → Prop}
    {round : List Node → Rule (Round (List Node) (List Node))} {tail out : List Sign} (bound : Nat)
    (hlast : ∀ ns n ts c, R n ts → c.Shows (ts ++ tail) → (ts ++ tail).length ≤ bound →
      Reads (Round.map (List.map bare) (List.map bare)) (round ns) c
        (.finish (ns.map bare ++ [n.bare])) out)
    (hmore : ∀ ns n n' ts ts' b vs c, R n ts → R n' ts' → c.Shows (ts ++ .op .comma b :: (ts' ++ vs)) →
      (ts ++ .op .comma b :: (ts' ++ vs)).length ≤ bound →
      Reads (Round.map (List.map bare) (List.map bare)) (round ns) c
        (.again (ns.map bare ++ [n.bare])) (ts' ++ vs))
    {ns ms : List Node} {n : Node} {us : List Sign} {c : Cursor} {limit : Nat}
    (h : Listed R (n :: ms) us) (hc : c.Shows (us ++ tail)) (hb : (us ++ tail).length ≤ bound)
    (hl : us.length < limit) :
    Reads (List.map bare) (loop limit round ns) c (ns.map bare ++ (n :: ms).map bare) out := by
  obtain ⟨limit, rfl⟩ := Nat.exists_eq_add_one_of_ne_zero (Nat.ne_zero_of_lt hl)
  induction ms generalizing ns n us c limit
  case nil =>
    obtain ⟨ts, vs, rfl, hn, hms⟩ := h
    obtain rfl : vs = [] := hms
    rw [List.append_nil] at hc hb
    simpa using Reads.loop_finish (hlast ns n ts c hn hc hb)
  case cons n' ms ih =>
    obtain ⟨ts, vs, rfl, hn, b, ts', vs', rfl, hn', hms⟩ := h
    simp only [List.cons_append, List.append_assoc] at hc hb
    refine Reads.loop_again (e := List.map bare) (hmore ns n n' ts ts' b _ c hn hn' hc hb)
      fun ns' c hns hc => ?_
    obtain ⟨limit, rfl⟩ := Nat.exists_eq_add_one_of_ne_zero (n := limit) (by simp at hl; omega)
    have h := @ih ns' n' (ts' ++ vs') c ⟨ts', vs', rfl, hn', hms⟩ (by simpa using hc)
      (by simp at hb ⊢; omega) limit (by simp at hl ⊢; omega)
    simpa [hns] using h

-- A loop over items that ends with a token of its own.
theorem loop_listed {R : Node → List Sign → Prop} {round : List Node → Rule (Round (List Node) (List Node))}
    {closing : Sign} {rest : List Sign} (bound : Nat)
    (hnone : ∀ ns c, c.Shows (closing :: rest) →
      Reads (Round.map (List.map bare) (List.map bare)) (round ns) c (.finish (ns.map bare)) rest)
    (hlast : ∀ ns n ts c, R n ts → c.Shows (ts ++ closing :: rest) →
      (ts ++ closing :: rest).length ≤ bound →
      Reads (Round.map (List.map bare) (List.map bare)) (round ns) c
        (.finish (ns.map bare ++ [n.bare])) rest)
    (hmore : ∀ ns n n' ts ts' b vs c, R n ts → R n' ts' → c.Shows (ts ++ .op .comma b :: (ts' ++ vs)) →
      (ts ++ .op .comma b :: (ts' ++ vs)).length ≤ bound →
      Reads (Round.map (List.map bare) (List.map bare)) (round ns) c
        (.again (ns.map bare ++ [n.bare])) (ts' ++ vs))
    {ns ms : List Node} {us : List Sign} {c : Cursor} {limit : Nat} (h : Listed R ms us)
    (hc : c.Shows (us ++ closing :: rest)) (hb : (us ++ closing :: rest).length ≤ bound)
    (hl : us.length < limit) :
    Reads (List.map bare) (loop limit round ns) c (ns.map bare ++ ms.map bare) rest := by
  cases ms
  case nil =>
    obtain ⟨limit, rfl⟩ := Nat.exists_eq_add_one_of_ne_zero (Nat.ne_zero_of_lt hl)
    obtain rfl : us = [] := h
    simpa using Reads.loop_finish (hnone ns c hc)
  case cons n ms => exact loop_listed_cons bound hlast hmore h hc hb hl

-- A round over items between brackets, with commas between them and perhaps one behind.
def listRound (closing : Operator) (item : Rule Node) (ns : List Node) :
    Rule (Round (List Node) (List Node)) := do
  if ← accept (.operator closing) then return .finish ns
  else
    let ns := ns ++ [← item]
    if ← accept (.operator closing) then return .finish ns
    else
      discard <| expect (.operator .comma)
      return .again ns

theorem listRound_reads {R : Node → List Sign → Prop} {closing : Operator} {item : Rule Node}
    (bound : Nat) (hcomma : closing ≠ .comma)
    (hstarts : ∀ n ts, R n ts → ∃ s us, ts = s :: us ∧ s.kind ≠ .operator closing)
    (hitem : ∀ n ts operator b rest c, R n ts → operator = closing ∨ operator = .comma →
      c.Shows (ts ++ .op operator b :: rest) → (ts ++ .op operator b :: rest).length ≤ bound →
      Reads bare item c n.bare (.op operator b :: rest))
    {ns : List Node} {us rest : List Sign} {b : Bool} {c : Cursor} {limit : Nat} (h : Listed R ns us)
    (hc : c.Shows (us ++ .op closing b :: rest)) (hb : (us ++ .op closing b :: rest).length ≤ bound)
    (hl : us.length < limit) :
    Reads (List.map bare) (loop limit (listRound closing item) []) c (ns.map bare) rest := by
  have hfirst {n ts ss} (hn : R n ts) (c : Cursor) (hc : c.Shows (ts ++ ss)) :
      ∃ s vs, c.Shows (s :: vs) ∧ s.kind ≠ .operator closing :=
    have ⟨s, us, hts, hs⟩ := hstarts n ts hn
    ⟨s, us ++ ss, by rwa [hts] at hc, hs⟩
  refine loop_listed bound (fun ns c hc => ?_) (fun ns n ts c hn hc hb => ?_)
    (fun ns n n' ts ts' b vs c hn hn' hc hb => ?_) h hc hb hl
  · exact .accept_ite_of_eq hc rfl (by simp) fun c hc => .pure hc rfl
  · obtain ⟨s, vs, hs, hne⟩ := hfirst hn c hc
    refine .accept_ite_of_ne hs hne ((hitem n ts _ _ _ c hn (.inl rfl) hc hb).bind fun n c hn hc => ?_)
    exact .accept_ite_of_eq hc rfl (by simp) fun c hc => .pure hc (by simp [Round.map, hn])
  · obtain ⟨s, ws, hs, hne⟩ := hfirst hn c hc
    refine .accept_ite_of_ne hs hne ((hitem n ts _ _ _ c hn (.inr rfl) hc hb).bind fun n c hn hc => ?_)
    refine .accept_ite_of_ne hc (by simp [hcomma.symm]) (.expecting hc rfl (by simp) fun c hc => ?_)
    exact .pure hc (by simp [Round.map, hn])

theorem arguments_reads {ns : List Node} {us rest : List Sign} {b b' : Bool} {c : Cursor} {d : Nat}
    (h : Listed (IsRead false true) ns us)
    (hc : c.Shows (.op .leftParen b :: (us ++ .op .rightParen b' :: rest)))
    (hd : 3 * (.op .leftParen b :: (us ++ .op .rightParen b' :: rest) : List Sign).length ≤ d + 2) :
    Reads (List.map bare) (ofDepth d).arguments c (ns.map bare) rest := by
  simp only [List.length_cons, List.length_append] at hd
  refine .expecting hc rfl (by simp) fun c hc => ?_
  refine listRound_reads (us ++ .op .rightParen b' :: rest).length (by simp)
    (fun n ts hn => hn.starts.kind_ne rfl) (fun n ts op b rest c hn hop hc hb => ?_) h hc
    (Nat.le_refl _) ?_
  · refine hn.reads ?_ hc ?_
    · exact Sign.ends_op (by rcases hop with rfl | rfl <;> rfl) nofun
    · simp at hb ⊢
      omega
  · change us.length < d
    omega

/-! ### What follows an operand -/

-- A round that takes in what follows, and the rounds behind it.
theorem goOn_of_follow {allows : Followers} {a m : Node} {c : Cursor} {s : Sign} {ss rest out : List Sign}
    {b : Node} {d k l : Nat} (hc : c.Shows (s :: ss)) (hdot : s.kind ≠ .operator .dot)
    (hbracket : s.kind ≠ .operator .leftBracket)
    (hround : Reads (Round.map bare id) ((ofDepth d).follow allows a (c.current, c.isAfterLineBreak)) c
      (.again m.bare) rest)
    (hgo : ∀ a c k l, a.bare = m.bare → c.Shows rest → rest.length < k → 2 * rest.length ≤ l →
      Reads bare (loop k (ofDepth d).access a >>= followers allows (ofDepth d) l) c b out)
    (hk : 0 < k) (hd : rest.length < d) (hl : 2 * (rest.length + 1) ≤ l) :
    Reads bare (loop k (ofDepth d).access a >>= followers allows (ofDepth d) l) c b out := by
  obtain ⟨k, rfl⟩ := Nat.exists_eq_add_one_of_ne_zero (Nat.ne_zero_of_lt hk)
  obtain ⟨l, rfl⟩ : ∃ m, l = m + 2 := ⟨l - 2, by omega⟩
  refine Reads.loop_finish_bind (access_run_of_ne (hc.kind ▸ hdot) (hc.kind ▸ hbracket)) ?_
  refine Reads.loop_again (e := bare) (k := id) (.read (fun _ => rfl) (.read (fun _ => rfl) hround))
    fun a' c' ha' hc' => ?_
  exact followed_of_goOn (hgo a' c' d l ha' hc' hd (by omega))

theorem IsChain.call {ns : List Node} {b b' : Bool} (h : IsChain n ts)
    (hns : Listed (IsRead false true) ns us) :
    IsChain (.mk span (.callExpression n ns false))
      (ts ++ .op .leftParen b :: (us ++ [.op .rightParen b'])) := by
  intro allows d s rest c b out k l hs hc hd hgo hk hl
  simp only [List.append_assoc, List.cons_append, List.nil_append] at hc hd hk hl
  refine h allows (by simp [Sign.IsNoFunction]) hc hd (fun a c k l ha hc hk hl => ?_) hk hl
  simp only [List.length_cons, List.length_append] at hd hk hl
  refine goOn_of_follow hc (by simp) (by simp) ?_ hgo (by omega) ?_ ?_
  · have hcall : (ofDepth d).follow allows a (c.current, c.isAfterLineBreak) =
        .again <$> (ofDepth d).call a := by
      simp [follow, hc.kind]
    rw [hcall]
    refine Reads.map (e := bare) ((arguments_reads hns hc (by simp; omega)).bind fun ms c hms hc => ?_)
      fun _ hn => congrArg Round.again hn
    exact spanned_reads hc (by simp [Form.map, ha, hms])
  · simp; omega
  · simp; omega

theorem IsChain.update {operator : UpdateOperator} (h : IsChain n ts) (hn : n.isAssignable) :
    IsChain (.mk span (.updateExpression operator false n))
      (ts ++ [.op operator.toOperator false]) := by
  intro allows d s rest c b out k l hs hc hd hgo hk hl
  simp only [List.append_assoc, List.cons_append, List.nil_append] at hc hd hk hl
  refine h allows (by simp [Sign.IsNoFunction]) hc hd (fun a c k l ha hc hk hl => ?_) hk hl
  simp only [List.length_cons, List.length_append] at hd hk hl
  refine goOn_of_follow hc ?_ ?_ ?_ hgo (by omega) ?_ ?_
  · cases operator <;> simp [UpdateOperator.toOperator]
  · cases operator <;> simp [UpdateOperator.toOperator]
  · have hmarks : c.current.marks.update := by
      rw [hc.marks]
      cases operator <;> rfl
    have hupdate : (ofDepth d).follow allows a (c.current, c.isAfterLineBreak) =
        .again <$> updated a := by
      cases operator <;> simp [follow, hc.kind, hmarks, hc.startsLine, UpdateOperator.toOperator]
    rw [hupdate]
    refine Reads.map (e := bare) (.advance_bind hc (by simp) fun c' hc' => ?_)
      fun _ hn => congrArg Round.again hn
    have ha' : a.isAssignable := isAssignable_of_bare ha ▸ hn
    have hop : c.current.kind.operator?.bind UpdateOperator.ofOperator? = some operator := by
      rw [hc.kind]
      cases operator <;> rfl
    simp only [ha', hop]
    exact spanned_reads hc' (by simp [Form.map, ha])
  · simp; omega
  · simp; omega

/-! ### Where an operand ends -/

theorem follow_of_not_follows {g : Grammar} {allows : Followers} {a : Node} {c : Cursor} {s : Sign}
    {ss : List Sign} (hc : c.Shows (s :: ss)) (hs : ¬s.Follows allows) :
    g.follow allows a (c.current, c.isAfterLineBreak) = pure (.finish a) := by
  simp only [Sign.Follows, Sign.extendsOperand, Bool.or_eq_true, beq_iff_eq, Bool.and_eq_true,
    Bool.not_eq_true', not_or] at hs
  simp [follow, hc.kind, hc.marks, hc.startsLine, hs]

theorem loop_of_not_follows {g : Grammar} {allows : Followers} {a : Node} {c : Cursor} {s : Sign}
    {ss : List Sign} {l : Nat} (hc : c.Shows (s :: ss)) (hs : ¬s.Follows allows) (hl : 0 < l) :
    Reads bare (loop l (g.followOnce allows) a) c a.bare (s :: ss) := by
  obtain ⟨l, rfl⟩ := Nat.exists_eq_add_one_of_ne_zero (Nat.ne_zero_of_lt hl)
  refine Reads.loop_finish (.read (fun _ => rfl) (.read (fun _ => rfl) ?_)) (k := id)
  rw [follow_of_not_follows hc hs]
  exact .pure hc rfl

-- Where no access is, what else may follow is looked for.
theorem goOn_of_loop {g : Grammar} {allows : Followers} {a b : Node} {c : Cursor} {s : Sign}
    {ss out : List Sign} {k l : Nat} (hc : c.Shows (s :: ss)) (hs : s.EndsOperand) (hk : 0 < k)
    (h : Reads bare (loop l (g.followOnce allows) a) c b out) :
    Reads bare (g.goOn k l allows a) c b out := by
  obtain ⟨k, rfl⟩ := Nat.exists_eq_add_one_of_ne_zero (Nat.ne_zero_of_lt hk)
  have hstops := hs.stops
  simp only [Sign.extendsOperand, Bool.or_eq_false_iff, beq_eq_false_iff_ne] at hstops
  refine Reads.loop_finish_bind (access_run_of_ne ?_ ?_) h
  · exact hc.kind ▸ hstops.1.1.1
  · exact hc.kind ▸ hstops.1.1.2

-- The operand is read first, and then what may follow it.
theorem primary_followed_of_goOn {g : Grammar} {allows : Followers} {c : Cursor} {b : Node}
    {out : List Sign} {l : Nat} (hg : g.limit = l + 1)
    (h : Reads bare (g.primary >>= fun a => g.goOn g.limit l allows a) c b out) :
    Reads bare (g.primary >>= g.followed allows) c b out := by
  obtain ⟨x, c', hrun, h⟩ := h
  refine ⟨x, c', ?_, h⟩
  rw [StateT.run_bind] at hrun ⊢
  rcases hp : g.primary.run c with _ | ⟨a, c''⟩
  · rw [hp] at hrun
    cases hrun
  · rw [hp] at hrun
    rw [followed_eq, hg]
    exact followed_run_of_goOn hrun

-- The operand is read, and what else may follow it.
theorem IsOperand.followed_reads {allows : Followers} {s : Sign} {rest out : List Sign} {c : Cursor}
    {b : Node} {d : Nat} (h : IsOperand n ts) (hs : s.EndsOperand) (hc : c.Shows (ts ++ s :: rest))
    (hd : 3 * (ts ++ s :: rest).length ≤ d)
    (hgo : ∀ a c l, a.bare = n.bare → c.Shows (s :: rest) → 2 * (s :: rest).length ≤ l →
      Reads bare (loop l ((ofDepth d).followOnce allows) a) c b out) :
    Reads bare ((ofDepth d).primary >>= (ofDepth d).followed allows) c b out := by
  obtain ⟨l, rfl⟩ := Nat.exists_eq_add_one_of_ne_zero (n := d) (by simp at hd; omega)
  refine primary_followed_of_goOn (l := l) rfl (h allows hs hc hd (fun a c k l ha hc hk hl => ?_) ?_ ?_)
  · exact goOn_of_loop hc hs (Nat.zero_lt_of_lt hk) (hgo a c l ha hc hl)
  · change _ < l + 1
    simp at hd ⊢
    omega
  · simp at hd ⊢
    omega

theorem IsOperand.reads {s : Sign} {rest : List Sign} {c : Cursor} {d : Nat} (h : IsOperand n ts)
    (hs : s.EndsOperand) (hc : c.Shows (ts ++ s :: rest)) (hd : 3 * (ts ++ s :: rest).length ≤ d) :
    Reads bare (ofDepth d).operand c n.bare (s :: rest) := by
  have hf : ¬s.Follows ⟨false, false, false⟩ := by simp [Sign.Follows, hs.stops]
  refine h.followed_reads hs hc hd fun a c l ha hc hl => ha ▸ ?_
  exact loop_of_not_follows hc hf (Nat.lt_of_lt_of_le (by simp) hl)

end

end ScriptTree
