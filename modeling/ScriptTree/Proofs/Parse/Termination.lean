import ScriptTree.Proofs.Parse.Finishes.Statement
import ScriptTree.Proofs.Parse.Semicolons

/-!
The parser comes to an end on whatever tokens it is given.
-/

namespace ScriptTree

open Rule Cursor

variable {R : Likeness} {n depth depth' : Nat}

-- The rules of so great a depth come to an end, beside those of any other depth. A statement calls an
-- expression, and that its first operand, before the first token is consumed, so the depths that they
-- need differ by one each.
structure Grammar.EndsWithin (R : Likeness) (depth : Nat) : Prop where
  statement  : ∀ {n depth'} scope c, c.ahead.length ≤ n → 3 * n + 3 ≤ depth → 3 * n + 3 ≤ depth' →
    Finishes R (statementWithin depth scope) (statementWithin depth' scope) c (Shorter c)
  expression : ∀ {n depth'} sequence joinsIn c, c.ahead.length ≤ n → 3 * n + 2 ≤ depth →
    3 * n + 2 ≤ depth' → Finishes R (expressionWithin depth sequence joinsIn)
      (expressionWithin depth' sequence joinsIn) c (Shorter c)
  primary    : ∀ {n depth'} c, c.ahead.length ≤ n → 3 * n + 1 ≤ depth → 3 * n + 1 ≤ depth' →
    Finishes R (primaryWithin depth) (primaryWithin depth') c (Shorter c)

theorem Grammar.EndsWithin.finishesBelow (hw : EndsWithin R depth) (h : 3 * n ≤ depth)
    (h' : 3 * n ≤ depth') : (ofDepth depth).FinishesBelow R n (ofDepth depth') where
  limit := Nat.le_trans (by omega) h
  limit' := Nat.le_trans (by omega) h'
  statement scope c hc := hw.statement scope c (Nat.le_sub_one_of_lt hc) (by omega) (by omega)
  expression sequence joinsIn c hc :=
    hw.expression sequence joinsIn c (Nat.le_sub_one_of_lt hc) (by omega) (by omega)
  primary c hc := hw.primary c (Nat.le_sub_one_of_lt hc) (by omega) (by omega)

theorem Grammar.endsWithin (depth : Nat) : EndsWithin R depth := by
  induction depth
  case zero => constructor <;> intros <;> omega
  case succ depth ih =>
    constructor
    case statement =>
      rintro n (_ | depth') scope c hc h h'
      · omega
      · exact statementRule_finishes (ih.finishesBelow (by omega) (by omega)) hc
          (fun _ _ => ih.expression _ _ c hc (by omega) (by omega)) scope
    case expression =>
      rintro n (_ | depth') sequence joinsIn c hc h h'
      · omega
      · exact expressionRule_finishes (ih.finishesBelow (by omega) (by omega)) hc
          (ih.primary c hc (by omega) (by omega)) sequence joinsIn
    case primary =>
      rintro n (_ | depth') c hc h h'
      · omega
      · exact primaryRule_finishes (ih.finishesBelow (by omega) (by omega)) hc

namespace Rule

-- The rule fails, or it leaves the cursor behind more tokens that are no trivia, at rest again.
def MovesOn (c : Cursor) (r : Rule Node) : Prop :=
  ∀ n c', r.run c = .ok (n, c') → c'.Rests ∧ c.passed < c'.passed

-- The rule fails with an error of the parser, or it leaves the cursor further on in the same stream.
def Ends (c : Cursor) (r : Rule Node) : Prop :=
  (∃ error, r.run c = .error (.failed error)) ∨
    ∃ n c', r.run c = .ok (n, c') ∧ c.Shares c' ∧ c.behind.length < c'.behind.length

theorem Finishes.ends {r r' : Rule Node} {c : Cursor}
    (h : Finishes .equality r r' c (Shorter c)) (hc : c.ending.kind = .endOfInput) : Ends c r := by
  have h := h hc c rfl
  unfold Ends
  revert h
  rcases r.run c with (_ | _) | ⟨n, c'⟩ <;> intro h
  case error.failed e => exact .inl ⟨e, rfl⟩
  case error.exhausted => cases h
  case ok => exact .inr ⟨n, c', rfl, h.1, h.1.length_behind h.2.1⟩

-- What the first run comes to, the second one comes to from any cursor that is like the first one's.
theorem Finishes.run_ok {α : Type} {r r' : Rule α} {c d c' : Cursor} {Q : α → Cursor → Prop} {a : α}
    (h : Finishes R r r' c Q) (hc : c.ending.kind = .endOfInput) (hd : R.Holds c d)
    (hrun : r.run c = .ok (a, c')) : ∃ d', r'.run d = .ok (a, d') ∧ R.Holds c' d' := by
  have h := h hc d hd
  rw [hrun] at h
  exact h.2.2

theorem Finishes.run_error {α : Type} {r r' : Rule α} {c d : Cursor} {Q : α → Cursor → Prop}
    {stop : Stop} (h : Finishes R r r' c Q) (hc : c.ending.kind = .endOfInput) (hd : R.Holds c d)
    (hstrict : R.IsStrict) (hrun : r.run c = .error stop) : r'.run d = .error stop := by
  have h := h hc d hd
  rw [hrun] at h
  cases stop
  case failed => exact h hstrict
  case exhausted => cases h

theorem Finishes.run_eq {α : Type} {r r' : Rule α} {c : Cursor} {Q : α → Cursor → Prop}
    (h : Finishes .equality r r' c Q) (hc : c.ending.kind = .endOfInput) : r'.run c = r.run c := by
  cases hrun : r.run c
  case error => exact h.run_error hc rfl trivial hrun
  case ok =>
    obtain ⟨_, hrun', rfl⟩ := h.run_ok hc rfl hrun
    exact hrun'

end Rule

namespace Grammar

-- What holds of all rules that others call in a circle.
def Each (P : Rule Node → Prop) (g : Grammar) : Prop :=
  (∀ scope, P (g.statement scope)) ∧ (∀ sequence joinsIn, P (g.expression sequence joinsIn)) ∧
    P g.primary

theorem ofDepth_movesOn (depth : Nat) {c : Cursor} (hc : c.Rests) : (ofDepth depth).Each (MovesOn c) :=
  have ⟨hs, he, hp⟩ := within_followedBy (Nat.le_refl depth)
  ⟨fun scope _ _ h => ⟨(hs scope c hc h).rests, (hs scope c hc h).moves.passed⟩,
    fun sequence joinsIn _ _ h =>
      ⟨(he sequence joinsIn c hc h).rests, (he sequence joinsIn c hc h).moves.passed⟩,
    fun _ _ h => ⟨(hp c hc h).rests, (hp c hc h).moves.passed⟩⟩

theorem ofDepth_ends {c : Cursor} (hc : c.ending.kind = .endOfInput)
    (h : 3 * c.ahead.length + 3 ≤ depth) : (ofDepth depth).Each (Ends c) :=
  have hw := endsWithin depth
  have h₂ := Nat.le_of_succ_le h
  have h₁ := Nat.le_of_succ_le h₂
  ⟨fun scope => (hw.statement scope c (Nat.le_refl _) h h).ends hc,
    fun sequence joinsIn => (hw.expression sequence joinsIn c (Nat.le_refl _) h₂ h₂).ends hc,
    (hw.primary c (Nat.le_refl _) h₁ h₁).ends hc⟩

end Grammar

theorem Cursor.length_ofTokens_le (tokens : List Token) :
    (ofTokens tokens).ahead.length ≤ tokens.length :=
  passOver_length_le

-- The statements of a stream of tokens, read by rules that call each other at most so deep.
def statementsWithin (depth : Nat) (options : ParseOptions) (tokens : List Token) :
    Except Stop (List Node × Cursor) :=
  (Grammar.ofDepth depth).statements { allowsReturn := options.allowsReturn } (.ofTokens tokens)

section

variable (options : ParseOptions) (tokens : List Token)

theorem statements_finishes_of_sufficientDepth (h : sufficientDepth tokens ≤ depth) :
    Finishes R
      ((Grammar.ofDepth (sufficientDepth tokens)).statements { allowsReturn := options.allowsReturn })
      ((Grammar.ofDepth depth).statements { allowsReturn := options.allowsReturn }) (.ofTokens tokens)
      fun _ _ => True :=
  Grammar.statements_finishes (n := tokens.length + 1)
    ((Grammar.endsWithin _).finishesBelow (Nat.le_refl _) h)
    (Nat.lt_succ_of_le (length_ofTokens_le tokens)) _

-- No matter how deep the rules may call each other, if it is deep enough.
theorem statementsWithin_eq (h : sufficientDepth tokens ≤ depth) :
    statementsWithin depth options tokens = parseStatements options tokens :=
  (statements_finishes_of_sufficientDepth options tokens h).run_eq (ofTokens_rests tokens).ending

theorem parseStatements_ne_exhausted : parseStatements options tokens ≠ .error .exhausted := by
  intro h
  have hrun := statements_finishes_of_sufficientDepth (R := .equality) options tokens
    (Nat.le_refl _) (ofTokens_rests tokens).ending _ rfl
  rw [StateT.run, show (Grammar.ofDepth _).statements _ _ = _ from h] at hrun
  exact hrun

-- On whatever tokens, the parser comes to an end with a program or an error, at any depth that is
-- sufficient to the same one. The rules that call each other in a circle do so from any place in a
-- stream, also where a probe has put the cursor back, and what they consume is at least one token.
theorem parse_terminates (options : ParseOptions) (tokens : List Token) :
    ((∃ body c, parse options tokens = .ok (.mk ⟨0, (tokens.getLast?.map (·.span.stop)).getD 0⟩
          (.program body options.sourceType)) ∧
        ∀ depth, sufficientDepth tokens ≤ depth →
          statementsWithin depth options tokens = .ok (body, c)) ∨
      ∃ error, parse options tokens = .error error ∧
        ∀ depth, sufficientDepth tokens ≤ depth →
          statementsWithin depth options tokens = .error (.failed error)) ∧
      ∀ depth c, c.Rests → (Grammar.ofDepth depth).Each (MovesOn c) ∧
        (3 * c.ahead.length + 3 ≤ depth → (Grammar.ofDepth depth).Each (Ends c)) := by
  refine ⟨?_, fun depth c hc =>
    ⟨Grammar.ofDepth_movesOn depth hc, Grammar.ofDepth_ends hc.ending⟩⟩
  cases h : parseStatements options tokens with
  | ok read =>
    obtain ⟨body, c⟩ := read
    exact .inl ⟨body, c, parse_of_parseStatements h, fun depth hd =>
      (statementsWithin_eq options tokens hd).trans h⟩
  | error stop =>
    cases stop with
    | failed error =>
      refine .inr ⟨error, ?_, fun depth hd => (statementsWithin_eq options tokens hd).trans h⟩
      rw [parse, h]
    | exhausted => exact absurd h (parseStatements_ne_exhausted options tokens)

-- Both probes find nothing here, and behind the end of input stands more.
theorem parse_terminates_probes :
    let tokens := Token.ofSource "for (var a; b;) c\n(" false ++ Token.ofSource "d" false
    let c := ofTokens tokens
    sufficientDepth tokens ≤ 50 ∧ c.Rests ∧ 3 * c.ahead.length + 3 ≤ 50 ∧
      (∃ error, statementsWithin 50 {} tokens = .error (.failed error)) ∧
        (Grammar.ofDepth 50).Each (MovesOn c) ∧ (Grammar.ofDepth 50).Each (Ends c) := by
  intro tokens c
  have hd : sufficientDepth tokens ≤ 50 := by decide +kernel
  have hl : 3 * c.ahead.length + 3 ≤ 50 := by decide +kernel
  have hfails : (statementsWithin 50 {} tokens).toOption = none := by decide +kernel
  have ⟨h, hrules⟩ := parse_terminates {} tokens
  have ⟨hmoves, hends⟩ := hrules 50 c (ofTokens_rests tokens)
  refine ⟨hd, ofTokens_rests tokens, hl, ?_, hmoves, hends hl⟩
  rcases h with ⟨body, c, _, h⟩ | ⟨error, _, h⟩
  · simp [h 50 hd, Except.toOption] at hfails
  · exact ⟨error, h 50 hd⟩

end

end ScriptTree
