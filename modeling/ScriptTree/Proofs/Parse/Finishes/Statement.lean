import ScriptTree.Proofs.Parse.Finishes.Expression
import ScriptTree.Proofs.Parse.Follows.Statement

/-!
Statements come to an end.
-/

namespace ScriptTree.Grammar

open Rule Cursor

variable {R : Likeness} {n : Nat} {g g' : Grammar} {c : Cursor}

-- The end of a statement that has a terminator.
theorem terminated_finishes {start : Nat} {form : Form Node} {Q : Node → Cursor → Prop}
    (h : ∀ n c', NoLonger c () c' → Q n c') :
    Finishes R (do terminator; return .mk (← spanFrom start) form)
      (do terminator; return .mk (← spanFrom start) form) c Q :=
  Finishes.terminator.bind fun _ c' hle => .spanned fun n => h n c' hle

variable (hg : g.FinishesBelow R n g') (hc : c.ahead.length ≤ n)
include hg hc

/-! ### Declarations -/

theorem declarator_finishes (kind : VariableKind) (joinsIn : Bool) :
    Finishes R (g.declarator kind joinsIn) (g'.declarator kind joinsIn) c (Shorter c) := by
  refine bindingIdentifier_finishes.bind fun id _ _ => ?_
  have rest {init : Option Node} {c'} (h : c'.ahead.length < c.ahead.length) :
      Finishes R (do
        if kind == .constant && init.isNone then
          fail (.atToken (.missingInitializer (id.identifierName?.getD "")) (← current))
        else return .mk ⟨id.span.start, (← get).lastStop⟩ (.variableDeclarator id init) : Rule Node)
        (do
        if kind == .constant && init.isNone then
          fail (.atToken (.missingInitializer (id.identifierName?.getD "")) (← current))
        else return .mk ⟨id.span.start, (← get).lastStop⟩ (.variableDeclarator id init) : Rule Node) c'
        (Shorter c) := by
    split
    · exact .current .fail
    · have hpure (n : Node) : Finishes R (pure n) (pure n) c' (Shorter c) := .pure h
      refine .congr_run rfl (fun d hd => ?_)
        (hpure (.mk ⟨id.span.start, c'.lastStop⟩ (.variableDeclarator id init)))
      rw [← R.lastStop hd]
      rfl
  refine .accept_ite (by simp) (fun _ _ => ?_) fun _ => rest (by omega)
  exact .map_bind ((hg.expression _ _ _ (by omega)).bind fun _ _ _ => rest (by omega))

theorem variableDeclaration_finishes (joinsIn : Bool) :
    Finishes R (g.variableDeclaration joinsIn) (g'.variableDeclaration joinsIn) c (Shorter c) := by
  refine .start fun start => .current ?_
  split
  case h_1 => exact .unexpected
  case h_2 kind hk =>
    refine .skip_bind (kind_ne_of_declarationKind? (by simp [hk])) fun c₁ h₁ => ?_
    refine Finishes.bind (Q := Shorter c) ?_ fun _ _ h => .spanned fun _ => h
    refine Finishes.loop (I := fun _ c' => c'.ahead.length < c.ahead.length) (fun _ c' h => ?_) h₁
      (Nat.lt_of_lt_of_le (by omega) hg.limit) (Nat.lt_of_lt_of_le (by omega) hg.limit')
    refine (declarator_finishes hg (by omega) _ _).bind fun _ _ _ => ?_
    exact .accept_ite (by simp) (fun _ _ => .pure (by omega)) fun _ => .pure (by omega)

theorem declarationStatement_finishes :
    Finishes R g.declarationStatement g'.declarationStatement c (Shorter c) :=
  (variableDeclaration_finishes hg hc _).bind fun _ _ _ => Finishes.terminator.bind fun _ _ _ =>
    .spanFrom fun _ => .pure (by omega)

/-! ### Branches and loops -/

theorem ifStatement_finishes (scope : JumpScope) :
    Finishes R (g.ifStatement scope) (g'.ifStatement scope) c (Shorter c) := by
  refine .start fun start => .expecting (by simp) fun _ _ => (parenthesized_finishes hg (by omega)).bind
    fun test _ _ => (hg.statement _ _ (by omega)).bind fun consequent _ _ => ?_
  refine .accept_ite (by simp) (fun _ _ => ?_) fun _ => .spanned fun _ => by omega
  exact .map_bind ((hg.statement _ _ (by omega)).bind fun _ _ _ => .spanned fun _ => by omega)

theorem whileStatement_finishes (scope : JumpScope) :
    Finishes R (g.whileStatement scope) (g'.whileStatement scope) c (Shorter c) :=
  .start fun _ => .expecting (by simp) fun _ _ => (parenthesized_finishes hg (by omega)).bind
    fun _ _ _ => (hg.statement _ _ (by omega)).bind fun _ _ _ => .spanned fun _ => by omega

theorem doWhileStatement_finishes (scope : JumpScope) :
    Finishes R (g.doWhileStatement scope) (g'.doWhileStatement scope) c (Shorter c) :=
  .start fun _ => .expecting (by simp) fun _ _ => (hg.statement _ _ (by omega)).bind fun _ _ _ =>
    .expecting (by simp) fun _ _ => (parenthesized_finishes hg (by omega)).bind fun _ _ _ =>
      terminated_finishes fun _ _ _ => by omega

omit hc in
theorem forInRest_finishes (hlt : c.ahead.length < n) (start : Nat) (left : Node) (scope : JumpScope) :
    Finishes R (g.forInRest start left scope) (g'.forInRest start left scope) c (Shorter c) :=
  (hg.expression _ _ _ hlt).bind fun _ _ _ => .expecting (by simp) fun _ _ =>
    (hg.statement _ _ (by omega)).bind fun _ _ _ => .spanned fun _ => by omega

omit hc in
theorem headPart_finishes (hlt : c.ahead.length < n) (closing : Operator) :
    Finishes R (g.headPart closing) (g'.headPart closing) c (NoLonger c) :=
  .check_ite (fun _ => .pure (Nat.le_refl _)) fun _ =>
    .map ((hg.expression _ _ _ hlt).mono fun _ _ h => Nat.le_of_lt h)

theorem forRest_finishes (start : Nat) (init : Option Node) (scope : JumpScope) :
    Finishes R (g.forRest start init scope) (g'.forRest start init scope) c (Shorter c) :=
  .expecting (by simp) fun _ _ => (headPart_finishes hg (by omega) _).bind fun _ _ _ =>
    .expecting (by simp) fun _ _ => (headPart_finishes hg (by omega) _).bind fun _ _ _ =>
      .expecting (by simp) fun _ _ => (hg.statement _ _ (by omega)).bind fun _ _ _ =>
        .spanned fun _ => by omega

omit hg hc in
-- Where the probe finds no variable, the cursor is back where it was.
theorem loopVariable?_finishes :
    Finishes R loopVariable? loopVariable? c (NoLonger c) := by
  have hnone : Finishes R (pure none : Rule (Option Node)) (pure none) c (NoLonger c) :=
    .pure (Nat.le_refl _)
  refine .run_ite (b := startsLoopVariable) (loopVariable?_run c) (fun d _ => loopVariable?_run d)
    (fun h => ?_) (fun hs => ?_) hnone
  · simp only [startsLoopVariable, R.current h, R.current (R.advance h),
      R.current (R.advance (R.advance h))]
  · have hk := kind_ne_of_declarationKind? (startsLoopVariable_iff.mp hs).left
    refine (Finishes.advance hk).bind fun t _ h => ?_
    have hlt := h.right
    split
    · exact .unexpected
    · exact bindingIdentifier_finishes.bind fun _ _ _ => .expecting (by simp) fun _ _ =>
        .pure (by omega)

theorem forStatement_finishes (scope : JumpScope) :
    Finishes R (g.forStatement scope) (g'.forStatement scope) c (Shorter c) := by
  refine .start fun start => .expecting (by simp) fun _ _ => .expecting (by simp) fun c₁ h₁ => ?_
  have rest {init : Option Node} {c'} (h : c'.ahead.length < c.ahead.length) :
      Finishes R (g.forRest start init scope) (g'.forRest start init scope) c' (Shorter c) :=
    (forRest_finishes hg (by omega) _ _ _).mono fun _ _ _ => by omega
  have restIn {left : Node} {c'} (h : c'.ahead.length < c.ahead.length) :
      Finishes R (g.forInRest start left scope) (g'.forInRest start left scope) c' (Shorter c) :=
    (forInRest_finishes hg (by omega) _ _ _).mono fun _ _ _ => by omega
  refine .check_ite (fun _ => rest (by omega)) fun _ => .current ?_
  split
  · refine loopVariable?_finishes.bind fun left c₂ h₂ => ?_
    cases left
    case some left => exact restIn (by omega)
    case none =>
      exact (variableDeclaration_finishes hg (by omega) _).bind fun _ _ _ => rest (by omega)
  · refine (hg.expression _ _ _ (by omega)).bind fun first _ _ => ?_
    refine .accept_ite (by simp) (fun _ _ => ?_) fun _ => rest (by omega)
    split
    · exact restIn (by omega)
    · exact .current .fail

/-! ### Switches -/

theorem caseTest_finishes (hasDefault : Bool) :
    Finishes R (g.caseTest hasDefault) (g'.caseTest hasDefault) c (Shorter c) := by
  refine .accept_ite (by simp) (fun _ _ => ?_) fun _ => ?_
  · exact (hg.expression _ _ _ (by omega)).bind fun _ _ _ => .pure (by omega)
  · refine .read (x := check _) (fun _ => rfl) (fun h => congrArg (·.kind == _) (R.current h)) ?_
    split
    case isTrue hk => exact .skip_bind (by simp_all) fun _ h => .pure h
    case isFalse => exact .unexpected

omit hc in
theorem caseBody_finishes (hlt : c.ahead.length < n) (scope : JumpScope) :
    Finishes R (g.caseBody scope) (g'.caseBody scope) c (NoLonger c) := by
  refine Finishes.loop (I := fun _ c' => c'.ahead.length ≤ c.ahead.length) (fun _ c' h => .current ?_)
    (Nat.le_refl _) (Nat.lt_of_lt_of_le hlt hg.limit) (Nat.lt_of_lt_of_le hlt hg.limit')
  dsimp only
  split
  · exact .pure h
  · exact .isAtEnd_ite .unexpected fun _ => (hg.statement _ _ (by omega)).bind fun _ _ _ =>
      .pure (by omega)

theorem switchStatement_finishes (scope : JumpScope) :
    Finishes R (g.switchStatement scope) (g'.switchStatement scope) c (Shorter c) := by
  refine .start fun start => .expecting (by simp) fun _ _ => (parenthesized_finishes hg (by omega)).bind
    fun _ _ _ => .expecting (by simp) fun c₁ h₁ => ?_
  refine Finishes.bind (Q := Shorter c) ?_ fun _ _ h => .spanned fun _ => h
  refine Finishes.loop (I := fun _ c' => c'.ahead.length < c.ahead.length) (fun state c' h => ?_)
    (by omega) (Nat.lt_of_lt_of_le (by omega) hg.limit) (Nat.lt_of_lt_of_le (by omega) hg.limit')
  obtain ⟨cases, hasDefault⟩ := state
  refine .accept_ite (by simp) (fun _ _ => .pure (by omega)) fun _ => .start fun _ =>
    (caseTest_finishes hg (by omega) _).bind fun _ _ _ => .expecting (by simp) fun _ _ =>
      (caseBody_finishes hg (by omega) _).bind fun _ _ _ => .spanFrom fun _ =>
        .pure (by omega)

/-! ### Jumps -/

omit hg hc in
theorem jumpLabel_finishes : Finishes R jumpLabel jumpLabel c (NoLonger c) := by
  refine .read (x := check _) (fun _ => rfl) (fun h => congrArg (·.kind == _) (R.current h))
    (.isAfterLineBreak fun _ => ?_)
  split
  · exact .map (bindingIdentifier_finishes.mono fun _ _ h => Nat.le_of_lt h)
  · exact .pure (Nat.le_refl _)

omit hg hc in
theorem breakStatement_finishes (scope : JumpScope) (hk : c.current.kind ≠ .endOfInput) :
    Finishes R (breakStatement scope) (breakStatement scope) c (Shorter c) := by
  unfold breakStatement
  split
  · exact .current .fail
  · exact .start fun _ => .skip_bind hk fun _ _ => jumpLabel_finishes.bind fun _ _ _ =>
      terminated_finishes fun _ _ _ => by omega

omit hg hc in
theorem continueStatement_finishes (scope : JumpScope) (hk : c.current.kind ≠ .endOfInput) :
    Finishes R (continueStatement scope) (continueStatement scope) c (Shorter c) := by
  unfold continueStatement
  split
  · exact .current .fail
  · exact .start fun _ => .skip_bind hk fun _ _ => jumpLabel_finishes.bind fun _ _ _ =>
      terminated_finishes fun _ _ _ => by omega

omit hc in
theorem returnArgument_finishes (hlt : c.ahead.length < n) :
    Finishes R g.returnArgument g'.returnArgument c (NoLonger c) := by
  refine .current ?_
  dsimp only
  split
  · exact .pure (Nat.le_refl _)
  refine .isAfterLineBreak fun _ => ?_
  split
  · exact .pure (Nat.le_refl _)
  · exact .map ((hg.expression _ _ _ hlt).mono fun _ _ h => Nat.le_of_lt h)

theorem returnStatement_finishes (scope : JumpScope) (hk : c.current.kind ≠ .endOfInput) :
    Finishes R (g.returnStatement scope) (g'.returnStatement scope) c (Shorter c) := by
  unfold returnStatement
  split
  · exact .current .fail
  · exact .start fun _ => .skip_bind hk fun _ _ =>
      (returnArgument_finishes hg (by omega)).bind fun _ _ _ =>
        terminated_finishes fun _ _ _ => by omega

theorem throwStatement_finishes : Finishes R g.throwStatement g'.throwStatement c (Shorter c) :=
  .start fun _ => .expecting (by simp) fun _ _ => (hg.expression _ _ _ (by omega)).bind fun _ _ _ =>
    terminated_finishes fun _ _ _ => by omega

/-! ### Other statements -/

theorem catchClause_finishes (scope : JumpScope) (hk : c.current.kind ≠ .endOfInput) :
    Finishes R (g.catchClause scope) (g'.catchClause scope) c (Shorter c) :=
  .start fun _ => .skip_bind hk fun _ _ => .expecting (by simp) fun _ _ =>
    bindingIdentifier_finishes.bind fun _ _ _ => .expecting (by simp) fun _ _ =>
      (block_finishes hg (by omega) _).bind fun _ _ _ => .spanned fun _ => by omega

theorem tryStatement_finishes (scope : JumpScope) :
    Finishes R (g.tryStatement scope) (g'.tryStatement scope) c (Shorter c) := by
  refine .start fun start => .expecting (by simp) fun _ _ => (block_finishes hg (by omega) _).bind
    fun block _ _ => ?_
  have last {handler finalizer : Option Node} {c'} (h : c'.ahead.length < c.ahead.length) :
      Finishes R (do
          if handler.isNone && finalizer.isNone then unexpected
          else return .mk (← spanFrom start) (.tryStatement block handler finalizer) : Rule Node)
        (do
          if handler.isNone && finalizer.isNone then unexpected
          else return .mk (← spanFrom start) (.tryStatement block handler finalizer) : Rule Node) c'
        (Shorter c) := by
    split
    · exact .unexpected
    · exact .spanned fun _ => h
  have rest {handler : Option Node} {c'} (h : c'.ahead.length < c.ahead.length) :
      Finishes R (do
          let finalizer ←
            if ← accept (.keyword .finallyWord) then some <$> g.block scope else pure none
          if handler.isNone && finalizer.isNone then unexpected
          else return .mk (← spanFrom start) (.tryStatement block handler finalizer) : Rule Node)
        (do
          let finalizer ←
            if ← accept (.keyword .finallyWord) then some <$> g'.block scope else pure none
          if handler.isNone && finalizer.isNone then unexpected
          else return .mk (← spanFrom start) (.tryStatement block handler finalizer) : Rule Node) c'
        (Shorter c) := by
    refine .accept_ite (by simp) (fun _ _ => ?_) fun _ => last h
    exact .map_bind ((block_finishes hg (by omega) _).bind fun _ _ _ => last (by omega))
  refine .check_ite (fun hk => ?_) fun _ => rest (by omega)
  exact .map_bind ((catchClause_finishes hg (by omega) _ (by simp [hk])).bind fun _ _ _ =>
    rest (by omega))

theorem withStatement_finishes (scope : JumpScope) :
    Finishes R (g.withStatement scope) (g'.withStatement scope) c (Shorter c) :=
  .start fun _ => .expecting (by simp) fun _ _ => (parenthesized_finishes hg (by omega)).bind
    fun _ _ _ => (hg.statement _ _ (by omega)).bind fun _ _ _ => .spanned fun _ => by omega

omit hg hc in
theorem debuggerStatement_finishes :
    Finishes R debuggerStatement debuggerStatement c (Shorter c) :=
  .start fun _ => .expecting (by simp) fun _ _ => terminated_finishes fun _ _ _ => by omega

-- The expression may take all tokens that are left.
section expression

variable (hexpression : ∀ sequence joinsIn,
  Finishes R (g.expression sequence joinsIn) (g'.expression sequence joinsIn) c (Shorter c))
include hexpression

omit hg hc in
theorem expressionStatement_finishes :
    Finishes R g.expressionStatement g'.expressionStatement c (Shorter c) :=
  .start fun _ => (hexpression _ _).bind fun _ _ _ => terminated_finishes fun _ _ _ => by omega

-- Where the probe finds no label, the cursor is back where it was.
theorem namedStatement_finishes (scope : JumpScope) (hk : c.current.kind = .identifier) :
    Finishes R (g.namedStatement scope) (g'.namedStatement scope) c (Shorter c) := by
  refine .run_ite (b := startsLabel) (namedStatement_run scope hk)
    (fun d hd => namedStatement_run scope (R.current hd ▸ hk)) (fun h => ?_) (fun _ => ?_)
    (expressionStatement_finishes hexpression)
  · rw [startsLabel, startsLabel, R.current (R.advance h)]
  · exact .start fun _ => bindingIdentifier_finishes.bind fun _ _ _ => .expecting (by simp) fun _ _ =>
      (hg.statement _ _ (by omega)).bind fun _ _ _ => .spanned fun _ => by omega

theorem statementRule_finishes (scope : JumpScope) :
    Finishes R (g.statementRule scope) (g'.statementRule scope) c (Shorter c) := by
  refine .current ?_
  split
  case h_1 | h_2 | h_3 => exact declarationStatement_finishes hg hc
  case h_4 => exact ifStatement_finishes hg hc _
  case h_5 => exact switchStatement_finishes hg hc _
  case h_6 => exact whileStatement_finishes hg hc _
  case h_7 => exact forStatement_finishes hg hc _
  case h_8 => exact doWhileStatement_finishes hg hc _
  case h_9 hk => exact breakStatement_finishes _ (by simp [hk])
  case h_10 hk => exact continueStatement_finishes _ (by simp [hk])
  case h_11 => exact .map (function_finishes hg hc (by simp))
  case h_12 hk => exact returnStatement_finishes hg hc _ (by simp [hk])
  case h_13 => exact throwStatement_finishes hg hc
  case h_14 => exact tryStatement_finishes hg hc _
  case h_15 => exact withStatement_finishes hg hc _
  case h_16 => exact debuggerStatement_finishes
  case h_17 => exact block_finishes hg hc _
  case h_18 hk => exact (Finishes.advance (by simp [hk])).bind fun _ _ h => .pure h.right
  case h_19 hk =>
    exact async_ite (.map (function_finishes hg hc (by simp [hk])))
      (namedStatement_finishes hg hc hexpression _ hk)
  case h_20 => exact expressionStatement_finishes hexpression

end expression

omit hc in
theorem statements_finishes (hlt : c.ahead.length < n) (scope : JumpScope) :
    Finishes R (g.statements scope) (g'.statements scope) c fun _ _ => True := by
  refine Finishes.loop (I := fun _ c' => c'.ahead.length ≤ c.ahead.length) (fun _ c' h => ?_)
    (Nat.le_refl _) (Nat.lt_of_lt_of_le hlt hg.limit) (Nat.lt_of_lt_of_le hlt hg.limit')
  exact .isAtEnd_ite (.pure trivial) fun _ => (hg.statement _ _ (by omega)).bind fun _ _ _ =>
    .pure ⟨by omega, by omega⟩

end ScriptTree.Grammar
