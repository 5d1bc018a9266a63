import ScriptTree.Proofs.Parse.Finishes
import ScriptTree.Proofs.Parse.Follows.Expression

/-!
Blocks, functions and expressions come to an end.
-/

namespace ScriptTree.Grammar

open Rule Cursor

-- The rules that others call in a circle come to an end where less than `n` tokens are left, and there
-- are as many rounds for a loop.
structure FinishesBelow (R : Likeness) (n : Nat) (g g' : Grammar) : Prop where
  limit      : n ≤ g.limit
  limit'     : n ≤ g'.limit
  statement  : ∀ scope c, c.ahead.length < n →
    Finishes R (g.statement scope) (g'.statement scope) c (Shorter c)
  expression : ∀ sequence joinsIn c, c.ahead.length < n →
    Finishes R (g.expression sequence joinsIn) (g'.expression sequence joinsIn) c (Shorter c)
  primary    : ∀ c, c.ahead.length < n → Finishes R g.primary g'.primary c (Shorter c)

variable {R : Likeness} {n : Nat} {g g' : Grammar} {c : Cursor}

theorem bindingIdentifier_finishes :
    Finishes R bindingIdentifier bindingIdentifier c (Shorter c) :=
  (Finishes.expect (by simp)).bind fun _ _ h => .pure h

variable (hg : g.FinishesBelow R n g') (hc : c.ahead.length ≤ n)
include hg hc

/-! ### Blocks and functions -/

theorem block_finishes (scope : JumpScope) :
    Finishes R (g.block scope) (g'.block scope) c (Shorter c) := by
  refine .start fun start => .expecting (by simp) fun c₁ h₁ => ?_
  refine Finishes.bind (Q := Shorter c) ?_ fun body c₂ h₂ => .spanned fun _ => h₂
  refine Finishes.loop (I := fun _ c' => c'.ahead.length < c.ahead.length) (fun body c' h => ?_) h₁
    (Nat.lt_of_lt_of_le (by omega) hg.limit) (Nat.lt_of_lt_of_le (by omega) hg.limit')
  refine .check_ite (fun hk => ?_) fun _ => .isAtEnd_ite .unexpected fun _ => ?_
  · exact .skip_bind (by simp [hk]) fun _ h' => .pure (by omega)
  · exact (hg.statement scope c' (by omega)).bind fun _ _ h' => .pure (by omega)

theorem params_finishes : Finishes R g.params g'.params c (Shorter c) := by
  refine .expecting (by simp) fun c₁ h₁ => ?_
  refine Finishes.loop (I := fun _ c' => c'.ahead.length < c.ahead.length) (fun _ c' h => ?_) h₁
    (Nat.lt_of_lt_of_le (by omega) hg.limit) (Nat.lt_of_lt_of_le (by omega) hg.limit')
  refine .accept_ite (by simp) (fun _ h' => .pure (by omega)) fun _ =>
    bindingIdentifier_finishes.bind fun _ _ h' => ?_
  exact .accept_ite (by simp) (fun _ _ => .pure (by omega)) fun _ => .expecting (by simp) fun _ _ =>
    .pure (by omega)

theorem functionRest_finishes (start : Nat) (isAsync isGenerator : Bool) (id : Option Node) :
    Finishes R (g.functionRest start isAsync isGenerator id)
      (g'.functionRest start isAsync isGenerator id) c (Shorter c) :=
  (params_finishes hg hc).bind fun _ _ h => (block_finishes hg (by omega) _).bind fun _ _ h' =>
    .spanFrom fun _ => .pure (by omega)

theorem functionFrom_finishes (start : Nat) (isAsync needsName : Bool) :
    Finishes R (g.functionFrom start isAsync needsName) (g'.functionFrom start isAsync needsName) c
      (Shorter c) := by
  refine .expecting (by simp) fun c₁ h₁ => (Finishes.accept (by simp)).bind fun _ c₂ h₂ => ?_
  have rest {c₃} (h₃ : c₃.ahead.length ≤ c₂.ahead.length) (isGenerator : Bool) (id : Option Node) :
      Finishes R (g.functionRest start isAsync isGenerator id)
        (g'.functionRest start isAsync isGenerator id) c₃ (Shorter c) :=
    (functionRest_finishes hg (by omega) _ _ _ _).mono fun _ _ h => by omega
  refine .check_ite (fun _ => ?_) fun _ => ?_
  · exact .map_bind (bindingIdentifier_finishes.bind fun _ _ h => rest (by omega) _ _)
  · split
    · exact .bind (Q := fun _ _ => False) .unexpected fun _ _ h => h.elim
    · exact rest (Nat.le_refl _) _ _

theorem function_finishes {isAsync needsName : Bool}
    (hk : isAsync → c.current.kind ≠ .endOfInput) :
    Finishes R (g.function isAsync needsName) (g'.function isAsync needsName) c (Shorter c) := by
  rw [function_eq, function_eq]
  refine .start fun start => ?_
  dsimp only
  split
  case isTrue h =>
    exact .skip_bind (hk h) fun _ h' => (functionFrom_finishes hg (by omega) _ _ _).mono
      fun _ _ h => by omega
  case isFalse => exact functionFrom_finishes hg hc _ _ _

/-! ### Expressions -/

theorem parenthesized_finishes : Finishes R g.parenthesized g'.parenthesized c (Shorter c) :=
  .expecting (by simp) fun _ _ => (hg.expression _ _ _ (by omega)).bind fun _ _ _ =>
    .expecting (by simp) fun _ _ => .pure (by omega)

theorem arguments_finishes : Finishes R g.arguments g'.arguments c (Shorter c) := by
  refine .expecting (by simp) fun c₁ h₁ => ?_
  refine Finishes.loop (I := fun _ c' => c'.ahead.length < c.ahead.length) (fun _ c' h => ?_) h₁
    (Nat.lt_of_lt_of_le (by omega) hg.limit) (Nat.lt_of_lt_of_le (by omega) hg.limit')
  refine .accept_ite (by simp) (fun _ h' => .pure (by omega)) fun _ =>
    (hg.expression _ _ _ (by omega)).bind fun _ _ h' => ?_
  exact .accept_ite (by simp) (fun _ _ => .pure (by omega)) fun _ => .expecting (by simp) fun _ _ =>
    .pure (by omega)

omit hg hc in
theorem memberOf_finishes {object member : Node} {isComputed : Bool}
    {Q : Round Node Node → Cursor → Prop} (h : ∀ n, Q (.again n) c) :
    Finishes R (.again <$> memberOf object member isComputed)
      (.again <$> memberOf object member isComputed) c Q :=
  .map (.spanned fun _ => h _)

omit hc in
-- Less is left behind the accesses, if there are any.
theorem members_finishes (hlt : c.ahead.length < n) (object : Node) :
    Finishes R (g.members object) (g'.members object) c fun _ c' =>
      c'.ahead.length ≤ c.ahead.length ∧ (startsAccess c → c'.ahead.length < c.ahead.length) := by
  refine Finishes.loop (I := fun _ c' => c' = c ∨ c'.ahead.length < c.ahead.length)
    (fun object c' h => ?_) (.inl rfl) (Nat.lt_of_lt_of_le hlt hg.limit)
    (Nat.lt_of_lt_of_le hlt hg.limit')
  have hle : c'.ahead.length ≤ c.ahead.length := by
    rcases h with rfl | h <;> omega
  refine .accept_ite (by simp) (fun c₁ h₁ => .current ?_) fun hdot => .accept_ite (by simp)
    (fun c₁ h₁ => ?_) fun hbracket => .pure ⟨hle, fun hs => ?_⟩
  · split
    case isTrue hw =>
      refine (Finishes.advance fun hk => ?_).bind fun _ _ ⟨_, h₂⟩ => memberOf_finishes fun _ => ?_
      · simp [Token.isWord, hk, TokenKind.isWord] at hw
      · exact ⟨.inr (by omega), by omega⟩
    case isFalse => exact .unexpected
  · exact (hg.expression _ _ _ (by omega)).bind fun _ _ _ => .expecting (by simp) fun _ _ =>
      memberOf_finishes fun _ => ⟨.inr (by omega), by omega⟩
  · exact h.resolve_left fun h => (h ▸ hs).elim hdot hbracket

theorem call_finishes (callee : Node) : Finishes R (g.call callee) (g'.call callee) c (Shorter c) :=
  (arguments_finishes hg hc).bind fun _ _ h => .spanned fun _ => h

omit hg hc in
theorem updated_finishes (target : Node) :
    Finishes R (updated target) (updated target) c (Shorter c) := by
  refine .advance_bind fun c' _ h => ?_
  split
  · exact .fail
  · split
    case h_1 operator ho =>
      exact .spanned fun _ => h fun hk => by simp [hk, TokenKind.operator?] at ho
    case h_2 => exact .fail

theorem assigned_finishes (target : Node) :
    Finishes R (g.assigned target) (g'.assigned target) c (Shorter c) := by
  refine .advance_bind fun c' _ h => ?_
  split
  · exact .fail
  · split
    case h_1 operator ho =>
      have h := h fun hk => by simp [hk, TokenKind.operator?] at ho
      exact (hg.expression _ _ _ (by omega)).bind fun _ _ _ => .spanned fun _ => by omega
    case h_2 => exact .fail

omit hc in
theorem sequenced_finishes (hlt : c.ahead.length < n) (first : Node)
    (hk : c.current.kind = .operator .comma) :
    Finishes R (g.sequenced first) (g'.sequenced first) c (Shorter c) := by
  refine Finishes.bind (Q := Shorter c) ?_ fun _ _ h => .spanned fun _ => h
  refine Finishes.loop (I := fun _ c' => c' = c ∨ c'.ahead.length < c.ahead.length) (fun _ c' h => ?_)
    (.inl rfl) (Nat.lt_of_lt_of_le hlt hg.limit) (Nat.lt_of_lt_of_le hlt hg.limit')
  have hle : c'.ahead.length ≤ c.ahead.length := by
    rcases h with rfl | h <;> omega
  refine .accept_ite (by simp) (fun c₁ h₁ => ?_) fun hcomma => .pure ?_
  · exact (hg.expression _ _ _ (by omega)).bind fun _ _ _ => .pure ⟨.inr (by omega), by omega⟩
  · exact h.resolve_left fun h => hcomma (h ▸ hk)

omit hc in
theorem branched_finishes (hlt : c.ahead.length < n) (test : Node) :
    Finishes R (g.branched test) (g'.branched test) c (Shorter c) :=
  (hg.expression _ _ _ hlt).bind fun _ _ _ => .expecting (by simp) fun _ _ =>
    (hg.expression _ _ _ (by omega)).bind fun _ _ _ => .spanned fun _ => by omega

omit hc in
theorem followed_finishes (hlt : c.ahead.length < n) (allows : Followers) (operand : Node) :
    Finishes R (g.followed allows operand) (g'.followed allows operand) c (NoLonger c) := by
  refine Finishes.loop (I := fun _ c' => c'.ahead.length ≤ c.ahead.length) (fun node c' h => ?_)
    (Nat.le_refl _) (Nat.lt_of_lt_of_le hlt hg.limit) (Nat.lt_of_lt_of_le hlt hg.limit')
  have hlt' : c'.ahead.length < n := Nat.lt_of_le_of_lt h hlt
  have again {r r' : Rule Node} {c₁ : Cursor} (hle : c₁.ahead.length ≤ c'.ahead.length)
      (hr : Finishes R r r' c₁ (Shorter c₁)) :
      Finishes R (Round.again <$> r) (Round.again <$> r') c₁
        (Round.Holds (fun _ c'' => NoLonger c () c'' ∧ Shorter c' () c'') (NoLonger (α := Node) c)) :=
    .map (hr.mono fun _ _ _ => ⟨by omega, by omega⟩)
  refine .current ?_
  split
  case isTrue hk =>
    refine again (Nat.le_refl _) ((members_finishes hg hlt' node).mono fun _ _ hm => hm.right ?_)
    simpa [startsAccess] using hk
  split
  · exact again (Nat.le_refl _) (call_finishes hg (Nat.le_of_lt hlt') node)
  refine .isAfterLineBreak fun _ => ?_
  split
  · exact again (Nat.le_refl _) (updated_finishes node)
  split
  · exact again (Nat.le_refl _) (assigned_finishes hg (Nat.le_of_lt hlt') node)
  split
  case isTrue hk => exact again (Nat.le_refl _) (sequenced_finishes hg hlt' node (by simp_all))
  split
  case isTrue hk =>
    exact .skip_bind (by simp_all) fun _ h₁ =>
      again (Nat.le_of_lt h₁) (branched_finishes hg (by omega) node)
  case isFalse => exact .pure h

omit hc in
theorem operand_finishes (hlt : c.ahead.length < n) :
    Finishes R g.operand g'.operand c (Shorter c) :=
  (hg.primary _ hlt).bind fun _ _ h => (followed_finishes hg (by omega) _ _).mono fun _ _ _ => by omega

theorem prefixUpdate_finishes (operator : UpdateOperator) (hk : c.current.kind ≠ .endOfInput) :
    Finishes R (g.prefixUpdate operator) (g'.prefixUpdate operator) c (Shorter c) := by
  refine (Finishes.advance hk).bind fun op _ ⟨_, h₁⟩ =>
    (operand_finishes hg (by omega)).bind fun n _ h₂ => ?_
  split
  · exact .spanned fun _ => by omega
  · exact .fail

theorem unary_finishes (operator : UnaryOperator) (hk : c.current.kind ≠ .endOfInput) :
    Finishes R (g.unary operator) (g'.unary operator) c (Shorter c) :=
  (Finishes.advance hk).bind fun _ _ ⟨_, _⟩ => (operand_finishes hg (by omega)).bind
    fun _ _ _ => .spanned fun _ => by omega

theorem construction_finishes : Finishes R g.construction g'.construction c (Shorter c) := by
  refine .start fun start => .expecting (by simp) fun _ _ => (hg.primary _ (by omega)).bind
    fun n _ _ => (members_finishes hg (by omega) n).bind fun callee _ ⟨_, _⟩ => ?_
  refine .check_ite (fun _ => ?_) fun _ => .spanned fun _ => by omega
  exact (arguments_finishes hg (by omega)).bind fun _ _ _ => .spanned fun _ => by omega

theorem array_finishes : Finishes R g.array g'.array c (Shorter c) := by
  refine .start fun start => .expecting (by simp) fun c₁ h₁ => ?_
  refine Finishes.bind (Q := Shorter c) ?_ fun _ _ h => .spanned fun _ => h
  refine Finishes.loop (I := fun _ c' => c'.ahead.length < c.ahead.length) (fun _ c' h => ?_) h₁
    (Nat.lt_of_lt_of_le (by omega) hg.limit) (Nat.lt_of_lt_of_le (by omega) hg.limit')
  refine .accept_ite (by simp) (fun _ _ => .pure (by omega)) fun _ => .isAtEnd_ite .unexpected fun _ =>
    .accept_ite (by simp) (fun _ _ => .pure (by omega)) fun _ =>
      (hg.expression _ _ _ (by omega)).bind fun _ _ _ => ?_
  exact .accept_ite (by simp) (fun _ _ => .pure (by omega)) fun _ => .expecting (by simp) fun _ _ =>
    .pure (by omega)

omit hg hc in
theorem literal_finishes : Finishes R literal literal c (Shorter c) := by
  refine .current ?_
  split
  case h_1 kind hk =>
    refine (Finishes.advance fun he => ?_).bind fun _ _ h => .pure h.right
    simp [literalKind?, he] at hk
  case h_2 => exact .unexpected

omit hg hc in
theorem propertyKey_finishes : Finishes R propertyKey propertyKey c (Shorter c) := by
  refine .current ?_
  split
  · exact literal_finishes
  · split
    case isTrue hw =>
      refine .map ((Finishes.advance fun hk => ?_).mono fun _ _ h => h.right)
      simp [Token.isWord, hk, TokenKind.isWord] at hw
    case isFalse => exact .unexpected

theorem property_finishes : Finishes R g.property g'.property c (Shorter c) :=
  propertyKey_finishes.bind fun _ _ _ => .expecting (by simp) fun _ _ =>
    (hg.expression _ _ _ (by omega)).bind fun _ _ _ => .spanned fun _ => by omega

theorem object_finishes : Finishes R g.object g'.object c (Shorter c) := by
  refine .start fun start => .expecting (by simp) fun c₁ h₁ => ?_
  refine Finishes.bind (Q := Shorter c) ?_ fun _ _ h => .spanned fun _ => h
  refine Finishes.loop (I := fun _ c' => c'.ahead.length < c.ahead.length) (fun _ c' h => ?_) h₁
    (Nat.lt_of_lt_of_le (by omega) hg.limit) (Nat.lt_of_lt_of_le (by omega) hg.limit')
  refine .accept_ite (by simp) (fun _ _ => .pure (by omega)) fun _ => .isAtEnd_ite .unexpected fun _ =>
    (property_finishes hg (by omega)).bind fun _ _ _ => ?_
  exact .accept_ite (by simp) (fun _ _ => .pure (by omega)) fun _ => .expecting (by simp) fun _ _ =>
    .check_ite (fun _ => .unexpected) fun _ => .pure (by omega)

omit hg hc in
-- A branch on whether an asynchronous function starts here.
theorem async_ite {y z y' z' : Rule Node} {Q : Node → Cursor → Prop}
    (hy : Finishes R y y' c Q) (hz : Finishes R z z' c Q) :
    Finishes R (do if startsAsyncFunction (← get) then y else z)
      (do if startsAsyncFunction (← get) then y' else z') c Q :=
  .run_ite (b := startsAsyncFunction) (Follows.run_get_ite _ _ _ _)
    (fun _ _ => Follows.run_get_ite _ _ _ _)
    (fun h => by simp [startsAsyncFunction, R.current h, R.following h]) (fun _ => hy) hz

theorem primaryRule_finishes : Finishes R g.primaryRule g'.primaryRule c (Shorter c) := by
  refine .current ?_
  split
  case h_1 hk => exact prefixUpdate_finishes hg hc _ (by simp [hk])
  case h_2 hk => exact prefixUpdate_finishes hg hc _ (by simp [hk])
  case h_3 hk =>
    refine async_ite (.map (function_finishes hg hc (by simp [hk]))) (.map ?_)
    exact (Finishes.advance (by simp [hk])).mono fun _ _ h => h.right
  case h_4 hk => exact (Finishes.advance (by simp [hk])).bind fun _ _ h => .pure h.right
  case h_5 => exact .map (function_finishes hg hc (by simp))
  case h_6 => exact construction_finishes hg hc
  case h_7 => exact parenthesized_finishes hg hc
  case h_8 => exact array_finishes hg hc
  case h_9 => exact object_finishes hg hc
  case h_10 =>
    split
    case h_1 hop =>
      refine unary_finishes hg hc _ fun hk => ?_
      simp [hk, unaryOperator?] at hop
    case h_2 => exact literal_finishes

-- The first operand may take all tokens that are left, not less than `n`.
theorem expressionRule_finishes (hprimary : Finishes R g.primary g'.primary c (Shorter c))
    (sequence joinsIn : Bool) :
    Finishes R (g.expressionRule sequence joinsIn) (g'.expressionRule sequence joinsIn) c
      (Shorter c) := by
  refine hprimary.bind fun _ c₁ h₁ => (followed_finishes hg (by omega) _ _).bind fun first c₂ h₂ =>
    .current ?_
  split
  · exact .pure (by omega)
  refine Finishes.bind (Q := Shorter c) ?_ fun run c₃ h₃ =>
    (followed_finishes hg (by omega) _ _).mono fun _ _ _ => by omega
  refine Finishes.loop (I := fun _ c' => c'.ahead.length < c.ahead.length) (fun run c' h => .current ?_)
    (by omega) (Nat.lt_of_lt_of_le (by omega) hg.limit) (Nat.lt_of_lt_of_le (by omega) hg.limit')
  split
  case h_1 operator level hj =>
    exact .skip_bind (kind_ne_of_joiner? hj) fun _ _ =>
      (operand_finishes hg (by omega)).bind fun _ _ _ => .pure ⟨by omega, by omega⟩
  case h_2 => exact .pure h

end ScriptTree.Grammar
