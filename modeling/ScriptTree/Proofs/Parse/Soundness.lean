import ScriptTree.Proofs.Parse.Role
import ScriptTree.Proofs.Parse.Yields

/-!
What the parser accepts is a script: every node of its trees plays the role of its place.
-/

namespace ScriptTree

open Rule Role

variable {L : Token → Prop}

-- Where the cursor cannot be after a statement: what would still belong to it.
structure Closes (n : Node) (c : Cursor) : Prop where
  terminator : n.endsWithTerminator → c.current.kind ≠ .operator .semicolon
  openIf     : n.endsWithOpenIf → c.current.kind ≠ .keyword .elseWord

-- A statement that was read from `c` on and ends at `c'`.
structure IsStatement (L : Token → Prop) (scope : JumpScope) (c : Cursor) (n : Node) (c' : Cursor) :
    Prop where
  fills  : Fills L (.statement scope) n
  closes : Closes n c'
  empty  : n.type = .emptyStatement → c.current.kind = .operator .semicolon

namespace Grammar

-- The rules that others call in a circle yield what they are called for.
structure IsSound (L : Token → Prop) (g : Grammar) : Prop where
  statement  : ∀ scope c, Yields L (g.statement scope) c (IsStatement L scope c)
  expression : ∀ sequence joinsIn c,
    Yields L (g.expression sequence joinsIn) c fun n _ => Fills L .expression n
  primary    : ∀ c, Yields L g.primary c fun n _ => Fills L .expression n

variable {g : Grammar} {c : Cursor}

theorem name_of_identifier {t : Token} (h : L t) (hk : t.kind = .identifier) :
    Fills L .name (identifierOf t) :=
  .name ⟨t, h, hk, rfl⟩

theorem bindingIdentifier_yields :
    Yields L bindingIdentifier c fun n c' => Fills L .name n ∧ c' = c.advance :=
  Yields.expect.bind fun _ _ ⟨hk, _, hc, hl⟩ => .pure ⟨name_of_identifier (hl (by simp)) hk, hc⟩

-- Statements that were read one after the other, up to the cursor.
structure AreStatements (L : Token → Prop) (scope : JumpScope) (body : List Node) (c : Cursor) :
    Prop where
  fill     : ∀ n ∈ body, Fills L (.statement scope) n
  separate : Separate body
  closes   : ∀ n ∈ body.getLast?, Closes n c

theorem AreStatements.nil {scope : JumpScope} : AreStatements L scope [] c :=
  ⟨by simp, .nil, by simp⟩

theorem AreStatements.append {scope : JumpScope} {body : List Node} {n : Node} {c' : Cursor}
    (h : AreStatements L scope body c) (hn : IsStatement L scope c n c') :
    AreStatements L scope (body ++ [n]) c' where
  fill m hm := by
    rcases List.mem_append.mp hm with hm | hm
    · exact h.fill m hm
    · exact List.mem_singleton.mp hm ▸ hn.fills
  separate := by
    refine h.separate.append (.singleton n) fun m hm m' hm' ht he => ?_
    cases hm'
    exact (h.closes m hm).terminator ht (hn.empty he)
  closes m hm := by
    simp at hm
    exact hm ▸ hn.closes

variable (hg : g.IsSound L)
include hg

theorem block_yields (scope : JumpScope) :
    Yields L (g.block scope) c fun n _ => Fills L (.block scope) n := by
  refine Yields.start.bind fun start _ hc => Yields.expect_skip.bind fun _ c _ => ?_
  refine Yields.bind (Q := fun body _ => ∃ c, AreStatements L scope body c) ?_
    fun body c ⟨_, hb⟩ => ?_
  · refine Yields.loop (I := AreStatements L scope) (fun body c hb => ?_) .nil
    refine Yields.check_ite (fun _ => ?_) fun _ => Yields.isAtEnd_ite (fun _ => .unexpected) fun _ => ?_
    · exact Yields.skip.bind fun _ _ _ => .pure ⟨c, hb⟩
    · exact (hg.statement scope c).bind fun n c' hn => .pure (hb.append hn)
  · exact Yields.spanFrom.bind fun _ _ _ => .pure (.block hb.fill hb.separate)

omit hg in
theorem params_yields : Yields L g.params c fun ns _ => ∀ n ∈ ns, Fills L .name n := by
  refine Yields.expect_skip.bind fun _ c _ => ?_
  refine Yields.loop (I := fun ns _ => ∀ n ∈ ns, Fills L .name n) (fun ns c hns => ?_) (by simp)
  refine Yields.accept_ite (fun _ => .pure hns) fun _ => ?_
  refine bindingIdentifier_yields.bind fun n c ⟨hn, _⟩ => ?_
  have hns : ∀ m ∈ ns ++ [n], Fills L .name m := by simpa [or_imp, forall_and] using ⟨hns, hn⟩
  exact Yields.accept_ite (fun _ => .pure hns) fun _ => Yields.expect_skip.bind fun _ _ _ => .pure hns

-- The parts of a function fit together as either kind of function.
structure FunctionParts.AreSound (L : Token → Prop) (f : FunctionParts) : Prop where
  id      : ∀ n ∈ f.id, Fills L .name n
  params  : ∀ n ∈ f.params, Fills L .name n
  body    : Fills L (.block .functionBody) f.body
  traits  : f.traits.isExpression = false

theorem function_yields (isAsync needsName : Bool) :
    Yields L (g.function isAsync needsName) c fun f _ =>
      f.AreSound L ∧ (needsName → f.id.isSome) := by
  refine Yields.start.bind fun start _ _ => ?_
  -- The parts behind the name, and before them everything behind the word that may stand first.
  have rest {isGenerator c} (id : Option Node) (hid : ∀ n ∈ id, Fills L .name n)
      (hneeds : needsName → id.isSome) :
      Yields L (do
        let params ← g.params
        let body ← g.block .functionBody
        return (⟨← spanFrom start, id, params, body, { isAsync, isGenerator }⟩ : FunctionParts)) c
        fun f _ => f.AreSound L ∧ (needsName → f.id.isSome) :=
    params_yields.bind fun _ _ hparams => (block_yields hg _).bind fun _ _ hbody =>
      Yields.spanFrom.bind fun _ _ _ => .pure ⟨⟨hid, hparams, hbody, rfl⟩, hneeds⟩
  have parts c : Yields L (do
      discard (expect (.keyword .functionWord))
      let isGenerator ← accept (.operator .star)
      let id ←
        if ← check .identifier then some <$> bindingIdentifier
        else if needsName then unexpected
        else pure none
      let params ← g.params
      let body ← g.block .functionBody
      return (⟨← spanFrom start, id, params, body, { isAsync, isGenerator }⟩ : FunctionParts)) c
      fun f _ => f.AreSound L ∧ (needsName → f.id.isSome) := by
    refine Yields.expect_skip.bind fun _ _ _ => Yields.accept.bind fun isGenerator _ _ => ?_
    refine Yields.check_ite (fun _ => ?_) fun _ => ?_
    · exact Yields.map_bind bindingIdentifier_yields fun n _ ⟨hn, _⟩ =>
        rest (some n) (by simpa using hn) (by simp)
    · split
      case isTrue => exact Yields.unexpected_bind
      case isFalse h => exact rest none (by simp) (by simp [h])
  dsimp only
  split
  · exact Yields.skip.bind fun _ c _ => parts c
  · exact parts _

/-! ### Expressions -/

theorem parenthesized_yields : Yields L g.parenthesized c fun n _ => Fills L .expression n :=
  Yields.expect_skip.bind fun _ _ _ => (hg.expression _ _ _).bind fun _ _ hn =>
    Yields.expect_skip.bind fun _ _ _ => .pure hn

theorem arguments_yields : Yields L g.arguments c fun ns _ => ∀ n ∈ ns, Fills L .expression n := by
  refine Yields.expect_skip.bind fun _ c _ => ?_
  refine Yields.loop (I := fun ns _ => ∀ n ∈ ns, Fills L .expression n) (fun ns c hns => ?_)
    (by simp)
  refine Yields.accept_ite (fun _ => .pure hns) fun _ => (hg.expression _ _ _).bind fun n c hn => ?_
  have hns : ∀ m ∈ ns ++ [n], Fills L .expression m := by
    simpa [or_imp, forall_and] using ⟨hns, hn⟩
  exact Yields.accept_ite (fun _ => .pure hns) fun _ => Yields.expect_skip.bind fun _ _ _ => .pure hns

theorem members_yields {object : Node} (ho : Fills L .expression object) :
    Yields L (g.members object) c fun n _ => Fills L .expression n := by
  refine Yields.loop (I := fun n _ => Fills L .expression n) (fun object c ho => ?_) ho
  refine Yields.accept_ite (fun _ => ?_) fun _ => Yields.accept_ite (fun _ => ?_) fun _ => .pure ho
  · refine Yields.current.bind fun _ c' ⟨ht, hc⟩ => ?_
    subst ht hc
    split
    case isFalse => exact .unexpected
    case isTrue hw =>
      refine Yields.advance.bind fun t _ ⟨ht, _, hl⟩ => ?_
      refine Yields.map (Yields.spanFrom.bind fun _ _ _ => .pure ?_)
      have hk : t.kind ≠ .endOfInput := by
        intro hk
        simp [← ht, Token.isWord, hk, TokenKind.isWord] at hw
      exact .member ho (.word ⟨t, hl hk, ht ▸ hw, rfl⟩)
  · exact (hg.expression _ _ _).bind fun _ _ hm => Yields.expect_skip.bind fun _ _ _ =>
      Yields.map (Yields.spanFrom.bind fun _ _ _ => .pure (.computedMember ho hm))

theorem call_yields {callee : Node} (hf : Fills L .expression callee) :
    Yields L (g.call callee) c fun n _ => Fills L .expression n :=
  (arguments_yields hg).bind fun _ _ ha => Yields.spanFrom.bind fun _ _ _ => .pure (.call hf ha)

omit hg in
theorem updated_yields {n : Node} (hn : Fills L .expression n) :
    Yields L (updated n) c fun n _ => Fills L .expression n := by
  refine Yields.advance.bind fun op _ _ => ?_
  split
  case isTrue => exact .fail
  case isFalse ha =>
    split
    · exact Yields.spanFrom.bind fun _ _ _ => .pure (.update (.target (by simpa using ha) hn))
    · exact .fail

theorem assigned_yields {n : Node} (hn : Fills L .expression n) (hm : c.current.marks.assignment) :
    Yields L (g.assigned n) c fun n _ => Fills L .expression n := by
  refine Yields.advance.bind fun op _ ⟨ht, _, hl⟩ => ?_
  split
  case isTrue => exact .fail
  case isFalse ha =>
    split
    case h_1 operator ho =>
      have hk : op.kind ≠ .endOfInput := fun hk => by simp [hk, TokenKind.operator?] at ho
      exact (hg.expression _ _ _).bind fun _ _ hv => Yields.spanFrom.bind fun _ _ _ =>
        .pure (.assignment ⟨op, hl hk, ht ▸ hm, ho⟩ (.target (by simpa using ha) hn) hv)
    case h_2 => exact .fail

theorem sequenced_yields {n : Node} (hn : Fills L .expression n)
    (hc : c.current.kind = .operator .comma) :
    Yields L (g.sequenced n) c fun n _ => Fills L .expression n := by
  refine Yields.bind (Q := fun ns _ => 2 ≤ ns.length ∧ ∀ n ∈ ns, Fills L .expression n) ?_
    fun ns _ hns => Yields.spanFrom.bind fun _ _ _ => .pure (.sequence hns.left hns.right)
  refine Yields.loop (I := fun ns c => (∀ n ∈ ns, Fills L .expression n) ∧
    (2 ≤ ns.length ∨ ns.length = 1 ∧ c.current.kind = .operator .comma))
    (fun ns c ⟨hns, hl⟩ => ?_) ⟨by simpa using hn, .inr ⟨rfl, hc⟩⟩
  refine Yields.accept_ite (fun _ => ?_) fun h => ?_
  · refine (hg.expression _ _ _).bind fun n c hn => .pure ⟨?_, .inl ?_⟩
    · simpa [or_imp, forall_and] using ⟨hns, hn⟩
    · simp
      omega
  · exact .pure ⟨hl.resolve_right fun hl => h hl.right, hns⟩

theorem branched_yields {n : Node} (hn : Fills L .expression n) :
    Yields L (g.branched n) c fun n _ => Fills L .expression n :=
  (hg.expression _ _ _).bind fun _ _ hc => Yields.expect_skip.bind fun _ _ _ =>
    (hg.expression _ _ _).bind fun _ _ ha => Yields.spanFrom.bind fun _ _ _ =>
      .pure (.conditional hn hc ha)

theorem followed_yields (allows : Followers) {n : Node} (hn : Fills L .expression n) :
    Yields L (g.followed allows n) c fun n _ => Fills L .expression n := by
  refine Yields.loop (I := fun n _ => Fills L .expression n) (fun n c hn => ?_) hn
  refine Yields.current.bind fun t c' ⟨ht, hc⟩ => ?_
  subst ht hc
  split
  · exact (members_yields hg hn).map
  split
  · exact (call_yields hg hn).map
  refine Yields.isAfterLineBreak.bind fun _ c' hc => ?_
  subst hc
  split
  · exact (updated_yields hn).map
  split
  case isTrue h => exact (assigned_yields hg hn (by simp_all)).map
  split
  case isTrue h => exact (sequenced_yields hg hn (by simp_all)).map
  split
  · exact Yields.skip.bind fun _ _ _ => (branched_yields hg hn).map
  · exact .pure hn

theorem operand_yields : Yields L g.operand c fun n _ => Fills L .expression n :=
  (hg.primary _).bind fun _ _ hn => followed_yields hg _ hn

theorem prefixUpdate_yields (operator : UpdateOperator) :
    Yields L (g.prefixUpdate operator) c fun n _ => Fills L .expression n := by
  refine Yields.advance.bind fun _ _ _ => (operand_yields hg).bind fun n _ hn => ?_
  split
  case isTrue ha => exact Yields.spanFrom.bind fun _ _ _ => .pure (.update (.target ha hn))
  case isFalse => exact .fail

theorem unary_yields (operator : UnaryOperator) :
    Yields L (g.unary operator) c fun n _ => Fills L .expression n :=
  Yields.advance.bind fun _ _ _ => (operand_yields hg).bind fun _ _ hn =>
    Yields.spanFrom.bind fun _ _ _ => .pure (.unary hn)

theorem construction_yields : Yields L g.construction c fun n _ => Fills L .expression n := by
  refine Yields.start.bind fun start _ _ => Yields.expect_skip.bind fun _ _ _ =>
    (hg.primary _).bind fun _ _ hn => (members_yields hg hn).bind fun callee c hn => ?_
  have rest {ns c} (hns : ∀ n ∈ ns, Fills L .expression n) :
      Yields L (do return .mk (← spanFrom start) (.newExpression callee ns)) c
        fun n _ => Fills L .expression n :=
    Yields.spanFrom.bind fun _ _ _ => .pure (.construction hn hns)
  exact Yields.check_ite (fun _ => (arguments_yields hg).bind fun _ _ hns => rest hns)
    fun _ => rest (by simp)

theorem array_yields : Yields L g.array c fun n _ => Fills L .expression n := by
  refine Yields.start.bind fun _ _ _ => Yields.expect_skip.bind fun _ _ _ => ?_
  refine Yields.bind (Q := fun es _ => ∀ n, some n ∈ es → Fills L .expression n) ?_
    fun ns _ hns => Yields.spanFrom.bind fun _ _ _ => .pure (.array hns)
  refine Yields.loop (I := fun es _ => ∀ n, some n ∈ es → Fills L .expression n)
    (fun es c hes => ?_) (by simp)
  refine Yields.accept_ite (fun _ => .pure hes) fun _ => Yields.isAtEnd_ite (fun _ => .unexpected)
    fun _ => Yields.accept_ite (fun _ => .pure (by simpa using hes)) fun _ => ?_
  refine (hg.expression _ _ _).bind fun n _ hn => ?_
  have hes : ∀ m, some m ∈ es ++ [some n] → Fills L .expression m := by
    simpa [or_imp, forall_and] using ⟨hes, hn⟩
  exact Yields.accept_ite (fun _ => .pure hes) fun _ => Yields.expect_skip.bind fun _ _ _ => .pure hes

omit hg in
theorem literal_yields :
    Yields L literal c fun n _ => ∃ span kind raw, n = .mk span (.literal kind raw) ∧
      IsLiteral L kind raw ∧ literalKind? c.current = some kind := by
  refine Yields.current.bind fun t c' ⟨ht, hc⟩ => ?_
  subst ht hc
  split
  case h_1 kind hk =>
    refine Yields.advance.bind fun t _ ⟨ht, _, hl⟩ => .pure ⟨_, kind, _, rfl, ⟨t, hl ?_, ht ▸ hk, rfl⟩, hk⟩
    intro he
    simp [literalKind?, ← ht, he] at hk
  case h_2 => exact .unexpected

omit hg in
theorem propertyKey_yields : Yields L propertyKey c fun n _ => Fills L .key n := by
  refine Yields.current.bind fun t c' ⟨ht, hc⟩ => ?_
  subst ht hc
  split
  case isTrue h =>
    refine literal_yields.mono fun n _ ⟨_, kind, _, hn, hl, hk⟩ => hn ▸ .keyLiteral ?_ hl
    simp only [Bool.or_eq_true, beq_iff_eq] at h
    rcases h with h | h <;> simp only [literalKind?, h, Option.some.injEq] at hk <;> subst hk
    · split <;> simp
    · simp
  case isFalse =>
    split
    case isTrue hw =>
      refine Yields.map (Yields.advance.mono fun t _ ⟨ht, _, hl⟩ => ?_)
      have hk : t.kind ≠ .endOfInput := by
        intro hk
        simp [← ht, Token.isWord, hk, TokenKind.isWord] at hw
      exact .keyWord ⟨t, hl hk, ht ▸ hw, rfl⟩
    case isFalse => exact .unexpected

theorem property_yields : Yields L g.property c fun n _ => Fills L .property n :=
  propertyKey_yields.bind fun _ _ hk => Yields.expect_skip.bind fun _ _ _ =>
    (hg.expression _ _ _).bind fun _ _ hv => Yields.spanFrom.bind fun _ _ _ => .pure (.property hk hv)

theorem object_yields : Yields L g.object c fun n _ => Fills L .expression n := by
  refine Yields.start.bind fun _ _ _ => Yields.expect_skip.bind fun _ _ _ => ?_
  refine Yields.bind (Q := fun ns _ => ∀ n ∈ ns, Fills L .property n) ?_
    fun ns _ hns => Yields.spanFrom.bind fun _ _ _ => .pure (.object hns)
  refine Yields.loop (I := fun ns _ => ∀ n ∈ ns, Fills L .property n) (fun ns c hns => ?_) (by simp)
  refine Yields.accept_ite (fun _ => .pure hns) fun _ => Yields.isAtEnd_ite (fun _ => .unexpected)
    fun _ => (property_yields hg).bind fun n _ hn => ?_
  have hns : ∀ m ∈ ns ++ [n], Fills L .property m := by
    simpa [or_imp, forall_and] using ⟨hns, hn⟩
  exact Yields.accept_ite (fun _ => .pure hns) fun _ => Yields.expect_skip.bind fun _ _ _ =>
    Yields.check_ite (fun _ => .unexpected) fun _ => .pure hns

omit hg in
theorem FunctionParts.AreSound.toExpression {f : FunctionParts} (h : f.AreSound L) :
    Fills L .expression f.toExpression := by
  have ⟨span, id, params, body, ⟨isAsync, isGenerator, isExpression⟩⟩ := f
  cases h.traits
  exact .functionExpression h.id h.params h.body

theorem primaryRule_yields : Yields L g.primaryRule c fun n _ => Fills L .expression n := by
  refine Yields.current.bind fun t c' ⟨ht, hc⟩ => ?_
  subst ht hc
  have hfunction {isAsync c} : Yields L (FunctionParts.toExpression <$> g.function isAsync false) c
      fun n _ => Fills L .expression n :=
    Yields.map ((function_yields hg _ _).mono fun f _ hf => hf.left.toExpression)
  split
  case h_1 => exact prefixUpdate_yields hg _
  case h_2 => exact prefixUpdate_yields hg _
  case h_3 hk =>
    refine Yields.get.bind fun c' c'' ⟨hc', hc⟩ => ?_
    subst hc' hc
    split
    · exact hfunction
    · refine Yields.map (Yields.advance.mono fun t _ ⟨ht, _, hl⟩ => .identifier ?_)
      exact name_of_identifier (hl (by simp [ht, hk])) (ht ▸ hk)
  case h_4 => exact Yields.advance.bind fun _ _ _ => .pure .thisExpression
  case h_5 => exact hfunction
  case h_6 => exact construction_yields hg
  case h_7 => exact parenthesized_yields hg
  case h_8 => exact array_yields hg
  case h_9 => exact object_yields hg
  case h_10 =>
    split
    · exact unary_yields hg _
    · exact literal_yields.mono fun n _ ⟨_, _, _, hn, hl, _⟩ => hn ▸ .literal hl

omit hg in
theorem joins_of_joiner? {joinsIn : Bool} {operator : Operator} {level : Nat} {t : Token}
    (hl : t.kind ≠ .endOfInput → L t) (h : joiner? joinsIn t = some (operator, level)) :
    Joins L operator := by
  refine ⟨t, level, hl ?_, ?_⟩
  · intro hk
    simp [joiner?, hk] at h
  · cases joinsIn
    case true => exact h
    case false =>
      rw [← h]
      unfold joiner?
      split <;> simp_all [joiner?]

-- All operands of a run are expressions, and its operators join them.
structure OperandRun.IsSound (L : Token → Prop) (run : OperandRun) : Prop where
  pending : ∀ p ∈ run.pending, Fills L .expression p.1 ∧ Joins L p.2
  last    : Fills L .expression run.last

omit hg in
theorem OperandRun.fold_isSound (takes : Operator → Bool) {run : OperandRun} (h : run.IsSound L) :
    (fold takes run.pending run.last).IsSound L := by
  obtain ⟨pending, last⟩ := run
  induction pending generalizing last
  case nil => exact h
  case cons p pending ih =>
    have ⟨⟨hl, ho⟩, hp⟩ := List.forall_mem_cons.mp h.pending
    simp only [fold]
    split
    · exact ih _ ⟨hp, .binary ho hl h.last⟩
    · exact h

omit hg in
theorem OperandRun.IsSound.push {run : OperandRun} (h : run.IsSound L) {operator : Operator}
    {level : Nat} {right : Node} (ho : Joins L operator) (hr : Fills L .expression right) :
    (run.push operator level right).IsSound L := by
  have hf := fold_isSound (fun op => op.level.any (level ≤ ·)) h
  exact ⟨List.forall_mem_cons.mpr ⟨⟨hf.last, ho⟩, hf.pending⟩, hr⟩

theorem expressionRule_yields (sequence joinsIn : Bool) :
    Yields L (g.expressionRule sequence joinsIn) c fun n _ => Fills L .expression n := by
  refine (hg.primary _).bind fun _ _ hn => (followed_yields hg _ hn).bind fun first c hn => ?_
  refine Yields.current.bind fun t c' ⟨ht, hc⟩ => ?_
  subst ht hc
  split
  · exact .pure hn
  refine Yields.bind (Q := fun run _ => run.IsSound L) ?_ fun run c hrun =>
    followed_yields hg _ (OperandRun.fold_isSound _ hrun).last
  refine Yields.loop (I := fun run _ => run.IsSound L) (fun run c hrun => ?_) ⟨by simp, hn⟩
  refine Yields.current_holds.bind fun t c' ⟨_, hl⟩ => ?_
  split
  case h_1 operator level hj =>
    exact Yields.skip.bind fun _ _ _ => (operand_yields hg).bind fun _ _ hr =>
      .pure (hrun.push (joins_of_joiner? hl hj) hr)
  case h_2 => exact .pure hrun

/-! ### Statements -/

omit hg in
theorem terminator_yields :
    Yields L terminator c fun _ c' => c'.current.kind ≠ .operator .semicolon := by
  refine Yields.isAtEnd.bind fun b c h => ?_
  obtain ⟨hb, rfl⟩ := h
  refine Yields.check.bind fun b' c h => ?_
  obtain ⟨hb', rfl⟩ := h
  split
  case isTrue h =>
    refine .endStatement fun hk => ?_
    have hk : c.current.kind = .operator .semicolon := hk
    simp [hb, hb', Cursor.isAtEnd, hk] at h
  case isFalse =>
    refine Yields.check_ite (fun _ => ?_) fun hk => Yields.get.bind fun _ _ h => ?_
    · exact fun hc => hc.skipSemicolons
    · split
      · exact .endStatement (h.right ▸ hk)
      · exact .unexpected

-- The end of a statement.
omit hg in
theorem statement_yields {scope : JumpScope} {c₀ : Cursor} {start : Nat} {form : Form Node}
    (hf : ∀ span, Fills L (.statement scope) (.mk span form))
    (hc : ∀ span, Closes (.mk span form) c) (he : form.type ≠ .emptyStatement) :
    Yields L (do return .mk (← spanFrom start) form) c (IsStatement L scope c₀) :=
  Yields.spanFrom.bind fun span _ h => .pure ⟨hf span, h ▸ hc span, fun h => absurd h he⟩

omit hg in
theorem terminated_yields {scope : JumpScope} {c₀ : Cursor} {start : Nat} {form : Form Node}
    (hf : ∀ span, Fills L (.statement scope) (.mk span form))
    (ho : ∀ span, (Node.mk span form).endsWithOpenIf = false) (he : form.type ≠ .emptyStatement) :
    Yields L (do
      terminator
      return .mk (← spanFrom start) form) c (IsStatement L scope c₀) :=
  terminator_yields.bind fun _ _ ht =>
    statement_yields hf (fun span => ⟨fun _ => ht, fun h => by simp [ho] at h⟩) he

theorem declarator_yields (kind : VariableKind) (joinsIn : Bool) :
    Yields L (g.declarator kind joinsIn) c fun n _ => Fills L (.declarator kind) n := by
  refine bindingIdentifier_yields.bind fun id c ⟨hid, _⟩ => ?_
  have rest {init c} (hinit : ∀ n ∈ init, Fills L .expression n) :
      Yields L (do
        if kind == .constant && init.isNone then
          fail (.atToken (.missingInitializer (id.identifierName?.getD "")) (← current))
        else return .mk ⟨id.span.start, (← get).lastStop⟩ (.variableDeclarator id init)) c
        fun n _ => Fills L (.declarator kind) n := by
    split
    · exact Yields.current.bind fun _ _ _ => .fail
    case isFalse h =>
      refine Yields.get.bind fun _ _ _ => .pure (.declarator (fun hk => ?_) hid hinit)
      cases init <;> simp_all
  refine Yields.accept_ite (fun _ => ?_) fun _ => rest (by simp)
  exact Yields.map_bind (hg.expression _ _ _) fun n _ hn => rest (by simpa using hn)

theorem variableDeclaration_yields (joinsIn : Bool) :
    Yields L (g.variableDeclaration joinsIn) c fun n _ => Fills L .declaration n := by
  refine Yields.start.bind fun _ _ _ => Yields.current.bind fun t _ _ => ?_
  split
  case h_1 => exact .unexpected
  case h_2 kind hk =>
    refine Yields.skip.bind fun _ _ _ => ?_
    refine Yields.bind (Q := fun ns _ => ns ≠ [] ∧ ∀ n ∈ ns, Fills L (.declarator kind) n) ?_
      fun ns _ hns => Yields.spanFrom.bind fun _ _ _ => .pure (.declaration hns.left hns.right)
    refine Yields.loop (I := fun ns _ => ∀ n ∈ ns, Fills L (.declarator kind) n)
      (fun ns c hns => ?_) (by simp)
    refine (declarator_yields hg _ _).bind fun n _ hn => ?_
    have hns : ∀ m ∈ ns ++ [n], Fills L (.declarator kind) m := by
      simpa [or_imp, forall_and] using ⟨hns, hn⟩
    exact Yields.accept_ite (fun _ => .pure hns) fun _ => .pure ⟨by simp, hns⟩

theorem declarationStatement_yields (scope : JumpScope) :
    Yields L g.declarationStatement c (IsStatement L scope c) := by
  refine (variableDeclaration_yields hg _).bind fun n c hn => ?_
  cases hn
  case declaration ds kind hne hds =>
    refine terminator_yields.bind fun _ c ht => Yields.spanFrom.bind fun span _ hc => .pure ?_
    exact ⟨.declarationStatement (.declaration hne hds), ⟨fun _ => hc ▸ ht, nofun⟩, nofun⟩

theorem ifStatement_yields (scope : JumpScope) :
    Yields L (g.ifStatement scope) c (IsStatement L scope c) := by
  refine Yields.start.bind fun start _ _ => Yields.expect_skip.bind fun _ _ _ =>
    (parenthesized_yields hg).bind fun test _ htest =>
      (hg.statement _ _).bind fun consequent c' hconsequent => ?_
  refine Yields.accept_ite (fun hk => ?_) fun hk => ?_
  · refine Yields.map_bind (hg.statement _ _) fun alternate c' halternate =>
      statement_yields (fun _ => ?_) (fun _ => ?_) nofun
    · exact .ifStatement (fun _ ho => hconsequent.closes.openIf ho hk) htest hconsequent.fills
        (by simpa using halternate.fills)
    · exact ⟨halternate.closes.terminator, halternate.closes.openIf⟩
  · show Yields L (do return Node.mk (← spanFrom start) (.ifStatement test consequent none)) _ _
    refine statement_yields (fun _ => ?_) (fun _ => ?_) nofun
    · exact .ifStatement (by simp) htest hconsequent.fills (by simp)
    · exact ⟨hconsequent.closes.terminator, fun _ => hk⟩

theorem whileStatement_yields (scope : JumpScope) :
    Yields L (g.whileStatement scope) c (IsStatement L scope c) :=
  Yields.start.bind fun _ _ _ => Yields.expect_skip.bind fun _ _ _ =>
    (parenthesized_yields hg).bind fun _ _ htest => (hg.statement _ _).bind fun _ _ hbody =>
      statement_yields (fun _ => .whileStatement htest hbody.fills)
        (fun _ => ⟨hbody.closes.terminator, hbody.closes.openIf⟩) nofun

theorem doWhileStatement_yields (scope : JumpScope) :
    Yields L (g.doWhileStatement scope) c (IsStatement L scope c) :=
  Yields.start.bind fun _ _ _ => Yields.expect_skip.bind fun _ _ _ =>
    (hg.statement _ _).bind fun _ _ hbody => Yields.expect_skip.bind fun _ _ _ =>
      (parenthesized_yields hg).bind fun _ _ htest =>
        terminated_yields (fun _ => .doWhileStatement hbody.fills htest) (fun _ => rfl) nofun

omit hg in
theorem loopVariable_yields :
    Yields L loopVariable? c fun n _ => ∀ m ∈ n, Fills L .loopTarget m := by
  intro hc
  refine (Yields.get.bind fun saved _ ⟨hs, _⟩ => ?_) hc
  subst hs
  have reset {c} : Yields L (do
      set saved
      return none) c fun (n : Option Node) _ => ∀ m ∈ n, Fills L .loopTarget m :=
    (Yields.set (Q := fun _ _ => True) hc trivial).bind fun _ _ _ => .pure (by simp)
  refine Yields.advance.bind fun first _ _ => Yields.check.bind fun isNamed c _ => ?_
  split
  · refine bindingIdentifier_yields.bind fun id _ ⟨hid, _⟩ => Yields.accept_ite (fun _ => ?_) fun _ => ?_
    · exact .pure (by simpa using .loopVariable hid)
    · exact reset
  · exact reset

theorem forInRest_yields (start : Nat) {left : Node} (hl : Fills L .loopTarget left)
    (scope : JumpScope) {c₀ : Cursor} :
    Yields L (g.forInRest start left scope) c (IsStatement L scope c₀) :=
  (hg.expression _ _ _).bind fun _ _ hright => Yields.expect_skip.bind fun _ _ _ =>
    (hg.statement _ _).bind fun _ _ hbody =>
      statement_yields (fun _ => .forInStatement hl hright hbody.fills)
        (fun _ => ⟨hbody.closes.terminator, hbody.closes.openIf⟩) nofun

theorem headPart_yields (closing : Operator) :
    Yields L (g.headPart closing) c fun n _ => ∀ m ∈ n, Fills L .expression m :=
  Yields.check_ite (fun _ => .pure (by simp)) fun _ =>
    Yields.map ((hg.expression _ _ _).mono fun _ _ hn => by simpa using hn)

theorem forRest_yields (start : Nat) {init : Option Node} (hi : ∀ n ∈ init, Fills L .loopStart n)
    (scope : JumpScope) {c₀ : Cursor} :
    Yields L (g.forRest start init scope) c (IsStatement L scope c₀) :=
  Yields.expect_skip.bind fun _ _ _ => (headPart_yields hg _).bind fun _ _ htest =>
    Yields.expect_skip.bind fun _ _ _ => (headPart_yields hg _).bind fun _ _ hupdate =>
      Yields.expect_skip.bind fun _ _ _ => (hg.statement _ _).bind fun _ _ hbody =>
        statement_yields (fun _ => .forStatement hi htest hupdate hbody.fills)
          (fun _ => ⟨hbody.closes.terminator, hbody.closes.openIf⟩) nofun

theorem forStatement_yields (scope : JumpScope) :
    Yields L (g.forStatement scope) c (IsStatement L scope c) := by
  refine Yields.start.bind fun start _ _ => Yields.expect_skip.bind fun _ _ _ =>
    Yields.expect_skip.bind fun _ _ _ => ?_
  refine Yields.check_ite (fun _ => forRest_yields hg _ (by simp) _) fun _ =>
    Yields.current.bind fun _ _ _ => ?_
  split
  · refine loopVariable_yields.bind fun left _ hl => ?_
    split
    · exact forInRest_yields hg _ (by simpa using hl) _
    · exact (variableDeclaration_yields hg _).bind fun n _ hn =>
        forRest_yields hg _ (by simpa using .loopDeclaration hn) _
  · refine (hg.expression _ _ _).bind fun first _ hf => Yields.accept_ite (fun _ => ?_) fun _ => ?_
    · split
      case isTrue ha => exact forInRest_yields hg _ (.loopTarget (.target ha hf)) _
      case isFalse => exact Yields.current.bind fun _ _ _ => .fail
    · exact forRest_yields hg _ (by simpa using .loopExpression hf) _

theorem caseTest_yields (hasDefault : Bool) :
    Yields L (g.caseTest hasDefault) c fun r _ => (∀ n ∈ r.1, Fills L .expression n) ∧
      (r.1 = none → hasDefault = false ∧ r.2 = true) ∧ (r.1.isSome → r.2 = hasDefault) := by
  refine Yields.accept_ite (fun _ => ?_) fun _ => Yields.check.bind fun b c ⟨_, hc⟩ => ?_
  · exact (hg.expression _ _ _).bind fun _ _ hn => .pure ⟨by simpa using hn, by simp, by simp⟩
  · split
    · exact Yields.skip.bind fun _ _ _ => .pure ⟨by simp, by simp_all, by simp⟩
    · exact .unexpected

theorem caseBody_yields (scope : JumpScope) :
    Yields L (g.caseBody scope) c (AreStatements L scope) := by
  refine Yields.loop (I := AreStatements L scope) (fun body c hb => ?_) .nil
  refine Yields.current.bind fun t _ ⟨_, hc⟩ => ?_
  subst hc
  dsimp only
  split
  · exact .pure hb
  · refine Yields.isAtEnd_ite (fun _ => .unexpected) fun _ => ?_
    exact (hg.statement _ _).bind fun _ _ hn => .pure (hb.append hn)

-- The arms of a switch so far, and whether a default was among them.
structure AreCases (L : Token → Prop) (scope : JumpScope) (r : List Node × Bool) : Prop where
  fill     : ∀ n ∈ r.1, Fills L (.switchCase scope) n
  defaults : r.1.countP Node.isDefaultCase = if r.2 then 1 else 0

theorem switchStatement_yields (scope : JumpScope) :
    Yields L (g.switchStatement scope) c (IsStatement L scope c) := by
  refine Yields.start.bind fun start _ _ => Yields.expect_skip.bind fun _ _ _ =>
    (parenthesized_yields hg).bind fun _ _ hd => Yields.expect_skip.bind fun _ c _ => ?_
  refine Yields.bind (Q := fun cases _ => ∃ hasDefault, AreCases L scope.inSwitch (cases, hasDefault)) ?_
    fun cases _ ⟨hasDefault, hc⟩ => ?_
  · refine Yields.loop (I := fun r _ => AreCases L scope.inSwitch r) (fun r c hr => ?_) ⟨by simp, rfl⟩
    obtain ⟨cases, hasDefault⟩ := r
    refine Yields.accept_ite (fun _ => .pure ⟨hasDefault, hr⟩) fun _ => Yields.start.bind fun _ _ _ =>
      (caseTest_yields hg _).bind fun ⟨test, hasDefault'⟩ _ ⟨htest, hnone, hsome⟩ =>
        Yields.expect_skip.bind fun _ _ _ => (caseBody_yields hg _).bind fun body _ hbody =>
          Yields.spanFrom.bind fun span _ _ => .pure ⟨?_, ?_⟩
    · have : Fills L (.switchCase scope.inSwitch) (.mk span (.switchCase test body)) :=
        .switchCase htest hbody.fill hbody.separate
      simpa [or_imp, forall_and] using ⟨hr.fill, this⟩
    · have := hr.defaults
      cases test <;> simp_all [Node.isDefaultCase, Node.form]
  · refine statement_yields (fun _ => .switchStatement ?_ hd hc.fill) (fun _ => ⟨nofun, nofun⟩) nofun
    have := hc.defaults
    simp only at this
    split at this <;> omega

omit hg in
theorem jumpLabel_yields : Yields L jumpLabel c fun n _ => ∀ m ∈ n, Fills L .name m := by
  refine Yields.check.bind fun _ _ _ => Yields.isAfterLineBreak.bind fun _ _ _ => ?_
  split
  · exact Yields.map (bindingIdentifier_yields.mono fun _ _ ⟨hn, _⟩ => by simpa using hn)
  · exact .pure (by simp)

omit hg in
theorem illegalJump_yields {jump : Jump} {post : Node → Cursor → Prop} :
    Yields L (illegalJump jump) c post :=
  Yields.current.bind fun _ _ _ => .fail

omit hg in
theorem breakStatement_yields (scope : JumpScope) :
    Yields L (breakStatement scope) c (IsStatement L scope c) := by
  unfold breakStatement
  split
  case isTrue => exact illegalJump_yields
  case isFalse h =>
    exact Yields.start.bind fun _ _ _ => Yields.skip.bind fun _ _ _ => jumpLabel_yields.bind fun _ _ hl =>
      terminated_yields (fun _ => .breakStatement (by simpa using h) hl) (fun _ => rfl) nofun

omit hg in
theorem continueStatement_yields (scope : JumpScope) :
    Yields L (continueStatement scope) c (IsStatement L scope c) := by
  unfold continueStatement
  split
  case isTrue => exact illegalJump_yields
  case isFalse h =>
    exact Yields.start.bind fun _ _ _ => Yields.skip.bind fun _ _ _ => jumpLabel_yields.bind fun _ _ hl =>
      terminated_yields (fun _ => .continueStatement (by simpa using h) hl) (fun _ => rfl) nofun

theorem returnArgument_yields :
    Yields L g.returnArgument c fun n _ => ∀ m ∈ n, Fills L .expression m := by
  refine Yields.current.bind fun _ _ _ => ?_
  dsimp only
  split
  · exact .pure (by simp)
  · refine Yields.isAfterLineBreak.bind fun _ _ _ => ?_
    split
    · exact .pure (by simp)
    · exact Yields.map ((hg.expression _ _ _).mono fun _ _ hn => by simpa using hn)

theorem returnStatement_yields (scope : JumpScope) :
    Yields L (g.returnStatement scope) c (IsStatement L scope c) := by
  unfold returnStatement
  split
  case isTrue => exact illegalJump_yields
  case isFalse h =>
    exact Yields.start.bind fun _ _ _ => Yields.skip.bind fun _ _ _ =>
      (returnArgument_yields hg).bind fun _ _ ha =>
        terminated_yields (fun _ => .returnStatement (by simpa using h) ha) (fun _ => rfl) nofun

theorem throwStatement_yields (scope : JumpScope) :
    Yields L g.throwStatement c (IsStatement L scope c) :=
  Yields.start.bind fun _ _ _ => Yields.expect_skip.bind fun _ _ _ =>
    (hg.expression _ _ _).bind fun _ _ hn =>
      terminated_yields (fun _ => .throwStatement hn) (fun _ => rfl) nofun

theorem catchClause_yields (scope : JumpScope) :
    Yields L (g.catchClause scope) c fun n _ => Fills L (.handler scope) n :=
  Yields.start.bind fun _ _ _ => Yields.skip.bind fun _ _ _ => Yields.expect_skip.bind fun _ _ _ =>
    bindingIdentifier_yields.bind fun _ _ ⟨hp, _⟩ => Yields.expect_skip.bind fun _ _ _ =>
      (block_yields hg _).bind fun _ _ hb => Yields.spanFrom.bind fun _ _ _ => .pure (.handler hp hb)

theorem tryStatement_yields (scope : JumpScope) :
    Yields L (g.tryStatement scope) c (IsStatement L scope c) := by
  refine Yields.start.bind fun start _ _ => Yields.expect_skip.bind fun _ _ _ =>
    (block_yields hg _).bind fun block _ hb => ?_
  have last {handler finalizer c'} (hh : ∀ n ∈ handler, Fills L (.handler scope) n)
      (hf : ∀ n ∈ finalizer, Fills L (.block scope) n) :
      Yields L (do
        if handler.isNone && finalizer.isNone then unexpected
        else return .mk (← spanFrom start) (.tryStatement block handler finalizer)) c'
        (IsStatement L scope c) := by
    split
    case isTrue => exact .unexpected
    case isFalse h =>
      refine statement_yields (fun _ => .tryStatement ?_ hb hh hf) (fun _ => ⟨nofun, nofun⟩) nofun
      cases handler <;> cases finalizer <;> simp_all
  have rest {handler c'} (hh : ∀ n ∈ handler, Fills L (.handler scope) n) :
      Yields L (do
        let finalizer ←
          if ← accept (.keyword .finallyWord) then some <$> g.block scope else pure none
        if handler.isNone && finalizer.isNone then unexpected
        else return .mk (← spanFrom start) (.tryStatement block handler finalizer)) c'
        (IsStatement L scope c) := by
    refine Yields.accept_ite (fun _ => ?_) fun _ => last hh (by simp)
    exact Yields.map_bind (block_yields hg _) fun _ _ hf => last hh (by simpa using hf)
  refine Yields.check_ite (fun _ => ?_) fun _ => rest (by simp)
  exact Yields.map_bind (catchClause_yields hg _) fun _ _ hh => rest (by simpa using hh)

theorem withStatement_yields (scope : JumpScope) :
    Yields L (g.withStatement scope) c (IsStatement L scope c) :=
  Yields.start.bind fun _ _ _ => Yields.expect_skip.bind fun _ _ _ =>
    (parenthesized_yields hg).bind fun _ _ ho => (hg.statement _ _).bind fun _ _ hbody =>
      statement_yields (fun _ => .withStatement ho hbody.fills)
        (fun _ => ⟨hbody.closes.terminator, hbody.closes.openIf⟩) nofun

omit hg in
theorem debuggerStatement_yields (scope : JumpScope) :
    Yields L debuggerStatement c (IsStatement L scope c) :=
  Yields.start.bind fun _ _ _ => Yields.expect_skip.bind fun _ _ _ =>
    terminated_yields (fun _ => .debuggerStatement) (fun _ => rfl) nofun

theorem expressionStatement_yields (scope : JumpScope) :
    Yields L g.expressionStatement c (IsStatement L scope c) :=
  Yields.start.bind fun _ _ _ => (hg.expression _ _ _).bind fun _ _ hn =>
    terminated_yields (fun _ => .expressionStatement hn) (fun _ => rfl) nofun

theorem namedStatement_yields (scope : JumpScope) :
    Yields L (g.namedStatement scope) c (IsStatement L scope c) := by
  intro hc
  refine (Yields.get.bind fun saved _ ⟨hs, hc'⟩ => ?_ : Yields L (g.namedStatement scope) c _) hc
  rw [hs, hc']
  refine Yields.start.bind fun start _ _ => bindingIdentifier_yields.bind fun label _ ⟨hl, _⟩ =>
    Yields.accept_ite (fun _ => ?_) fun _ => ?_
  · exact (hg.statement _ _).bind fun _ _ hbody =>
      statement_yields (fun _ => .labeledStatement hl hbody.fills)
        (fun _ => ⟨hbody.closes.terminator, hbody.closes.openIf⟩) nofun
  · exact (Yields.set (Q := fun _ c' => c' = c) hc rfl).bind fun _ _ hs =>
      hs ▸ expressionStatement_yields hg scope

omit hg in
theorem FunctionParts.AreSound.toDeclaration {f : FunctionParts} (h : f.AreSound L)
    (hid : f.id.isSome) (scope : JumpScope) : Fills L (.statement scope) f.toDeclaration := by
  have ⟨span, id, params, body, ⟨isAsync, isGenerator, isExpression⟩⟩ := f
  cases h.traits
  cases id
  case none => cases hid
  case some id => exact .functionDeclaration (h.id id rfl) h.params h.body

theorem statementRule_yields (scope : JumpScope) :
    Yields L (g.statementRule scope) c (IsStatement L scope c) := by
  refine Yields.current.bind fun t c ⟨ht, hc⟩ => ?_
  subst ht hc
  have hfunction {isAsync} : Yields L (FunctionParts.toDeclaration <$> g.function isAsync true) c
      (IsStatement L scope c) :=
    Yields.map ((function_yields hg _ _).mono fun f _ hf =>
      ⟨hf.left.toDeclaration (hf.right rfl) scope, ⟨nofun, nofun⟩, nofun⟩)
  split
  case h_1 | h_2 | h_3 => exact declarationStatement_yields hg _
  case h_4 => exact ifStatement_yields hg _
  case h_5 => exact switchStatement_yields hg _
  case h_6 => exact whileStatement_yields hg _
  case h_7 => exact forStatement_yields hg _
  case h_8 => exact doWhileStatement_yields hg _
  case h_9 => exact breakStatement_yields _
  case h_10 => exact continueStatement_yields _
  case h_11 => exact hfunction
  case h_12 => exact returnStatement_yields hg _
  case h_13 => exact throwStatement_yields hg _
  case h_14 => exact tryStatement_yields hg _
  case h_15 => exact withStatement_yields hg _
  case h_16 => exact debuggerStatement_yields _
  case h_17 =>
    refine (block_yields hg _).mono fun n _ hn => ⟨.blockStatement hn, ?_, ?_⟩ <;> cases hn
    · exact ⟨nofun, nofun⟩
    · nofun
  case h_18 hk =>
    exact Yields.advance.bind fun _ _ _ => .pure ⟨.emptyStatement, ⟨nofun, nofun⟩, fun _ => hk⟩
  case h_19 =>
    refine Yields.get.bind fun _ c ⟨_, hc⟩ => ?_
    subst hc
    split
    · exact hfunction
    · exact namedStatement_yields hg _
  case h_20 => exact expressionStatement_yields hg _

end Grammar

open Grammar

variable (L)

theorem within_isSound (depth : Nat) :
    (∀ scope c, Yields L (statementWithin depth scope) c (IsStatement L scope c)) ∧
      (∀ sequence joinsIn c,
        Yields L (expressionWithin depth sequence joinsIn) c fun n _ => Fills L .expression n) ∧
      ∀ c, Yields L (primaryWithin depth) c fun n _ => Fills L .expression n := by
  induction depth
  case zero => exact ⟨fun _ _ => .throw, fun _ _ _ => .throw, fun _ => .throw⟩
  case succ depth ih =>
    have hg : (Grammar.ofDepth depth).IsSound L := ⟨ih.1, ih.2.1, ih.2.2⟩
    exact ⟨fun scope _ => statementRule_yields hg scope,
      fun sequence joinsIn _ => expressionRule_yields hg sequence joinsIn,
      fun _ => primaryRule_yields hg⟩

theorem Grammar.ofDepth_isSound (depth : Nat) : (Grammar.ofDepth depth).IsSound L :=
  have h := within_isSound L depth
  ⟨h.1, h.2.1, h.2.2⟩

variable {L}

theorem Grammar.statements_yields {g : Grammar} (hg : g.IsSound L) {c : Cursor} (scope : JumpScope) :
    Yields L (g.statements scope) c (AreStatements L scope) := by
  refine Yields.loop (I := AreStatements L scope) (fun body c hb => ?_) .nil
  exact Yields.isAtEnd_ite (fun _ => .pure hb) fun _ =>
    (hg.statement _ _).bind fun _ _ hn => .pure (hb.append hn)

theorem Cursor.endingOf_kind (tokens : List Token) : (endingOf tokens).kind = .endOfInput := by
  unfold endingOf
  split
  · rfl
  · split
    · simp_all
    · rfl

-- Whatever tokens the parser is given, what it accepts is a program, and all its names, literals and
-- operators are taken from the tokens.
theorem fills_of_parse {options : ParseOptions} {tokens : List Token} {n : Node}
    (h : parse options tokens = .ok n) :
    Fills (· ∈ tokens) (.program { allowsReturn := options.allowsReturn }) n := by
  have hc : (Cursor.ofTokens tokens).Within (· ∈ tokens) :=
    .passOver (fun _ => id) (Cursor.endingOf_kind tokens)
  have hb := statements_yields (ofDepth_isSound (· ∈ tokens) (sufficientDepth tokens))
    { allowsReturn := options.allowsReturn } hc
  unfold parse parseStatements at h
  split at h
  case h_1 body c hrun =>
    rw [StateT.run, hrun] at hb
    cases h
    exact .program hb.right.fill hb.right.separate
  case h_2 => cases h
  case h_3 => cases h

end ScriptTree
