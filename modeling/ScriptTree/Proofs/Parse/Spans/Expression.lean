import ScriptTree.Proofs.Parse.Follows.Expression
import ScriptTree.Proofs.Parse.Spans

/-!
Where the nodes of blocks, functions and expressions stand.
-/

namespace ScriptTree

open Rule Cursor

variable {tokens : List Token}

namespace Grammar

-- What the rules read that others call in a circle covers the tokens between the two cursors.
structure IsPlaced (tokens : List Token) (g : Grammar) : Prop where
  statement  : ∀ scope c, Spans tokens (g.statement scope) c (Covers tokens c)
  expression : ∀ sequence joinsIn c, Spans tokens (g.expression sequence joinsIn) c (Covers tokens c)
  primary    : ∀ c, Spans tokens g.primary c (Covers tokens c)

-- These nodes are read from one cursor to another, with all brackets closed.
abbrev Lists (tokens : List Token) (c : Cursor) (ns : List Node) (c' : Cursor) : Prop :=
  Stretch tokens c [] ns [] c'

variable {g : Grammar} {c : Cursor} {kind : TokenKind}

theorem identifierOf_covers {t : Token} {c' : Cursor} (ht : t = c.current ∧ c.Takes tokens kind c')
    (hk : kind.isBracket = false) : CoversToken tokens c (identifierOf t) c' :=
  Spans.token ht hk (by simp [Form.slots]) fun _ h => Option.some.inj h

theorem bindingIdentifier_spans : Spans tokens bindingIdentifier c (CoversToken tokens c) :=
  (Spans.expect (by simp)).bind fun _ _ ht => .pure (identifierOf_covers ht rfl)

theorem isBracket_of_isWord {kind : TokenKind} (h : kind.isWord) : kind.isBracket = false := by
  cases kind <;> first | rfl | cases h

variable (hg : g.IsPlaced tokens)
include hg

/-! ### Blocks and functions -/

theorem block_spans (scope : JumpScope) : Spans tokens (g.block scope) c (Covers tokens c) := by
  refine .start (.expecting (by simp) fun c₁ ht => ?_)
  refine Spans.bind (Q := fun body c' => Stretch tokens c₁ [.operator .rightBrace] body [] c') ?_
    fun body c₂ hb => .node ht rfl hb (by simp [Form.slots]) rfl
  refine .loop (I := fun body c' => Stretch tokens c₁ [.operator .rightBrace] body
    [.operator .rightBrace] c') (fun body c hb => ?_) .nil
  refine .check_ite (fun hk => ?_) fun _ => .isAtEnd_ite .unexpected ?_
  · exact .skip_bind hk (by simp) fun _ h => .pure (hb.skip h rfl)
  · exact (hg.statement scope c).bind fun _ _ hn => .pure (hb.append hn.stretch)

omit hg in
theorem params_spans : Spans tokens g.params c (Lists tokens c) := by
  refine .expecting (by simp) fun c₁ ht => ?_
  refine .loop (I := fun ns c' => Stretch tokens c [] ns [.operator .rightParen] c')
    (fun ns c hns => ?_) (ht.stretch rfl)
  refine .accept_ite (by simp) (fun _ h => .pure (hns.skip h rfl)) fun _ =>
    bindingIdentifier_spans.bind fun n c' hn => ?_
  have hns := hns.append hn.covers.stretch
  exact .accept_ite (by simp) (fun _ h => .pure (hns.skip h rfl)) fun _ =>
    .expecting (by simp) fun _ h => .pure (hns.skip h rfl)

-- The parts of a function, whichever node is made of them.
def FunctionParts.AreCovered (tokens : List Token) (c : Cursor) (f : FunctionParts) (c' : Cursor) :
    Prop :=
  ∀ {form : Form Node}, form.nodes = f.id.toList ++ (f.params ++ [f.body]) → form.text? = none →
    Covers tokens c (.mk f.span form) c'

theorem functionRest_spans {c₀ c₁ : Cursor} (ht : c₀.Takes tokens kind c₁)
    (hk : kind.isBracket = false) (isAsync isGenerator : Bool) (id : Option Node)
    (hid : Lists tokens c₁ id.toList c) :
    Spans tokens (g.functionRest c₀.current.span.start isAsync isGenerator id) c
      (FunctionParts.AreCovered tokens c₀) :=
  params_spans.bind fun _ _ hparams => (block_spans hg _).bind fun _ _ hbody =>
    .spanFrom_token ht (TokenKind.await?_of_not_isBracket hk)
      (hid.append (hparams.append hbody.stretch)) fun _ _ hspan => .pure fun hn htext => hspan hn htext

-- The first word of the function is this one, or it was consumed already.
theorem functionFrom_spans {c₀ : Cursor} (hk : kind.isBracket = false)
    (hf : ∀ c₁, c.Takes tokens (.keyword .functionWord) c₁ →
      ∃ c₂, c₀.Takes tokens kind c₂ ∧ Lists tokens c₂ [] c₁) (isAsync needsName : Bool) :
    Spans tokens (g.functionFrom c₀.current.span.start isAsync needsName) c
      (FunctionParts.AreCovered tokens c₀) := by
  refine .expecting (by simp) fun c₁ h₁ => (Spans.accept (w := []) (by simp) rfl).bind
    fun isGenerator c₃ h₃ => ?_
  have ⟨c₂, h₂, hle⟩ := hf c₁ h₁
  have hle := hle.append h₃
  refine .check_ite (fun _ => ?_) fun _ => ?_
  · exact .map_bind (bindingIdentifier_spans.bind fun n _ hn =>
      functionRest_spans hg h₂ hk _ _ (some n) (hle.append hn.covers.stretch))
  · split
    · exact .bind (Q := fun _ _ => False) .unexpected fun _ _ h => h.elim
    · exact functionRest_spans hg h₂ hk _ _ none hle

theorem function_spans {isAsync needsName : Bool} (hk : isAsync → c.current.kind = .identifier) :
    Spans tokens (g.function isAsync needsName) c (FunctionParts.AreCovered tokens c) := by
  rw [function_eq]
  refine .start ?_
  dsimp only
  split
  case isTrue h =>
    exact .skip_bind (hk h) (by simp) fun c₁ h₁ =>
      functionFrom_spans hg rfl (fun c₂ h₂ => ⟨c₁, h₁, h₂.stretch rfl⟩) _ _
  case isFalse => exact functionFrom_spans hg rfl (fun c₁ h₁ => ⟨c₁, h₁, .nil⟩) _ _

theorem functionExpression_spans {isAsync needsName : Bool}
    (hk : isAsync → c.current.kind = .identifier) :
    Spans tokens (FunctionParts.toExpression <$> g.function isAsync needsName) c (Covers tokens c) :=
  .map ((function_spans hg hk).mono fun _ _ h => h (by simp [Form.slots]) rfl)

theorem functionDeclaration_spans {isAsync needsName : Bool}
    (hk : isAsync → c.current.kind = .identifier) :
    Spans tokens (FunctionParts.toDeclaration <$> g.function isAsync needsName) c (Covers tokens c) :=
  .map ((function_spans hg hk).mono fun _ _ h => h (by simp [Form.slots]) rfl)

/-! ### Behind an operand -/

theorem parenthesized_spans : Spans tokens g.parenthesized c (Covers tokens c) :=
  .expecting (by simp) fun _ h => (hg.expression _ _ _).bind fun _ _ hn =>
    .expecting (by simp) fun _ h' => .pure (.enclosed h hn h')

theorem arguments_spans : Spans tokens g.arguments c (Lists tokens c) := by
  refine .expecting (by simp) fun c₁ ht => ?_
  refine .loop (I := fun ns c' => Stretch tokens c [] ns [.operator .rightParen] c')
    (fun ns c hns => ?_) (ht.stretch rfl)
  refine .accept_ite (by simp) (fun _ h => .pure (hns.skip h rfl)) fun _ =>
    (hg.expression _ _ _).bind fun n c' hn => ?_
  have hns := hns.append hn.stretch
  exact .accept_ite (by simp) (fun _ h => .pure (hns.skip h rfl)) fun _ =>
    .expecting (by simp) fun _ h => .pure (hns.skip h rfl)

section operand

variable {object target callee : Node} {c₀ c₁ : Cursor}

omit hg in
theorem memberOf_spans {member : Node} (isComputed : Bool) (ho : Covers tokens c₀ object c₁)
    (hm : Lists tokens c₁ [member] c) :
    Spans tokens (memberOf object member isComputed) c (Covers tokens c₀) :=
  .extended ho hm (by simp [Form.slots]) rfl rfl

theorem members_spans (ho : Covers tokens c₀ object c) :
    Spans tokens (g.members object) c (Covers tokens c₀) := by
  refine .loop (I := Covers tokens c₀) (fun object c ho => ?_) ho
  refine .accept_ite (by simp) (fun c₁ h₁ => .current ?_) fun _ => .accept_ite (by simp)
    (fun c₁ h₁ => ?_) fun _ => .pure ho
  · split
    case isTrue hw =>
      have hplain : c₁.current.kind.isBracket = false := isBracket_of_isWord hw
      refine (Spans.advance rfl fun hk => ?_).bind fun _ _ ht => .map (memberOf_spans _ ho
        ((h₁.stretch rfl).append (identifierOf_covers ht hplain).covers.stretch))
      simp [Token.isWord, hk, TokenKind.isWord] at hw
    case isFalse => exact .unexpected
  · exact (hg.expression _ _ _).bind fun _ _ hm => .expecting (by simp) fun _ h₂ =>
      .map (memberOf_spans _ ho (((h₁.stretch rfl).append hm.stretch).skip h₂ rfl))

theorem call_spans (ho : Covers tokens c₀ callee c) :
    Spans tokens (g.call callee) c (Covers tokens c₀) :=
  (arguments_spans hg).bind fun _ _ ha => .extended ho ha (by simp [Form.slots]) rfl rfl

omit hg in
theorem updated_spans (ho : Covers tokens c₀ target c) :
    Spans tokens (updated target) c (Covers tokens c₀) := by
  refine .advance_bind fun c' h => ?_
  split
  · exact .fail
  · split
    case h_1 operator hop =>
      have h := h fun hk => by simp [hk, TokenKind.operator?] at hop
      obtain ⟨op, hk, hop⟩ := Option.bind_eq_some_iff.mp hop
      have hplain : c.current.kind.await? [] = some [] := by
        revert hk
        fun_cases TokenKind.operator? c.current.kind <;> rintro ⟨⟩
        cases op <;> first | rfl | cases hop
      exact .extended ho (h.stretch hplain) (by simp [Form.slots]) rfl rfl
    case h_2 => exact .fail

-- No bracket is marked as an operator that assigns.
theorem assigned_spans (ho : Covers tokens c₀ target c) (hm : c.current.marks.assignment) :
    Spans tokens (g.assigned target) c (Covers tokens c₀) := by
  refine .advance_bind fun c' h => ?_
  split
  · exact .fail
  · split
    case h_1 operator hop =>
      have h := h fun hk => by simp [hk, TokenKind.operator?] at hop
      have hplain : c.current.kind.isBracket = false := by
        have := h.marks.assignment
        simp_all
      exact (hg.expression _ _ _).bind fun _ _ hv => .extended ho
        ((h.stretch (TokenKind.await?_of_not_isBracket hplain)).append hv.stretch)
        (by simp [Form.slots]) rfl rfl
    case h_2 => exact .fail

theorem sequenced_spans (ho : Covers tokens c₀ target c) :
    Spans tokens (g.sequenced target) c (Covers tokens c₀) := by
  refine Spans.bind (Q := fun ns c' => ∃ rest, ns = target :: rest ∧ Lists tokens c rest c')
    ?_ fun ns c' ⟨rest, hns, hrest⟩ => .extended ho hrest (by simp [Form.slots, hns]) rfl rfl
  refine .loop (I := fun ns c' => ∃ rest, ns = target :: rest ∧ Lists tokens c rest c')
    (fun ns c' ⟨rest, hns, hrest⟩ => ?_) ⟨[], rfl, .nil⟩
  refine .accept_ite (by simp) (fun c₁ h₁ => ?_) fun _ => .pure ⟨rest, hns, hrest⟩
  exact (hg.expression _ _ _).bind fun n _ hn =>
    .pure ⟨rest ++ [n], by simp [hns], (hrest.skip h₁ rfl).append hn.stretch⟩

-- The cursor stands behind the question mark.
theorem branched_spans (ho : Covers tokens c₀ target c₁)
    (h : c₁.Takes tokens (.operator .question) c) :
    Spans tokens (g.branched target) c (Covers tokens c₀) :=
  (hg.expression _ _ _).bind fun _ _ hc => .expecting (by simp) fun _ h' =>
    (hg.expression _ _ _).bind fun _ _ ha => .extended ho
      ((((h.stretch rfl).append hc.stretch).skip h' rfl).append ha.stretch)
      (by simp [Form.slots]) rfl rfl

theorem followed_spans (allows : Followers) (ho : Covers tokens c₀ object c) :
    Spans tokens (g.followed allows object) c (Covers tokens c₀) := by
  refine .loop (I := Covers tokens c₀) (fun node c ho => .current ?_) ho
  split
  · exact .map (members_spans hg ho)
  split
  · exact .map (call_spans hg ho)
  refine .isAfterLineBreak fun _ => ?_
  split
  · exact .map (updated_spans ho)
  split
  case isTrue hm => exact .map (assigned_spans hg ho (Bool.and_eq_true_iff.mp hm).right)
  split
  · exact .map (sequenced_spans hg ho)
  split
  case isTrue hk =>
    exact .skip_bind (beq_iff_eq.mp (Bool.and_eq_true_iff.mp hk).right) (by simp) fun _ h =>
      .map (branched_spans hg ho h)
  case isFalse => exact .pure ho

end operand

theorem operand_spans : Spans tokens g.operand c (Covers tokens c) :=
  (hg.primary _).bind fun _ _ hn => followed_spans hg _ hn

/-! ### What an operand starts with -/

theorem prefixUpdate_spans (operator : UpdateOperator) (hk : c.current.kind = kind)
    (hplain : kind.isBracket = false) (hend : kind ≠ .endOfInput) :
    Spans tokens (g.prefixUpdate operator) c (Covers tokens c) := by
  refine (Spans.advance hk hend).bind fun op _ ⟨hop, h₁⟩ => (operand_spans hg).bind fun n _ hn => ?_
  subst hop
  split
  · exact .node h₁ (TokenKind.await?_of_not_isBracket hplain) hn.stretch (by simp [Form.slots]) rfl
  · exact .fail

theorem unary_spans {operator : UnaryOperator} (hop : unaryOperator? c.current.kind = some operator) :
    Spans tokens (g.unary operator) c (Covers tokens c) := by
  have hplain : c.current.kind.isBracket = false := by
    revert hop
    fun_cases unaryOperator? c.current.kind <;> rintro ⟨⟩ <;> rfl
  refine (Spans.advance rfl fun hk => by simp [hk, unaryOperator?] at hop).bind fun op _ ⟨hop, h₁⟩ =>
    (operand_spans hg).bind fun n _ hn => ?_
  subst hop
  exact .node h₁ (TokenKind.await?_of_not_isBracket hplain) hn.stretch (by simp [Form.slots]) rfl

theorem construction_spans : Spans tokens g.construction c (Covers tokens c) := by
  refine .start (.expecting (by simp) fun c₁ h₁ => (hg.primary _).bind fun n c₂ hn =>
    (members_spans hg hn).bind fun callee c₃ hcallee => ?_)
  refine .check_ite (fun _ => (arguments_spans hg).bind fun _ _ ha => ?_) fun _ => ?_
  · exact .node h₁ rfl (hcallee.stretch.append ha) (by simp [Form.slots]) rfl
  · exact .node h₁ rfl hcallee.stretch (by simp [Form.slots]) rfl

theorem array_spans : Spans tokens g.array c (Covers tokens c) := by
  refine .start (.expecting (by simp) fun c₁ ht => ?_)
  refine Spans.bind (Q := fun es c' => Stretch tokens c₁ [.operator .rightBracket] es.reduceOption []
    c') ?_ fun es c₂ hes => .node ht rfl hes (by simp [Form.slots]) rfl
  refine .loop (I := fun es c' => Stretch tokens c₁ [.operator .rightBracket] es.reduceOption
    [.operator .rightBracket] c') (fun es c hes => ?_) .nil
  refine .accept_ite (by simp) (fun _ h => .pure (hes.skip h rfl)) fun _ => .isAtEnd_ite .unexpected ?_
  refine .accept_ite (by simp) (fun _ h => .pure ?_) fun _ =>
    (hg.expression _ _ _).bind fun n c' hn => ?_
  · simpa [List.reduceOption_append] using hes.skip h rfl
  · have hes : Stretch tokens c₁ [.operator .rightBracket] (es ++ [some n]).reduceOption
        [.operator .rightBracket] c' := by
      simpa [List.reduceOption_append] using hes.append hn.stretch
    exact .accept_ite (by simp) (fun _ h => .pure (hes.skip h rfl)) fun _ =>
      .expecting (by simp) fun _ h => .pure (hes.skip h rfl)

omit hg in
theorem literal_spans : Spans tokens literal c (CoversToken tokens c) := by
  refine .current ?_
  split
  case h_1 kind hk =>
    have hplain : c.current.kind.isBracket = false := by
      revert hk
      fun_cases literalKind? c.current <;>
        simp_all [TokenKind.isBracket, TokenKind.closing?, TokenKind.isClosing]
    refine (Spans.advance rfl fun he => ?_).bind fun _ _ ht =>
      .pure (Spans.token ht hplain (by simp [Form.slots]) fun _ h => Option.some.inj h)
    simp [literalKind?, he] at hk
  case h_2 => exact .unexpected

omit hg in
theorem propertyKey_spans : Spans tokens propertyKey c (CoversToken tokens c) := by
  refine .current ?_
  split
  · exact literal_spans
  · split
    case isTrue hw =>
      refine .map ((Spans.advance rfl fun hk => ?_).mono fun _ _ ht =>
        identifierOf_covers ht (isBracket_of_isWord hw))
      simp [Token.isWord, hk, TokenKind.isWord] at hw
    case isFalse => exact .unexpected

theorem property_spans : Spans tokens g.property c (Covers tokens c) :=
  propertyKey_spans.bind fun _ _ hkey => .expecting (by simp) fun _ h =>
    (hg.expression _ _ _).bind fun _ _ hvalue =>
      .named hkey ((h.stretch rfl).append hvalue.stretch) (by simp [Form.slots]) rfl

theorem object_spans : Spans tokens g.object c (Covers tokens c) := by
  refine .start (.expecting (by simp) fun c₁ ht => ?_)
  refine Spans.bind (Q := fun ns c' => Stretch tokens c₁ [.operator .rightBrace] ns [] c') ?_
    fun ns c₂ hns => .node ht rfl hns (by simp [Form.slots]) rfl
  refine .loop (I := fun ns c' => Stretch tokens c₁ [.operator .rightBrace] ns
    [.operator .rightBrace] c') (fun ns c hns => ?_) .nil
  refine .accept_ite (by simp) (fun _ h => .pure (hns.skip h rfl)) fun _ => .isAtEnd_ite .unexpected ?_
  refine (property_spans hg).bind fun n c' hn => ?_
  have hns := hns.append hn.stretch
  exact .accept_ite (by simp) (fun _ h => .pure (hns.skip h rfl)) fun _ => .expecting (by simp)
    fun _ h => .check_ite (fun _ => .unexpected) fun _ => .pure (hns.skip h rfl)

theorem primaryRule_spans : Spans tokens g.primaryRule c (Covers tokens c) := by
  refine .current ?_
  split
  case h_1 hk => exact prefixUpdate_spans hg _ hk rfl (by simp)
  case h_2 hk => exact prefixUpdate_spans hg _ hk rfl (by simp)
  case h_3 hk =>
    refine .run_ite (b := startsAsyncFunction) (Follows.run_get_ite _ _ _ _)
      (fun _ => functionExpression_spans hg fun _ => hk) fun _ => .map ?_
    exact (Spans.advance hk (by simp)).mono fun _ _ ht => (identifierOf_covers ht rfl).covers
  case h_4 hk =>
    exact (Spans.advance hk (by simp)).bind fun _ _ ht =>
      .pure (CoversToken.covers (Spans.token ht rfl (by simp [Form.slots]) fun _ h => by cases h))
  case h_5 => exact functionExpression_spans hg fun h => by cases h
  case h_6 => exact construction_spans hg
  case h_7 => exact parenthesized_spans hg
  case h_8 => exact array_spans hg
  case h_9 => exact object_spans hg
  case h_10 =>
    split
    case h_1 hop => exact unary_spans hg hop
    case h_2 => exact literal_spans.mono fun _ _ h => h.covers

/-! ### Runs of operands -/

namespace OperandRun

variable {left right last : Node} {operator : Operator} {pending : List (Node × Operator)}
variable {c₀ c₁ c₂ c₃ c' : Cursor}

-- The tokens of the operands that are pending, each with its operator, the last one first.
def ArePending (tokens : List Token) (c : Cursor) : List (Node × Operator) → Cursor → Prop
  | [], c' => c' = c
  | (left, _) :: pending, c' => ∃ c₁ c₂ kind, ArePending tokens c pending c₁ ∧
    Covers tokens c₁ left c₂ ∧ c₂.Takes tokens kind c' ∧ kind.isBracket = false

def IsPlaced (tokens : List Token) (c : Cursor) (run : OperandRun) (c' : Cursor) : Prop :=
  ∃ c₁, ArePending tokens c run.pending c₁ ∧ Covers tokens c₁ run.last c'

omit hg in
-- The span reaches from the left operand to the right one, so it lacks the parentheses in front of the
-- left one and those behind the right one.
theorem join_covers (hl : Covers tokens c₀ left c₁) (ht : c₁.Takes tokens kind c₂)
    (hk : kind.isBracket = false) (hr : Covers tokens c₂ right c₃) :
    Covers tokens c₀ (join left operator right) c₃ := by
  have hmid : left.span.stop ≤ right.span.start :=
    Nat.le_trans hl.row.stop_le (Nat.le_trans ht.block.le hr.row.start_ge)
  have hle : left.span.start ≤ right.span.start := Nat.le_trans (Nat.le_of_lt hl.nests.width) hmid
  have hle' : left.span.stop ≤ right.span.stop := Nat.le_trans hmid (Nat.le_of_lt hr.nests.width)
  obtain ⟨opening, inner, closing, hb, hf⟩ := hl.block
  obtain ⟨opening', inner', closing', hb', hf'⟩ := hr.block
  rw [join, Span.merge, Nat.min_eq_left hle, Nat.max_eq_right hle']
  have happend : (opening ++ inner ++ closing) ++ [c₁.current] ++ (opening' ++ inner' ++ closing') =
      opening ++ (inner ++ (closing ++ (c₁.current :: (opening' ++ inner')))) ++ closing' := by simp
  refine .of_block hl.stream (happend ▸ (hb.append ht.block).append hb')
    ⟨?_, hf.opening, hf'.closing, ?_, ?_⟩ hl.nests.first hr.nests.last hl.row.start_ge
    (Nat.lt_of_le_of_lt hle hr.nests.width) hr.row.stop_le ?_ rfl (fun _ => rfl) fun _ => rfl
  · rw [← happend, Balanced, List.append_assoc, nesting?_append hf.balanced]
    exact (nesting?_cons (ht.kind ▸ TokenKind.await?_of_not_isBracket hk)).trans hf'.balanced
  · have hne : inner ≠ [] := by rintro rfl; cases hf.first
    rw [List.head?_append_of_ne_nil _ hne, hf.first]
  · have hne : inner' ≠ [] := by rintro rfl; cases hf'.last
    simp [List.getLast?_append, List.getLast?_cons, List.getLast?_eq_some_getLast hne, ← hf'.last]
  · simpa [Form.slots] using
      .cons (Nat.le_refl _) hl.nests (.singleton hr.nests hmid (Nat.le_refl _))

omit hg in
theorem fold_isPlaced (takes : Operator → Bool) (hp : ArePending tokens c pending c₁)
    (hl : Covers tokens c₁ last c') : (fold takes pending last).IsPlaced tokens c c' := by
  induction pending generalizing last c₁
  case nil => exact ⟨c₁, hp, hl⟩
  case cons entry pending ih =>
    obtain ⟨left, operator⟩ := entry
    rw [fold]
    split
    case isFalse => exact ⟨c₁, hp, hl⟩
    case isTrue =>
      obtain ⟨c₂, c₃, kind, hp, hleft, ht, hk⟩ := hp
      exact ih hp (join_covers hleft ht hk hl)

omit hg in
theorem pending_fold (pending : List (Node × Operator)) (last : Node) :
    (fold (fun _ => true) pending last).pending = [] := by
  induction pending generalizing last
  case nil => rfl
  case cons ih => exact ih _

omit hg in
theorem push_isPlaced {run : OperandRun} {level : Nat} (h : run.IsPlaced tokens c c₁)
    (ht : c₁.Takes tokens kind c₂) (hk : kind.isBracket = false) (hr : Covers tokens c₂ right c') :
    (run.push operator level right).IsPlaced tokens c c' :=
  have ⟨_, hp, hl⟩ := h
  have ⟨_, hp, hl⟩ := fold_isPlaced (fun op => op.level.any (level ≤ ·)) hp hl
  ⟨c₂, ⟨_, c₁, kind, hp, hl, ht, hk⟩, hr⟩

omit hg in
theorem toNode_covers {run : OperandRun} (h : run.IsPlaced tokens c c') :
    Covers tokens c run.toNode c' := by
  obtain ⟨c₁, hp, hl⟩ := h
  obtain ⟨c₂, hp, hl⟩ := fold_isPlaced (fun _ => true) hp hl
  rw [pending_fold] at hp
  exact (show c₂ = c from hp) ▸ hl

end OperandRun

theorem expressionRule_spans (sequence joinsIn : Bool) :
    Spans tokens (g.expressionRule sequence joinsIn) c (Covers tokens c) := by
  refine (hg.primary _).bind fun n c₁ hn => (followed_spans hg _ hn).bind fun first c₂ hfirst =>
    .current ?_
  split
  · exact .pure hfirst
  refine Spans.bind (Q := OperandRun.IsPlaced tokens c) ?_
    fun run c₃ hrun => followed_spans hg _ (OperandRun.toNode_covers hrun)
  refine .loop (I := OperandRun.IsPlaced tokens c) (fun run c' hrun => .current ?_) ⟨c, rfl, hfirst⟩
  split
  case h_1 operator level hj =>
    refine .skip_bind rfl (kind_ne_of_joiner? hj) fun _ h => (operand_spans hg).bind fun _ _ hn =>
      .pure (OperandRun.push_isPlaced hrun h ?_ hn)
    by_contra hk
    have hlevel := h.marks.level (by simpa using hk)
    cases hlevel.symm.trans (of_joiner? hj).1.2.2
  case h_2 => exact .pure hrun

end Grammar
end ScriptTree
