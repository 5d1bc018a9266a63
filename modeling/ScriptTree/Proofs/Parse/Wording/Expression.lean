import ScriptTree.Proofs.Parse.Grouping
import ScriptTree.Proofs.Parse.Wording

/-!
The tokens that blocks, functions and expressions are read from.
-/

namespace ScriptTree.Grammar

open Rule Cursor Spans

-- The rules that others call in a circle pass the tokens that their nodes stand for.
structure IsWorded (tokens : List Token) (g : Grammar) : Prop where
  scanned    : IsScanned tokens
  statement  : ∀ scope c, Spans tokens (g.statement scope) c c.PassesNode
  expression : ∀ sequence joinsIn c, Spans tokens (g.expression sequence joinsIn) c c.PassesNode
  primary    : ∀ c, Spans tokens g.primary c c.PassesNode

variable {tokens : List Token} {g : Grammar} {c : Cursor} {kind : TokenKind} {fs : List Face}

theorem identifierOf_passes {c' : Cursor} (ht : c.Takes tokens kind c') (hs : IsScanned tokens)
    (hk : kind.isWord) : c.PassesNode (identifierOf c.current) c' := by
  rw [PassesNode, identifierOf, Node.wording_mk]
  exact ht.word hs hk

theorem bindingIdentifier_passes (hs : IsScanned tokens) :
    Spans tokens bindingIdentifier c c.PassesNode :=
  (expect (by simp)).bind fun _ _ ⟨ht, h⟩ => .pure (ht ▸ identifierOf_passes h hs rfl)

variable (hg : g.IsWorded tokens)
include hg

/-! ### Blocks and functions -/

theorem block_passes (scope : JumpScope) : Spans tokens (g.block scope) c c.PassesNode := by
  refine .start (.expecting (by simp) fun c₁ ht => ?_)
  have ht := ht.op hg.scanned rfl
  refine Spans.bind (Q := fun body c' => c₁.Passes (body.flatMap Node.wording ++ [.op .rightBrace]) c')
    ?_ fun body c₂ hb => .passes (ht.append hb) (by simp [Form.spell, Form.parts])
  refine .loop (I := c₁.PassesNodes) (fun body c hb => ?_) .nil
  refine .check_ite (fun hk => ?_) fun _ => .isAtEnd_ite .unexpected ?_
  · exact .skip_bind hk (by simp) fun _ h => .pure (hb.append (h.op hg.scanned rfl))
  · exact (hg.statement scope c).bind fun _ _ hn => .pure (hb.snoc hn)

-- Parentheses and commas are no part of it.
theorem params_passes : Spans tokens g.params c c.PassesNodes := by
  refine .expecting (by simp) fun c₁ ht => ?_
  refine .loop (I := c.PassesNodes) (fun ns c hns => ?_) (ht.nothing rfl)
  refine .accept_ite (by simp) (fun _ h => .pure (hns.skip h rfl)) fun _ =>
    (bindingIdentifier_passes hg.scanned).bind fun n c' hn => ?_
  have hns := hns.snoc hn
  exact .accept_ite (by simp) (fun _ h => .pure (hns.skip h rfl)) fun _ =>
    .expecting (by simp) fun _ h => .pure (hns.skip h rfl)

-- The parts of a function, whichever node is made of them.
def FunctionParts.Pass (c : Cursor) (f : FunctionParts) (c' : Cursor) : Prop :=
  c.PassesNode f.toExpression c'

omit hg in
theorem FunctionParts.wording_toDeclaration (f : FunctionParts) :
    f.toDeclaration.wording = f.toExpression.wording := by
  rw [toDeclaration, toExpression, Node.wording_mk, Node.wording_mk]
  rfl

theorem functionRest_passes {c₀ : Cursor} {start : Nat} (isAsync isGenerator : Bool) (id : Option Node)
    (h : c₀.Passes ((if isAsync then [.word "async"] else []) ++ .keyword .functionWord ::
      (if isGenerator then [.op .star] else []) ++ id.toList.flatMap Node.wording) c) :
    Spans tokens (g.functionRest start isAsync isGenerator id) c (FunctionParts.Pass c₀) :=
  (params_passes hg).bind fun _ _ hparams => (block_passes hg _).bind fun _ _ hbody =>
    .read (fun _ => rfl) (.pure (by
      rw [FunctionParts.Pass, PassesNode, FunctionParts.toExpression, Node.wording_mk]
      simpa [Form.spell, Form.parts] using h.append (hparams.append hbody)))

-- The word in front of the function was consumed already.
theorem functionFrom_passes {c₀ : Cursor} {start : Nat} (isAsync needsName : Bool)
    (h : c₀.Passes (if isAsync then [.word "async"] else []) c) :
    Spans tokens (g.functionFrom start isAsync needsName) c (FunctionParts.Pass c₀) := by
  refine .expecting (by simp) fun c₁ h₁ => ?_
  refine Spans.bind (Q := fun isGenerator c' => c₁.Passes (if isGenerator then [.op .star] else []) c') ?_
    fun isGenerator c₂ h₂ => ?_
  · exact .check_ite (fun hk => .skip_bind hk (by simp) fun _ h => .pure (h.op hg.scanned rfl))
      fun _ => .pure .nil
  have h := h.append ((h₁.keyword hg.scanned).append h₂)
  refine .check_ite (fun _ => ?_) fun _ => ?_
  · exact .map_bind ((bindingIdentifier_passes hg.scanned).bind fun n _ hn =>
      functionRest_passes hg _ _ (some n) (by simpa using h.append hn))
  · split
    · exact .bind (Q := fun _ _ => False) .unexpected fun _ _ h => h.elim
    · exact functionRest_passes hg _ _ none (by simpa using h)

theorem function_passes {isAsync needsName : Bool} (hk : isAsync → startsAsyncFunction c) :
    Spans tokens (g.function isAsync needsName) c (FunctionParts.Pass c) := by
  rw [function_eq]
  refine .start ?_
  dsimp only
  split
  case isTrue h =>
    have hasync := hk h
    simp only [startsAsyncFunction, Bool.and_eq_true, beq_iff_eq] at hasync
    refine .skip_bind hasync.1.1 (by simp) fun c₁ h₁ => functionFrom_passes hg _ _ ?_
    rw [if_pos h, ← hasync.1.2]
    exact h₁.word hg.scanned rfl
  case isFalse h =>
    refine functionFrom_passes hg _ _ ?_
    rw [if_neg h]
    exact .nil

theorem functionExpression_passes {isAsync needsName : Bool} (hk : isAsync → startsAsyncFunction c) :
    Spans tokens (FunctionParts.toExpression <$> g.function isAsync needsName) c c.PassesNode :=
  .map (function_passes hg hk)

theorem functionDeclaration_passes {isAsync needsName : Bool} (hk : isAsync → startsAsyncFunction c) :
    Spans tokens (FunctionParts.toDeclaration <$> g.function isAsync needsName) c c.PassesNode :=
  .map ((function_passes hg hk).mono fun f _ h => by rwa [PassesNode, f.wording_toDeclaration])

/-! ### Behind an operand -/

theorem parenthesized_passes : Spans tokens g.parenthesized c c.PassesNode :=
  .expecting (by simp) fun _ h => (hg.expression _ _ _).bind fun _ _ hn =>
    .expecting (by simp) fun _ h' => .pure (((h.nothing rfl).append hn).skip h' rfl)

theorem arguments_passes : Spans tokens g.arguments c c.PassesNodes := by
  refine .expecting (by simp) fun c₁ ht => ?_
  refine .loop (I := c.PassesNodes) (fun ns c hns => ?_) (ht.nothing rfl)
  refine .accept_ite (by simp) (fun _ h => .pure (hns.skip h rfl)) fun _ =>
    (hg.expression _ _ _).bind fun n c' hn => ?_
  have hns := hns.snoc hn
  exact .accept_ite (by simp) (fun _ h => .pure (hns.skip h rfl)) fun _ =>
    .expecting (by simp) fun _ h => .pure (hns.skip h rfl)

section operand

variable {object target callee : Node} {c₀ c₁ : Cursor}

omit hg in
theorem memberOf_passes {member : Node} (isComputed : Bool) (ho : c₀.PassesNode object c₁)
    (hm : c₁.Passes (if isComputed then .op .leftBracket :: member.wording ++ [.op .rightBracket]
      else .op .dot :: member.wording) c) :
    Spans tokens (memberOf object member isComputed) c c₀.PassesNode :=
  .passes (ho.append hm) (by simp [Form.spell, Form.parts])

theorem members_passes (ho : c₀.PassesNode object c) : Spans tokens (g.members object) c c₀.PassesNode := by
  refine .loop (I := c₀.PassesNode) (fun object c ho => ?_) ho
  refine .accept_ite (by simp) (fun c₁ h₁ => .current ?_) fun _ => .accept_ite (by simp)
    (fun c₁ h₁ => ?_) fun _ => .pure ho
  · have hdot := h₁.op hg.scanned rfl
    split
    case isTrue hw =>
      refine (Spans.advance rfl fun hk => ?_).bind fun _ _ ht => .map (memberOf_passes _ ho ?_)
      · simp [Token.isWord, hk, TokenKind.isWord] at hw
      · obtain ⟨rfl, ht⟩ := ht
        exact hdot.append (identifierOf_passes ht hg.scanned hw)
    case isFalse => exact .unexpected
  · have hopen := h₁.op hg.scanned rfl
    exact (hg.expression _ _ _).bind fun _ _ hm => .expecting (by simp) fun _ h₂ =>
      .map (memberOf_passes _ ho ((hopen.append hm).append (h₂.op hg.scanned rfl)))

theorem call_passes (ho : c₀.PassesNode callee c) : Spans tokens (g.call callee) c c₀.PassesNode :=
  (arguments_passes hg).bind fun _ _ ha => .passes (ho.append ha) (by simp [Form.spell, Form.parts])

theorem updated_passes (ho : c₀.PassesNode target c) : Spans tokens (updated target) c c₀.PassesNode := by
  refine .advance_bind fun c' h => ?_
  split
  · exact .fail
  · split
    case h_1 operator hop =>
      have h := h fun hk => by simp [hk, TokenKind.operator?] at hop
      obtain ⟨op, hk, hop⟩ := Option.bind_eq_some_iff.mp hop
      have hkind : c.current.kind = .operator op := TokenKind.eq_of_operator? hk
      have hop : (TokenKind.operator op).isEssential ∧ Face.op op = .update operator := by
        revert hop
        cases op <;> simp [UpdateOperator.ofOperator?] <;> rintro rfl <;> decide
      have hpasses := Takes.op (hkind ▸ h) hg.scanned hop.1
      exact .passes (ho.append hpasses) (by simp [Form.spell, Form.parts, hop.2])
    case h_2 => exact .fail

theorem assigned_passes (ho : c₀.PassesNode target c) (hm : c.current.marks.assignment) :
    Spans tokens (g.assigned target) c c₀.PassesNode := by
  refine .advance_bind fun c' h => ?_
  split
  · exact .fail
  · split
    case h_1 operator hop =>
      have h := h fun hk => by simp [hk, TokenKind.operator?] at hop
      have hkind : c.current.kind = .operator operator := TokenKind.eq_of_operator? hop
      have hop : (TokenKind.operator operator).isEssential := by
        rw [((h.isScanned hg.scanned).of_operator hkind).2] at hm
        revert hm
        cases operator <;> decide
      have hpasses := ho.append (Takes.op (hkind ▸ h) hg.scanned hop)
      exact (hg.expression _ _ _).bind fun _ _ hv =>
        .passes (hpasses.append hv) (by simp [Form.spell, Form.parts])
    case h_2 => exact .fail

theorem sequenced_passes (ho : c₀.PassesNode target c) :
    Spans tokens (g.sequenced target) c c₀.PassesNode := by
  refine Spans.bind (Q := c₀.PassesNodes) ?_ fun ns c' hns => .passes hns (by simp [Form.spell, Form.parts])
  refine .loop (I := c₀.PassesNodes) (fun ns c' hns => ?_) (by simpa [PassesNodes] using ho)
  refine .accept_ite (by simp) (fun c₁ h₁ => ?_) fun _ => .pure hns
  exact (hg.expression _ _ _).bind fun n _ hn => .pure (PassesNodes.snoc (hns.skip h₁ rfl) hn)

-- The cursor stands behind the question mark.
theorem branched_passes (ho : c₀.PassesNode target c₁) (h : c₁.Takes tokens (.operator .question) c) :
    Spans tokens (g.branched target) c c₀.PassesNode :=
  (hg.expression _ _ _).bind fun _ _ hc => .expecting (by simp) fun _ h' =>
    (hg.expression _ _ _).bind fun _ _ ha => .passes
      (ho.append ((h.op hg.scanned rfl).append (hc.append ((h'.op hg.scanned rfl).append ha))))
      (by simp [Form.spell, Form.parts])

theorem followed_passes (allows : Followers) (ho : c₀.PassesNode object c) :
    Spans tokens (g.followed allows object) c c₀.PassesNode := by
  refine .loop (I := c₀.PassesNode) (fun node c ho => .current ?_) ho
  split
  · exact .map (members_passes hg ho)
  split
  · exact .map (call_passes hg ho)
  refine .isAfterLineBreak fun _ => ?_
  split
  · exact .map (updated_passes hg ho)
  split
  case isTrue hm => exact .map (assigned_passes hg ho (Bool.and_eq_true_iff.mp hm).right)
  split
  · exact .map (sequenced_passes hg ho)
  split
  case isTrue hk =>
    exact .skip_bind (beq_iff_eq.mp (Bool.and_eq_true_iff.mp hk).right) (by simp) fun _ h =>
      .map (branched_passes hg ho h)
  case isFalse => exact .pure ho

end operand

theorem operand_passes : Spans tokens g.operand c c.PassesNode :=
  (hg.primary _).bind fun _ _ hn => followed_passes hg _ hn

/-! ### What an operand starts with -/

theorem prefixUpdate_passes {op : Operator} {operator : UpdateOperator} (hk : c.current.kind = .operator op)
    (hop : (TokenKind.operator op).isEssential) (hface : Face.op op = .update operator) :
    Spans tokens (g.prefixUpdate operator) c c.PassesNode := by
  refine (Spans.advance hk (by simp)).bind fun _ _ ⟨_, h⟩ => (operand_passes hg).bind fun n _ hn => ?_
  split
  · exact .passes ((h.op hg.scanned hop).append hn) (by simp [Form.spell, Form.parts, hface])
  · exact .fail

theorem unary_passes {operator : UnaryOperator} (hop : unaryOperator? c.current.kind = some operator) :
    Spans tokens (g.unary operator) c c.PassesNode := by
  refine (Spans.advance rfl fun hk => by simp [hk, unaryOperator?] at hop).bind fun _ c₁ ⟨_, h⟩ =>
    (operand_passes hg).bind fun n _ hn => ?_
  have hface : c.Passes [.unary operator] c₁ := by
    generalize hkind : c.current.kind = kind at hop h
    unfold unaryOperator? at hop
    split at hop <;> cases hop <;> first | exact h.op hg.scanned rfl | exact h.keyword hg.scanned
  exact .passes (hface.append hn) (by simp [Form.spell, Form.parts])

theorem construction_passes : Spans tokens g.construction c c.PassesNode := by
  refine .start (.expecting (by simp) fun c₁ h₁ => (hg.primary _).bind fun n c₂ hn =>
    (members_passes hg hn).bind fun callee c₃ hcallee => ?_)
  have hcallee := (h₁.keyword hg.scanned).append hcallee
  refine .check_ite (fun _ => (arguments_passes hg).bind fun _ _ ha => ?_) fun _ => ?_
  · exact .passes (hcallee.append ha) (by simp [Form.spell, Form.parts])
  · exact .passes hcallee (by simp [Form.spell, Form.parts])

theorem array_passes : Spans tokens g.array c c.PassesNode := by
  refine .start (.expecting (by simp) fun c₁ ht => ?_)
  have ht := ht.op hg.scanned rfl
  let elements (es : List (Option Node)) := es.reduceOption.flatMap Node.wording
  refine Spans.bind (Q := fun es c' => c₁.Passes (elements es ++ [.op .rightBracket]) c') ?_
    fun es c₂ hes => .passes (ht.append hes) (by simp [elements, Form.spell, Form.parts])
  refine .loop (I := fun es c' => c₁.Passes (elements es) c') (fun es c hes => ?_) .nil
  have hend {c'} (h : c.Takes tokens (.operator .rightBracket) c') := h.op hg.scanned rfl
  refine .accept_ite (by simp) (fun _ h => .pure (hes.append (hend h))) fun _ => .isAtEnd_ite .unexpected ?_
  refine .accept_ite (by simp) (fun _ h => .pure ?_) fun _ =>
    (hg.expression _ _ _).bind fun n c' hn => ?_
  · simpa [elements, List.reduceOption_append] using hes.skip h rfl
  · have hes : c₁.Passes (elements (es ++ [some n])) c' := by
      simpa [elements, List.reduceOption_append] using hes.append hn
    exact .accept_ite (by simp) (fun _ h => .pure (hes.append (h.op hg.scanned rfl))) fun _ =>
      .expecting (by simp) fun _ h => .pure (hes.skip h rfl)

theorem literal_passes : Spans tokens literal c c.PassesNode := by
  refine .current ?_
  split
  case h_1 kind hk =>
    refine (Spans.advance rfl fun he => by simp [literalKind?, he] at hk).bind fun _ c₁ ⟨ht, h⟩ => .pure ?_
    subst ht
    obtain ⟨hess, hface⟩ := (h.isScanned hg.scanned).face_eq_literal hk
    have hpasses := h.face hess
    rwa [hface] at hpasses
  case h_2 => exact .unexpected

theorem propertyKey_passes : Spans tokens propertyKey c c.PassesNode := by
  refine .current ?_
  split
  · exact literal_passes hg
  · split
    case isTrue hw =>
      refine .map ((Spans.advance rfl fun hk => ?_).mono fun _ _ ⟨ht, h⟩ => ?_)
      · simp [Token.isWord, hk, TokenKind.isWord] at hw
      · exact ht ▸ identifierOf_passes h hg.scanned hw
    case isFalse => exact .unexpected

theorem property_passes : Spans tokens g.property c c.PassesNode :=
  (propertyKey_passes hg).bind fun _ _ hkey => .expecting (by simp) fun _ h =>
    (hg.expression _ _ _).bind fun _ _ hvalue =>
      .passes (hkey.append ((h.op hg.scanned rfl).append hvalue)) (by simp [Form.spell, Form.parts])

theorem object_passes : Spans tokens g.object c c.PassesNode := by
  refine .start (.expecting (by simp) fun c₁ ht => ?_)
  have ht := ht.op hg.scanned rfl
  refine Spans.bind (Q := fun ns c' => c₁.Passes (ns.flatMap Node.wording ++ [.op .rightBrace]) c') ?_
    fun ns c₂ hns => .passes (ht.append hns) (by simp [Form.spell, Form.parts])
  refine .loop (I := c₁.PassesNodes) (fun ns c hns => ?_) .nil
  refine .accept_ite (by simp) (fun _ h => .pure (hns.append (h.op hg.scanned rfl))) fun _ =>
    .isAtEnd_ite .unexpected ?_
  refine (property_passes hg).bind fun n c' hn => ?_
  have hns := hns.snoc hn
  exact .accept_ite (by simp) (fun _ h => .pure (hns.append (h.op hg.scanned rfl))) fun _ =>
    .expecting (by simp) fun _ h => .check_ite (fun _ => .unexpected) fun _ => .pure (hns.skip h rfl)

theorem primaryRule_passes : Spans tokens g.primaryRule c c.PassesNode := by
  refine .current ?_
  split
  case h_1 hk => exact prefixUpdate_passes hg hk rfl rfl
  case h_2 hk => exact prefixUpdate_passes hg hk rfl rfl
  case h_3 hk =>
    refine .run_ite (b := startsAsyncFunction) (Follows.run_get_ite _ _ _ _)
      (fun ha => functionExpression_passes hg fun _ => ha) fun _ => .map ?_
    exact (Spans.advance hk (by simp)).mono fun _ _ ⟨ht, h⟩ => ht ▸ identifierOf_passes h hg.scanned rfl
  case h_4 hk =>
    refine (Spans.advance hk (by simp)).bind fun _ _ ⟨_, h⟩ => .pure ?_
    rw [PassesNode, Node.wording_mk]
    exact h.keyword hg.scanned
  case h_5 => exact functionExpression_passes hg fun h => by cases h
  case h_6 => exact construction_passes hg
  case h_7 => exact parenthesized_passes hg
  case h_8 => exact array_passes hg
  case h_9 => exact object_passes hg
  case h_10 =>
    split
    case h_1 hop => exact unary_passes hg hop
    case h_2 => exact literal_passes hg

/-! ### Runs of operands -/

namespace OperandRun

variable {left right last : Node} {operator : Operator} {pending : List (Node × Operator)}
variable {c₁ c₂ c' : Cursor}

-- The faces of the operands that are pending, each with its operator, the last one first.
def pendingWording (pending : List (Node × Operator)) : List Face :=
  pending.reverse.flatMap fun entry => entry.1.wording ++ [.op entry.2]

def wording (run : OperandRun) : List Face :=
  pendingWording run.pending ++ run.last.wording

omit hg in
theorem wording_join (left right : Node) (operator : Operator) :
    (join left operator right).wording = left.wording ++ .op operator :: right.wording := by
  rw [join, Node.wording_mk]
  simp [Form.spell, Form.parts]

omit hg in
-- However the operands are joined, they stay in their order.
theorem wording_fold (takes : Operator → Bool) (pending : List (Node × Operator)) (last : Node) :
    (fold takes pending last).wording = pendingWording pending ++ last.wording := by
  induction pending generalizing last
  case nil => rfl
  case cons entry pending ih =>
    obtain ⟨left, operator⟩ := entry
    rw [fold]
    split
    case isFalse => rfl
    case isTrue =>
      rw [ih, wording_join]
      simp [pendingWording]

omit hg in
theorem wording_push (run : OperandRun) (operator : Operator) (level : Nat) (right : Node) :
    (run.push operator level right).wording = run.wording ++ .op operator :: right.wording := by
  have hfold := wording_fold (fun op => op.level.any (level ≤ ·)) run.pending run.last
  rw [push, wording, wording, ← hfold]
  simp [wording, pendingWording]

omit hg in
theorem wording_toNode (run : OperandRun) : run.toNode.wording = run.wording := by
  have hfold := wording_fold (fun _ => true) run.pending run.last
  rwa [wording, pending_fold] at hfold

end OperandRun

theorem joiner_passes {c' : Cursor} {joinsIn : Bool} {operator : Operator} {level : Nat}
    (hj : joiner? joinsIn c.current = some (operator, level)) (h : c.Takes tokens c.current.kind c') :
    c.Passes [.op operator] c' := by
  obtain ⟨⟨-, hjoins, hlevel⟩, hkind⟩ := of_joiner? hj
  rcases hkind with hkind | ⟨hkind, rfl⟩ | ⟨hkind, rfl⟩
  case inl =>
    refine Takes.op (hkind ▸ h) hg.scanned ?_
    rw [(h.isScanned hg.scanned).marks_of_joiner? hj] at hlevel
    revert hjoins hlevel
    cases operator <;> simp [isNoJoiner, TokenKind.isEssential, Marks.ofOperator, Operator.level]
  all_goals exact Takes.keyword (hkind ▸ h) hg.scanned

theorem expressionRule_passes (sequence joinsIn : Bool) :
    Spans tokens (g.expressionRule sequence joinsIn) c c.PassesNode := by
  refine (hg.primary _).bind fun n c₁ hn => (followed_passes hg _ hn).bind fun first c₂ hfirst =>
    .current ?_
  split
  · exact .pure hfirst
  refine Spans.bind (Q := fun run c' => c.Passes (OperandRun.wording run) c') ?_
    fun run c₃ hrun => followed_passes hg _ (by rwa [PassesNode, OperandRun.wording_toNode])
  refine .loop (I := fun run c' => c.Passes (OperandRun.wording run) c') (fun run c' hrun => .current ?_) hfirst
  split
  case h_1 operator level hj =>
    refine .skip_bind rfl (kind_ne_of_joiner? hj) fun c₄ h => (operand_passes hg).bind fun _ _ hn =>
      .pure ?_
    have hpasses := hrun.append ((joiner_passes hg hj h).append hn)
    rwa [List.singleton_append, ← OperandRun.wording_push run operator level] at hpasses
  case h_2 => exact .pure hrun

end ScriptTree.Grammar
