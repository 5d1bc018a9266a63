import ScriptTree.Proofs.Parse.Follows.Statement
import ScriptTree.Proofs.Parse.Spans.Expression

/-!
Where the nodes of statements stand.
-/

namespace ScriptTree.Grammar

open Rule Cursor

variable {tokens : List Token} {g : Grammar} {c : Cursor} {kind : TokenKind}

-- The end of a statement that has a terminator, which its span includes.
theorem terminated_spans {c₁ c₂ : Cursor} {form : Form Node} {ns : List Node} {w : List TokenKind}
    (ht : c₁.Takes tokens kind c₂) (hw : kind.await? [] = some w) (hs : Stretch tokens c₂ w ns [] c)
    (hn : form.nodes = ns) (htext : form.text? = none) :
    Spans tokens (do terminator; return .mk (← spanFrom c₁.current.span.start) form) c
      (Covers tokens c₁) :=
  Spans.terminator.bind fun _ _ h => .node ht hw (List.append_nil ns ▸ hs.append h) hn htext

variable (hg : g.IsPlaced tokens)
include hg

/-! ### Declarations -/

theorem declarator_spans (kind : VariableKind) (joinsIn : Bool) :
    Spans tokens (g.declarator kind joinsIn) c (Covers tokens c) := by
  refine bindingIdentifier_spans.bind fun id c₁ hid => ?_
  have rest (init : Option Node) {c'} (h : Lists tokens c₁ init.toList c') :
      Spans tokens (do
        if kind == .constant && init.isNone then
          fail (.atToken (.missingInitializer (id.identifierName?.getD "")) (← current))
        else return .mk ⟨id.span.start, (← get).lastStop⟩ (.variableDeclarator id init) : Rule Node)
        c' (Covers tokens c) := by
    split
    · exact .current .fail
    · have hle : id.span.start ≤ c'.lastStop := Nat.le_trans (Nat.le_of_lt hid.nests.width)
        (Nat.le_trans hid.covers.row.stop_le h.row.le)
      refine .congr_run (r := do return .mk (← spanFrom id.span.start) (.variableDeclarator id init)) ?_
        (.named hid h (by simp [Form.slots]) rfl)
      show _ = Except.ok (Node.mk ⟨id.span.start, max c'.lastStop id.span.start⟩ _, c')
      rw [Nat.max_eq_left hle]
      rfl
  refine .accept_ite (by simp) (fun _ h => ?_) fun _ => rest none .nil
  exact .map_bind ((hg.expression _ _ _).bind fun init _ hinit =>
    rest (some init) ((h.stretch rfl).append hinit.stretch))

omit hg in
theorem isBracket_of_declarationKind? {t : Token} {kind : VariableKind}
    (h : declarationKind? t = some kind) : t.kind.isBracket = false := by
  unfold declarationKind? at h
  revert h
  fun_cases TokenKind.keyword? t.kind <;> intro h <;> first | rfl | cases h

-- The word that starts the declaration and the declarators behind it.
structure IsDeclared (tokens : List Token) (c : Cursor) (n : Node) (c' : Cursor) : Prop where
  covers : Covers tokens c n c'
  start  : n.span.start = c.current.span.start
  text   : n.form.text? = none
  rest   : ∃ c₁, c.Takes tokens c.current.kind c₁ ∧ Lists tokens c₁ n.form.nodes c'
  plain  : c.current.kind.isBracket = false

theorem variableDeclaration_spans (joinsIn : Bool) :
    Spans tokens (g.variableDeclaration joinsIn) c (IsDeclared tokens c) := by
  refine .start (.current ?_)
  split
  case h_1 => exact .unexpected
  case h_2 kind hk =>
    have hplain := isBracket_of_declarationKind? hk
    refine .skip_bind rfl (kind_ne_of_declarationKind? (by simp [hk])) fun c₁ ht => ?_
    refine Spans.bind (Q := Lists tokens c₁) ?_ fun ns _ hns => ?_
    · refine .loop (I := Lists tokens c₁) (fun ns c hns => ?_) .nil
      refine (declarator_spans hg _ _).bind fun n c' hn => ?_
      have hns := hns.append hn.stretch
      exact .accept_ite (by simp) (fun _ h => .pure (hns.skip h rfl)) fun _ => .pure hns
    · have hnodes : (Form.variableDeclaration ns kind).nodes = ns := by simp [Form.slots]
      exact .spanFrom_token ht (TokenKind.await?_of_not_isBracket hplain) hns fun _ hstart hspan =>
        .pure ⟨hspan hnodes rfl, hstart, rfl, ⟨c₁, ht, hnodes.symm ▸ hns⟩, hplain⟩

-- The span is extended by the terminator.
theorem declarationStatement_spans : Spans tokens g.declarationStatement c (Covers tokens c) := by
  refine (variableDeclaration_spans hg _).bind fun n c' hn => ?_
  obtain ⟨c₁, ht, hns⟩ := hn.rest
  rw [hn.start]
  exact terminated_spans ht (TokenKind.await?_of_not_isBracket hn.plain) hns rfl hn.text

/-! ### Branches and loops -/

theorem ifStatement_spans (scope : JumpScope) :
    Spans tokens (g.ifStatement scope) c (Covers tokens c) := by
  refine .start (.expecting (by simp) fun c₁ ht => (parenthesized_spans hg).bind fun test c₂ htest =>
    (hg.statement _ _).bind fun consequent c₃ hconsequent => ?_)
  have hs : Lists tokens c₁ [test, consequent] c₃ := htest.stretch.append hconsequent.stretch
  refine .accept_ite (by simp) (fun _ h => ?_) fun _ => .node ht rfl hs (by simp [Form.slots]) rfl
  exact .map_bind ((hg.statement _ _).bind fun _ _ halternate =>
    .node ht rfl ((hs.skip h rfl).append halternate.stretch) (by simp [Form.slots]) rfl)

theorem whileStatement_spans (scope : JumpScope) :
    Spans tokens (g.whileStatement scope) c (Covers tokens c) :=
  .start (.expecting (by simp) fun _ ht => (parenthesized_spans hg).bind fun _ _ htest =>
    (hg.statement _ _).bind fun _ _ hbody =>
      .node ht rfl (htest.stretch.append hbody.stretch) (by simp [Form.slots]) rfl)

theorem doWhileStatement_spans (scope : JumpScope) :
    Spans tokens (g.doWhileStatement scope) c (Covers tokens c) :=
  .start (.expecting (by simp) fun _ ht => (hg.statement _ _).bind fun _ _ hbody =>
    .expecting (by simp) fun _ h => (parenthesized_spans hg).bind fun _ _ htest =>
      terminated_spans ht rfl ((hbody.stretch.skip h rfl).append htest.stretch)
        (by simp [Form.slots]) rfl)

-- The head of a loop, up to its first part.
structure StartsLoop (tokens : List Token) (c c₁ c₂ : Cursor) : Prop where
  word  : c.Takes tokens (.keyword .forWord) c₁
  paren : c₁.Takes tokens (.operator .leftParen) c₂

omit hg in
theorem StartsLoop.stretch {c₁ c₂ : Cursor} (h : StartsLoop tokens c c₁ c₂) :
    Stretch tokens c₁ [] [] [.operator .rightParen] c₂ :=
  h.paren.stretch rfl

theorem forInRest_spans {c₀ c₁ c₂ : Cursor} {left : Node} (ht : StartsLoop tokens c₀ c₁ c₂)
    (hleft : Lists tokens c₂ [left] c) (scope : JumpScope) :
    Spans tokens (g.forInRest c₀.current.span.start left scope) c (Covers tokens c₀) :=
  (hg.expression _ _ _).bind fun _ _ hright => .expecting (by simp) fun _ h =>
    (hg.statement _ _).bind fun _ _ hbody =>
      .node ht.word rfl ((((ht.stretch.append (hleft.under _)).append hright.stretch).skip h rfl).append
        hbody.stretch) (by simp [Form.slots]) rfl

theorem headPart_spans (closing : Operator) :
    Spans tokens (g.headPart closing) c fun part c' => Lists tokens c part.toList c' :=
  .check_ite (fun _ => .pure .nil) fun _ => .map ((hg.expression _ _ _).mono fun _ _ h => h.stretch)

theorem forRest_spans {c₀ c₁ c₂ : Cursor} (ht : StartsLoop tokens c₀ c₁ c₂) (init : Option Node)
    (hinit : Lists tokens c₂ init.toList c) (scope : JumpScope) :
    Spans tokens (g.forRest c₀.current.span.start init scope) c (Covers tokens c₀) :=
  .expecting (by simp) fun _ h => (headPart_spans hg _).bind fun _ _ htest =>
    .expecting (by simp) fun _ h' => (headPart_spans hg _).bind fun _ _ hupdate =>
      .expecting (by simp) fun _ h'' => (hg.statement _ _).bind fun _ _ hbody =>
        have hs := (((hinit.skip h rfl).append htest).skip h' rfl).append hupdate
        .node ht.word rfl (((ht.stretch.append (hs.under _)).skip h'' rfl).append hbody.stretch)
          (by simp [Form.slots]) rfl

omit hg in
-- The declaration and its only declarator end with the name.
theorem loopVariable_spans : Spans tokens loopVariable c fun left c' =>
    Lists tokens c left.toList c' := by
  refine .advance_bind fun c₁ ht => ?_
  split
  · exact .unexpected
  case h_2 kind hk =>
    have ht := ht (kind_ne_of_declarationKind? (by simp [hk]))
    have hplain := TokenKind.await?_of_not_isBracket (w := []) (isBracket_of_declarationKind? hk)
    refine bindingIdentifier_spans.bind fun id c₂ hid => .expecting (by simp) fun c₃ h => .pure ?_
    have hlt := Nat.lt_of_lt_of_le ht.lt (Nat.le_trans hid.covers.row.start_ge
      (Nat.le_of_lt hid.nests.width))
    have hstart := hid.covers.row.start_ge
    have hstop := hid.covers.row.stop_le
    have hdeclarator : Covers tokens c₁ (.mk id.span (.variableDeclarator id none)) c₂ :=
      .of_block hid.takes.stream (show c₁.Block ([] ++ [c₁.current] ++ []) c₂ from hid.takes.block)
        hid.framed hid.nests.first hid.nests.last hstart hid.nests.width hstop
        (.singleton hid.nests (Nat.le_refl _) (Nat.le_refl _)) rfl (absurd rfl) (absurd rfl)
    have hbalanced : Balanced [c.current, c₁.current] :=
      (nesting?_cons hplain).trans hid.framed.balanced
    have hdeclaration : Covers tokens c (.mk ⟨c.current.span.start, id.span.stop⟩
        (.variableDeclaration [.mk id.span (.variableDeclarator id none)] kind)) c₂ :=
      .of_block ht.stream (show c.Block ([] ++ [c.current, c₁.current] ++ []) c₂ from
        ht.block.append hid.takes.block) ⟨hbalanced, nofun, nofun, rfl, hid.span ▸ rfl⟩
        ⟨_, ht.solid, rfl⟩ hid.nests.last ht.after hlt hstop
        (.singleton hdeclarator.nests (Nat.le_trans (Nat.le_of_lt ht.lt) hstart) (Nat.le_refl _)) rfl
        (absurd rfl) (absurd rfl)
    exact hdeclaration.stretch.skip h rfl

omit hg in
theorem loopVariable?_spans : Spans tokens loopVariable? c fun left c' =>
    Lists tokens c left.toList c' :=
  .run_ite (b := startsLoopVariable) (z := pure none) (loopVariable?_run c)
    (fun _ => loopVariable_spans) fun _ => .pure .nil

theorem forStatement_spans (scope : JumpScope) :
    Spans tokens (g.forStatement scope) c (Covers tokens c) := by
  refine .start (.expecting (by simp) fun c₁ h₁ => .expecting (by simp) fun c₂ h₂ => ?_)
  have ht : StartsLoop tokens c c₁ c₂ := ⟨h₁, h₂⟩
  refine .check_ite (fun _ => forRest_spans hg ht none .nil _) fun _ => .current ?_
  split
  · refine loopVariable?_spans.bind fun left c₃ hleft => ?_
    cases left
    case some left => exact forInRest_spans hg ht hleft _
    case none =>
      exact (variableDeclaration_spans hg _).bind fun init _ hinit =>
        forRest_spans hg ht (some init) (hleft.append hinit.covers.stretch) _
  · refine (hg.expression _ _ _).bind fun first _ hfirst => ?_
    have hfirst : Lists tokens c₂ [first] _ := hfirst.stretch
    refine .accept_ite (by simp) (fun _ h => ?_) fun _ => forRest_spans hg ht (some first) hfirst _
    split
    · exact forInRest_spans hg ht (hfirst.skip h rfl) _
    · exact .current .fail

/-! ### Switches -/

theorem caseTest_spans (hasDefault : Bool) :
    Spans tokens (g.caseTest hasDefault) c fun read c' => ∃ c₁ kind, c.Takes tokens kind c₁ ∧
      kind.isBracket = false ∧ Lists tokens c₁ read.1.toList c' := by
  refine .accept_ite (by simp) (fun c₁ ht => ?_) fun _ => ?_
  · exact (hg.expression _ _ _).bind fun _ _ htest => .pure ⟨c₁, _, ht, rfl, htest.stretch⟩
  · refine .read (x := check _) (fun _ => rfl) ?_
    split
    case isTrue hk =>
      exact .skip_bind (beq_iff_eq.mp (Bool.and_eq_true_iff.mp hk).left) (by simp) fun c₁ ht =>
        .pure ⟨c₁, _, ht, rfl, .nil⟩
    case isFalse => exact .unexpected

theorem caseBody_spans (scope : JumpScope) :
    Spans tokens (g.caseBody scope) c (Lists tokens c) := by
  refine .loop (I := Lists tokens c) (fun ns c hns => .current ?_) .nil
  dsimp only
  split
  · exact .pure hns
  · exact .isAtEnd_ite .unexpected ((hg.statement _ _).bind fun _ _ hn => .pure (hns.append hn.stretch))

theorem switchStatement_spans (scope : JumpScope) :
    Spans tokens (g.switchStatement scope) c (Covers tokens c) := by
  refine .start (.expecting (by simp) fun c₁ ht => (parenthesized_spans hg).bind fun _ c₂ hd =>
    .expecting (by simp) fun c₃ h => ?_)
  have hd : Stretch tokens c₁ [] [_] [.operator .rightBrace] c₃ := hd.stretch.skip h rfl
  refine Spans.bind (Q := fun ns c' => Stretch tokens c₃ [.operator .rightBrace] ns [] c') ?_
    fun _ _ hcases => .node ht rfl (hd.append hcases) (by simp [Form.slots]) rfl
  refine .loop (I := fun state c' => Stretch tokens c₃ [.operator .rightBrace] state.1
    [.operator .rightBrace] c') (fun state c hcases => ?_) .nil
  obtain ⟨cases, hasDefault⟩ := state
  refine .accept_ite (by simp) (fun _ h => .pure (hcases.skip h rfl)) fun _ => .start ?_
  refine (caseTest_spans hg _).bind fun read c₄ hread => .expecting (by simp) fun c₅ h =>
    (caseBody_spans hg _).bind fun body c₆ hbody => ?_
  obtain ⟨c₇, kind, ht, hk, htest⟩ := hread
  exact .spanFrom_token ht (TokenKind.await?_of_not_isBracket hk) ((htest.skip h rfl).append hbody)
    fun _ _ hspan => .pure (hcases.append (hspan (by simp [Form.slots]) rfl).stretch)

/-! ### Jumps -/

omit hg in
theorem jumpLabel_spans : Spans tokens jumpLabel c fun label c' =>
    Lists tokens c label.toList c' := by
  refine .read (x := check _) (fun _ => rfl) (.isAfterLineBreak fun _ => ?_)
  split
  · exact .map (bindingIdentifier_spans.mono fun _ _ h => h.covers.stretch)
  · exact .pure .nil

omit hg in
theorem breakStatement_spans (scope : JumpScope) (hk : c.current.kind = .keyword .breakWord) :
    Spans tokens (breakStatement scope) c (Covers tokens c) := by
  unfold breakStatement
  split
  · exact .current .fail
  · exact .start (.skip_bind hk (by simp) fun _ ht => jumpLabel_spans.bind fun _ _ hlabel =>
      terminated_spans ht rfl hlabel (by simp [Form.slots]) rfl)

omit hg in
theorem continueStatement_spans (scope : JumpScope) (hk : c.current.kind = .keyword .continueWord) :
    Spans tokens (continueStatement scope) c (Covers tokens c) := by
  unfold continueStatement
  split
  · exact .current .fail
  · exact .start (.skip_bind hk (by simp) fun _ ht => jumpLabel_spans.bind fun _ _ hlabel =>
      terminated_spans ht rfl hlabel (by simp [Form.slots]) rfl)

theorem returnArgument_spans : Spans tokens g.returnArgument c fun argument c' =>
    Lists tokens c argument.toList c' := by
  refine .current ?_
  dsimp only
  split
  · exact .pure .nil
  refine .isAfterLineBreak fun _ => ?_
  split
  · exact .pure .nil
  · exact .map ((hg.expression _ _ _).mono fun _ _ h => h.stretch)

theorem returnStatement_spans (scope : JumpScope) (hk : c.current.kind = .keyword .returnWord) :
    Spans tokens (g.returnStatement scope) c (Covers tokens c) := by
  unfold returnStatement
  split
  · exact .current .fail
  · exact .start (.skip_bind hk (by simp) fun _ ht => (returnArgument_spans hg).bind
      fun _ _ hargument => terminated_spans ht rfl hargument (by simp [Form.slots]) rfl)

theorem throwStatement_spans : Spans tokens g.throwStatement c (Covers tokens c) :=
  .start (.expecting (by simp) fun _ ht => (hg.expression _ _ _).bind fun _ _ hargument =>
    terminated_spans ht rfl hargument.stretch (by simp [Form.slots]) rfl)

/-! ### Other statements -/

theorem catchClause_spans (scope : JumpScope) (hk : c.current.kind = .keyword .catchWord) :
    Spans tokens (g.catchClause scope) c (Covers tokens c) :=
  .start (.skip_bind hk (by simp) fun _ ht => .expecting (by simp) fun _ h =>
    bindingIdentifier_spans.bind fun _ _ hparam => .expecting (by simp) fun _ h' =>
      (block_spans hg _).bind fun _ _ hbody =>
        .node ht rfl ((((h.stretch rfl).append hparam.covers.stretch).skip h' rfl).append hbody.stretch)
          (by simp [Form.slots]) rfl)

theorem tryStatement_spans (scope : JumpScope) :
    Spans tokens (g.tryStatement scope) c (Covers tokens c) := by
  refine .start (.expecting (by simp) fun c₁ ht => (block_spans hg _).bind fun block c₂ hblock => ?_)
  have last (handler finalizer : Option Node) {c'}
      (h : Lists tokens c₁ (block :: (handler.toList ++ finalizer.toList)) c') :
      Spans tokens (do
        if handler.isNone && finalizer.isNone then unexpected
        else
          return .mk (← spanFrom c.current.span.start) (.tryStatement block handler finalizer)
          : Rule Node) c' (Covers tokens c) := by
    split
    · exact .unexpected
    · exact .node ht rfl h (by simp [Form.slots]) rfl
  have rest (handler : Option Node) {c'} (h : Lists tokens c₁ (block :: handler.toList) c') :
      Spans tokens (do
        let finalizer ←
          if ← accept (.keyword .finallyWord) then some <$> g.block scope else pure none
        if handler.isNone && finalizer.isNone then unexpected
        else
          return .mk (← spanFrom c.current.span.start) (.tryStatement block handler finalizer)
          : Rule Node) c' (Covers tokens c) := by
    refine .accept_ite (by simp) (fun _ ht => ?_) fun _ => last handler none (by simpa using h)
    exact .map_bind ((block_spans hg _).bind fun finalizer _ hf =>
      last handler (some finalizer) ((h.skip ht rfl).append hf.stretch))
  refine .check_ite (fun hk => ?_) fun _ => rest none hblock.stretch
  exact .map_bind ((catchClause_spans hg _ hk).bind fun handler _ hh =>
    rest (some handler) (hblock.stretch.append hh.stretch))

theorem withStatement_spans (scope : JumpScope) :
    Spans tokens (g.withStatement scope) c (Covers tokens c) :=
  .start (.expecting (by simp) fun _ ht => (parenthesized_spans hg).bind fun _ _ hobject =>
    (hg.statement _ _).bind fun _ _ hbody =>
      .node ht rfl (hobject.stretch.append hbody.stretch) (by simp [Form.slots]) rfl)

omit hg in
theorem debuggerStatement_spans : Spans tokens debuggerStatement c (Covers tokens c) :=
  .start (.expecting (by simp) fun _ ht => terminated_spans ht rfl .nil (by simp [Form.slots]) rfl)

-- The first token belongs to the expression, or it is a parenthesis in front of it.
theorem expressionStatement_spans : Spans tokens g.expressionStatement c (Covers tokens c) := by
  refine .start (.of_placed fun hc => (hg.expression _ _ _).bind fun n c₁ hn =>
    Spans.terminator.bind fun _ c₂ h => ?_)
  obtain ⟨t, ht, hstart⟩ := hn.nests.first
  obtain ⟨hcurrent, hafter, hcle⟩ := hc.current_le ht (hstart ▸ hn.row.start_ge)
  have hcle := hstart ▸ hcle
  have hlt := Nat.lt_of_le_of_lt hcle (Nat.lt_of_lt_of_le hn.nests.width
    (Nat.le_trans hn.row.stop_le h.row.le))
  obtain ⟨opening, inner, closing, hb, hf⟩ := hn.block
  obtain ⟨ts, hts, hnesting⟩ := h.block
  have hne : opening ++ inner ++ closing ++ ts ≠ [] := by
    have hinner : inner ≠ [] := by rintro rfl; cases hf.first
    simp [hinner]
  have hblock := hb.append hts
  exact .spanFrom [] [n] hn.stream hblock ((nesting?_append hf.balanced).trans hnesting) nofun
    (congrArg (Option.map _) (hc.head?_of_block hblock hne)) ⟨_, hcurrent, rfl⟩ hafter hlt
    (.singleton hn.nests hcle (Nat.le_trans hn.row.stop_le h.row.le)) fun _ _ hspan =>
      .pure (hspan (by simp [Form.slots]) rfl (absurd rfl))

theorem namedStatement_spans (scope : JumpScope) (hk : c.current.kind = .identifier) :
    Spans tokens (g.namedStatement scope) c (Covers tokens c) := by
  refine .run_ite (b := startsLabel) (namedStatement_run scope hk) (fun _ => .start ?_)
    fun _ => expressionStatement_spans hg
  refine bindingIdentifier_spans.bind fun label c₁ hlabel => ?_
  rw [← hlabel.span]
  exact .expecting (by simp) fun _ h => (hg.statement _ _).bind fun _ _ hbody =>
    .named hlabel ((h.stretch rfl).append hbody.stretch) (by simp [Form.slots]) rfl

theorem statementRule_spans (scope : JumpScope) :
    Spans tokens (g.statementRule scope) c (Covers tokens c) := by
  refine .current ?_
  split
  case h_1 | h_2 | h_3 => exact declarationStatement_spans hg
  case h_4 => exact ifStatement_spans hg _
  case h_5 => exact switchStatement_spans hg _
  case h_6 => exact whileStatement_spans hg _
  case h_7 => exact forStatement_spans hg _
  case h_8 => exact doWhileStatement_spans hg _
  case h_9 hk => exact breakStatement_spans _ hk
  case h_10 hk => exact continueStatement_spans _ hk
  case h_11 => exact functionDeclaration_spans hg fun h => by cases h
  case h_12 hk => exact returnStatement_spans hg _ hk
  case h_13 => exact throwStatement_spans hg
  case h_14 => exact tryStatement_spans hg _
  case h_15 => exact withStatement_spans hg _
  case h_16 => exact debuggerStatement_spans
  case h_17 => exact block_spans hg _
  case h_18 hk =>
    exact (Spans.advance hk (by simp)).bind fun _ _ ht =>
      .pure (CoversToken.covers (Spans.token ht rfl (by simp [Form.slots]) fun _ h => by cases h))
  case h_19 hk =>
    exact .run_ite (b := startsAsyncFunction) (Follows.run_get_ite _ _ _ _)
      (fun _ => functionDeclaration_spans hg fun _ => hk) fun _ => namedStatement_spans hg _ hk
  case h_20 => exact expressionStatement_spans hg

end ScriptTree.Grammar
