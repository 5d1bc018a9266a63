import ScriptTree.Proofs.Parse.Wording.Expression

/-!
The tokens that statements are read from, and whole scripts.
-/

namespace ScriptTree

open Rule Cursor

namespace Grammar

open Spans

variable {tokens : List Token} {g : Grammar} {c : Cursor} {kind : TokenKind} {fs : List Face}

variable (hg : g.IsWorded tokens)
include hg

/-! ### Declarations -/

theorem declarator_passes (kind : VariableKind) (joinsIn : Bool) :
    Spans tokens (g.declarator kind joinsIn) c c.PassesNode := by
  refine (bindingIdentifier_passes hg.scanned).bind fun id c₁ hid => ?_
  have rest (init : Option Node) {c'}
      (h : c.Passes (id.wording ++ init.toList.flatMap (.op .assign :: ·.wording)) c') :
      Spans tokens (do
        if kind == .constant && init.isNone then
          fail (.atToken (.missingInitializer (id.identifierName?.getD "")) (← current))
        else return .mk ⟨id.span.start, (← get).lastStop⟩ (.variableDeclarator id init) : Rule Node)
        c' c.PassesNode := by
    split
    · exact .current .fail
    · refine .read (x := get) (fun _ => rfl) (.pure ?_)
      rw [PassesNode, Node.wording_mk]
      simpa [Form.spell, Form.parts, Function.comp_def] using h
  refine .accept_ite (by simp) (fun _ h => ?_) fun _ => rest none (by simpa using hid)
  exact .map_bind ((hg.expression _ _ _).bind fun init _ hinit =>
    rest (some init) (by simpa using hid.append ((h.op hg.scanned rfl).append hinit)))

theorem declarationWord_passes {c' : Cursor} {kind : VariableKind}
    (hk : declarationKind? c.current = some kind) (h : c.Takes tokens c.current.kind c') :
    c.Passes [.declaration kind] c' := by
  unfold declarationKind? at hk
  generalize c.current.kind = current at hk h
  obtain ⟨word, hword, hkind⟩ := Option.bind_eq_some_iff.mp hk
  have hcurrent : current = .keyword word := by
    cases current <;> cases hword
    rfl
  have hface : Face.declaration kind = .keyword word := by
    revert hkind
    cases word <;> rintro ⟨⟩ <;> rfl
  rw [hface]
  exact Takes.keyword (hcurrent ▸ h) hg.scanned

theorem variableDeclaration_passes (joinsIn : Bool) :
    Spans tokens (g.variableDeclaration joinsIn) c c.PassesNode := by
  refine .start (.current ?_)
  split
  case h_1 => exact .unexpected
  case h_2 kind hk =>
    refine .skip_bind rfl (kind_ne_of_declarationKind? (by simp [hk])) fun c₁ ht => ?_
    have hword : c.Passes [.declaration kind] c₁ := declarationWord_passes hg hk ht
    refine Spans.bind (Q := c₁.PassesNodes) ?_ fun ns _ hns =>
      .passes (hword.append hns) (by simp [Form.spell, Form.parts])
    refine .loop (I := c₁.PassesNodes) (fun ns c hns => ?_) .nil
    refine (declarator_passes hg _ _).bind fun n c' hn => ?_
    have hns := hns.snoc hn
    exact .accept_ite (by simp) (fun _ h => .pure (hns.skip h rfl)) fun _ => .pure hns

-- The span is extended by the terminator.
theorem declarationStatement_passes : Spans tokens g.declarationStatement c c.PassesNode := by
  refine (variableDeclaration_passes hg _).bind fun n c' hn => ?_
  obtain ⟨span, form⟩ := n
  rw [PassesNode, Node.wording_mk] at hn
  exact terminated_passes hn rfl

/-! ### Branches and loops -/

theorem ifStatement_passes (scope : JumpScope) : Spans tokens (g.ifStatement scope) c c.PassesNode := by
  refine .start (.expecting (by simp) fun c₁ ht => (parenthesized_passes hg).bind fun test c₂ htest =>
    (hg.statement _ _).bind fun consequent c₃ hconsequent => ?_)
  have hs := (ht.keyword hg.scanned).append (htest.append hconsequent)
  refine .accept_ite (by simp) (fun _ h => ?_) fun _ => .passes hs (by simp [Form.spell, Form.parts])
  exact .map_bind ((hg.statement _ _).bind fun _ _ halternate =>
    .passes (hs.append ((h.keyword hg.scanned).append halternate)) (by simp [Form.spell, Form.parts]))

theorem whileStatement_passes (scope : JumpScope) :
    Spans tokens (g.whileStatement scope) c c.PassesNode :=
  .start (.expecting (by simp) fun _ ht => (parenthesized_passes hg).bind fun _ _ htest =>
    (hg.statement _ _).bind fun _ _ hbody =>
      .passes ((ht.keyword hg.scanned).append (htest.append hbody)) (by simp [Form.spell, Form.parts]))

theorem doWhileStatement_passes (scope : JumpScope) :
    Spans tokens (g.doWhileStatement scope) c c.PassesNode :=
  .start (.expecting (by simp) fun _ ht => (hg.statement _ _).bind fun _ _ hbody =>
    .expecting (by simp) fun _ h => (parenthesized_passes hg).bind fun _ _ htest =>
      terminated_passes
        ((ht.keyword hg.scanned).append (hbody.append ((h.keyword hg.scanned).append htest)))
        (by simp [Form.spell, Form.parts]))

theorem forInRest_passes {c₀ : Cursor} {start : Nat} {left : Node}
    (h : c₀.Passes (.keyword .forWord :: left.wording ++ [.keyword .inWord]) c) (scope : JumpScope) :
    Spans tokens (g.forInRest start left scope) c c₀.PassesNode :=
  (hg.expression _ _ _).bind fun _ _ hright => .expecting (by simp) fun _ h' =>
    (hg.statement _ _).bind fun _ _ hbody =>
      .passes ((h.append (Passes.skip hright h' rfl)).append hbody) (by simp [Form.spell, Form.parts])

theorem headPart_passes (closing : Operator) :
    Spans tokens (g.headPart closing) c fun part c' => c.PassesNodes part.toList c' :=
  .check_ite (fun _ => .pure .nil) fun _ => .map ((hg.expression _ _ _).mono fun _ _ hn => hn.some)

theorem forRest_passes {c₀ : Cursor} {start : Nat} (init : Option Node)
    (h : c₀.Passes (.keyword .forWord :: init.toList.flatMap Node.wording) c) (scope : JumpScope) :
    Spans tokens (g.forRest start init scope) c c₀.PassesNode :=
  .expecting (by simp) fun _ h₁ => (headPart_passes hg _).bind fun _ _ htest =>
    .expecting (by simp) fun _ h₂ => (headPart_passes hg _).bind fun _ _ hupdate =>
      .expecting (by simp) fun _ h₃ => (hg.statement _ _).bind fun _ _ hbody =>
        .passes ((((h.skip h₁ rfl).append (htest.skip h₂ rfl)).append (hupdate.skip h₃ rfl)).append hbody)
          (by simp [Form.spell, Form.parts])

-- The declaration and its only declarator end with the name.
theorem loopVariable_passes : Spans tokens loopVariable c fun left c' =>
    ∃ n, left = some n ∧ c.Passes (n.wording ++ [.keyword .inWord]) c' := by
  refine .advance_bind fun c₁ ht => ?_
  split
  · exact .unexpected
  case h_2 kind hk =>
    have ht := ht (kind_ne_of_declarationKind? (by simp [hk]))
    refine (bindingIdentifier_passes hg.scanned).bind fun id c₂ hid => .expecting (by simp) fun c₃ h =>
      .pure ⟨_, rfl, ?_⟩
    have hpasses := ((declarationWord_passes hg hk ht).append hid).append (h.keyword hg.scanned)
    simpa [Node.wording_mk, Form.spell, Form.parts] using hpasses

theorem loopVariable?_passes : Spans tokens loopVariable? c fun left c' =>
    match left with
    | some n => c.Passes (n.wording ++ [.keyword .inWord]) c'
    | none   => c' = c :=
  .run_ite (b := startsLoopVariable) (z := pure none) (loopVariable?_run c)
    (fun _ => (loopVariable_passes hg).mono fun _ _ ⟨_, hleft, hpasses⟩ => hleft ▸ hpasses)
    fun _ => .pure rfl

theorem forStatement_passes (scope : JumpScope) : Spans tokens (g.forStatement scope) c c.PassesNode := by
  refine .start (.expecting (by simp) fun c₁ h₁ => .expecting (by simp) fun c₂ h₂ => ?_)
  have ht : c.Passes [.keyword .forWord] c₂ := (h₁.keyword hg.scanned).skip h₂ rfl
  refine .check_ite (fun _ => forRest_passes hg none ht _) fun _ => .current ?_
  split
  · refine (loopVariable?_passes hg).bind fun left c₃ hleft => ?_
    cases left
    case some left => exact forInRest_passes hg (ht.append hleft) _
    case none =>
      subst hleft
      exact (variableDeclaration_passes hg _).bind fun init _ hinit =>
        forRest_passes hg (some init) (ht.append hinit.some) _
  · refine (hg.expression _ _ _).bind fun first _ hfirst => ?_
    refine .accept_ite (by simp) (fun _ h => ?_) fun _ =>
      forRest_passes hg (some first) (ht.append hfirst.some) _
    split
    · exact forInRest_passes hg ((ht.append hfirst).append (h.keyword hg.scanned)) _
    · exact .current .fail

/-! ### Switches -/

theorem caseTest_passes (hasDefault : Bool) :
    Spans tokens (g.caseTest hasDefault) c fun read c' =>
      c.Passes ((read.1.map (.keyword .caseWord :: ·.wording)).getD [.keyword .defaultWord]) c' := by
  refine .accept_ite (by simp) (fun c₁ ht => ?_) fun _ => ?_
  · exact (hg.expression _ _ _).bind fun _ _ htest => .pure ((ht.keyword hg.scanned).append htest)
  · refine .read (x := check _) (fun _ => rfl) ?_
    split
    case isTrue hk =>
      exact .skip_bind (beq_iff_eq.mp (Bool.and_eq_true_iff.mp hk).left) (by simp) fun c₁ ht =>
        .pure (ht.keyword hg.scanned)
    case isFalse => exact .unexpected

theorem caseBody_passes (scope : JumpScope) : Spans tokens (g.caseBody scope) c c.PassesNodes := by
  refine .loop (I := c.PassesNodes) (fun ns c hns => .current ?_) .nil
  dsimp only
  split
  · exact .pure hns
  · exact .isAtEnd_ite .unexpected ((hg.statement _ _).bind fun _ _ hn => .pure (hns.snoc hn))

theorem switchStatement_passes (scope : JumpScope) :
    Spans tokens (g.switchStatement scope) c c.PassesNode := by
  refine .start (.expecting (by simp) fun c₁ ht => (parenthesized_passes hg).bind fun _ c₂ hd =>
    .expecting (by simp) fun c₃ h => ?_)
  have hd := (ht.keyword hg.scanned).append (hd.append (h.op hg.scanned rfl))
  refine Spans.bind (Q := fun ns c' => c₃.Passes (ns.flatMap Node.wording ++ [.op .rightBrace]) c') ?_
    fun _ _ hcases => .passes (hd.append hcases) (by simp [Form.spell, Form.parts])
  refine .loop (I := fun state c' => c₃.PassesNodes state.1 c') (fun state c hcases => ?_) .nil
  obtain ⟨cases, hasDefault⟩ := state
  refine .accept_ite (by simp) (fun _ h => .pure (hcases.append (h.op hg.scanned rfl))) fun _ => .start ?_
  refine (caseTest_passes hg _).bind fun read c₄ hread => .expecting (by simp) fun c₅ h =>
    (caseBody_passes hg _).bind fun body c₆ hbody => .read (fun _ => rfl) (.pure (hcases.snoc ?_))
  have hpasses := hread.append ((h.op hg.scanned rfl).append hbody)
  rw [PassesNode, Node.wording_mk]
  cases htest : read.1 <;> simpa [Form.spell, Form.parts, htest] using hpasses

/-! ### Jumps -/

theorem jumpLabel_passes : Spans tokens jumpLabel c fun label c' => c.PassesNodes label.toList c' := by
  refine .read (x := check _) (fun _ => rfl) (.isAfterLineBreak fun _ => ?_)
  split
  · exact .map ((bindingIdentifier_passes hg.scanned).mono fun _ _ hn => hn.some)
  · exact .pure .nil

theorem breakStatement_passes (scope : JumpScope) (hk : c.current.kind = .keyword .breakWord) :
    Spans tokens (breakStatement scope) c c.PassesNode := by
  unfold breakStatement
  split
  · exact .current .fail
  · exact .start (.skip_bind hk (by simp) fun _ ht => (jumpLabel_passes hg).bind fun _ _ hlabel =>
      terminated_passes ((ht.keyword hg.scanned).append hlabel) (by simp [Form.spell, Form.parts]))

theorem continueStatement_passes (scope : JumpScope) (hk : c.current.kind = .keyword .continueWord) :
    Spans tokens (continueStatement scope) c c.PassesNode := by
  unfold continueStatement
  split
  · exact .current .fail
  · exact .start (.skip_bind hk (by simp) fun _ ht => (jumpLabel_passes hg).bind fun _ _ hlabel =>
      terminated_passes ((ht.keyword hg.scanned).append hlabel) (by simp [Form.spell, Form.parts]))

theorem returnArgument_passes :
    Spans tokens g.returnArgument c fun argument c' => c.PassesNodes argument.toList c' := by
  refine .current ?_
  dsimp only
  split
  · exact .pure .nil
  refine .isAfterLineBreak fun _ => ?_
  split
  · exact .pure .nil
  · exact .map ((hg.expression _ _ _).mono fun _ _ hn => hn.some)

theorem returnStatement_passes (scope : JumpScope) (hk : c.current.kind = .keyword .returnWord) :
    Spans tokens (g.returnStatement scope) c c.PassesNode := by
  unfold returnStatement
  split
  · exact .current .fail
  · exact .start (.skip_bind hk (by simp) fun _ ht => (returnArgument_passes hg).bind fun _ _ hargument =>
      terminated_passes ((ht.keyword hg.scanned).append hargument) (by simp [Form.spell, Form.parts]))

theorem throwStatement_passes : Spans tokens g.throwStatement c c.PassesNode :=
  .start (.expecting (by simp) fun _ ht => (hg.expression _ _ _).bind fun _ _ hargument =>
    terminated_passes ((ht.keyword hg.scanned).append hargument) (by simp [Form.spell, Form.parts]))

/-! ### Other statements -/

theorem catchClause_passes (scope : JumpScope) (hk : c.current.kind = .keyword .catchWord) :
    Spans tokens (g.catchClause scope) c c.PassesNode :=
  .start (.skip_bind hk (by simp) fun _ ht => .expecting (by simp) fun _ h =>
    (bindingIdentifier_passes hg.scanned).bind fun _ _ hparam => .expecting (by simp) fun _ h' =>
      (block_passes hg _).bind fun _ _ hbody =>
        .passes ((((ht.keyword hg.scanned).skip h rfl).append (Passes.skip hparam h' rfl)).append hbody)
          (by simp [Form.spell, Form.parts]))

theorem tryStatement_passes (scope : JumpScope) : Spans tokens (g.tryStatement scope) c c.PassesNode := by
  refine .start (.expecting (by simp) fun c₁ ht => (block_passes hg _).bind fun block c₂ hblock => ?_)
  have ht := (ht.keyword hg.scanned).append hblock
  have last (handler finalizer : Option Node) {c'}
      (h : c.Passes (.keyword .tryWord :: block.wording ++ handler.toList.flatMap Node.wording ++
        finalizer.toList.flatMap (.keyword .finallyWord :: ·.wording)) c') :
      Spans tokens (do
        if handler.isNone && finalizer.isNone then unexpected
        else
          return .mk (← spanFrom c.current.span.start) (.tryStatement block handler finalizer)
          : Rule Node) c' c.PassesNode := by
    split
    · exact .unexpected
    · exact .passes h (by simp [Form.spell, Form.parts])
  have rest (handler : Option Node) {c'}
      (h : c.Passes (.keyword .tryWord :: block.wording ++ handler.toList.flatMap Node.wording) c') :
      Spans tokens (do
        let finalizer ←
          if ← accept (.keyword .finallyWord) then some <$> g.block scope else pure none
        if handler.isNone && finalizer.isNone then unexpected
        else
          return .mk (← spanFrom c.current.span.start) (.tryStatement block handler finalizer)
          : Rule Node) c' c.PassesNode := by
    refine .accept_ite (by simp) (fun _ ht => ?_) fun _ => last handler none (by simpa using h)
    exact .map_bind ((block_passes hg _).bind fun finalizer _ hf =>
      last handler (some finalizer) (by simpa using h.append ((ht.keyword hg.scanned).append hf)))
  refine .check_ite (fun hk => ?_) fun _ => rest none (by simpa using ht)
  exact .map_bind ((catchClause_passes hg _ hk).bind fun handler _ hh => rest (some handler) (ht.append hh.some))

theorem withStatement_passes (scope : JumpScope) :
    Spans tokens (g.withStatement scope) c c.PassesNode :=
  .start (.expecting (by simp) fun _ ht => (parenthesized_passes hg).bind fun _ _ hobject =>
    (hg.statement _ _).bind fun _ _ hbody =>
      .passes ((ht.keyword hg.scanned).append (hobject.append hbody)) (by simp [Form.spell, Form.parts]))

theorem debuggerStatement_passes : Spans tokens debuggerStatement c c.PassesNode :=
  .start (.expecting (by simp) fun _ ht => terminated_passes (ht.keyword hg.scanned) (by simp [Form.spell, Form.parts]))

theorem expressionStatement_passes : Spans tokens g.expressionStatement c c.PassesNode :=
  .start ((hg.expression _ _ _).bind fun _ _ hn => terminated_passes hn (by simp [Form.spell, Form.parts]))

theorem namedStatement_passes (scope : JumpScope) (hk : c.current.kind = .identifier) :
    Spans tokens (g.namedStatement scope) c c.PassesNode := by
  refine .run_ite (b := startsLabel) (namedStatement_run scope hk) (fun _ => .start ?_)
    fun _ => expressionStatement_passes hg
  exact (bindingIdentifier_passes hg.scanned).bind fun label c₁ hlabel => .expecting (by simp) fun _ h =>
    (hg.statement _ _).bind fun _ _ hbody =>
      .passes (hlabel.append ((h.op hg.scanned rfl).append hbody)) (by simp [Form.spell, Form.parts])

theorem statementRule_passes (scope : JumpScope) : Spans tokens (g.statementRule scope) c c.PassesNode := by
  refine .current ?_
  split
  case h_1 | h_2 | h_3 => exact declarationStatement_passes hg
  case h_4 => exact ifStatement_passes hg _
  case h_5 => exact switchStatement_passes hg _
  case h_6 => exact whileStatement_passes hg _
  case h_7 => exact forStatement_passes hg _
  case h_8 => exact doWhileStatement_passes hg _
  case h_9 hk => exact breakStatement_passes hg _ hk
  case h_10 hk => exact continueStatement_passes hg _ hk
  case h_11 => exact functionDeclaration_passes hg fun h => by cases h
  case h_12 hk => exact returnStatement_passes hg _ hk
  case h_13 => exact throwStatement_passes hg
  case h_14 => exact tryStatement_passes hg _
  case h_15 => exact withStatement_passes hg _
  case h_16 => exact debuggerStatement_passes hg
  case h_17 => exact block_passes hg _
  case h_18 hk =>
    exact (Spans.advance hk (by simp)).bind fun _ _ ⟨_, h⟩ => .pure (h.nothing rfl)
  case h_19 hk =>
    exact .run_ite (b := startsAsyncFunction) (Follows.run_get_ite _ _ _ _)
      (fun ha => functionDeclaration_passes hg fun _ => ha) fun _ => namedStatement_passes hg _ hk
  case h_20 => exact expressionStatement_passes hg

/-! ### Scripts -/

theorem statements_passes (scope : JumpScope) :
    Spans tokens (g.statements scope) c fun ns c' =>
      c.PassesNodes ns c' ∧ c'.current.kind = .endOfInput := by
  refine .loop (I := c.PassesNodes) (fun ns c hns => ?_) .nil
  exact .check_ite (fun hk => .pure ⟨hns, hk⟩) fun _ =>
    (hg.statement _ _).bind fun _ _ hn => .pure (hns.snoc hn)

omit hg in
-- The induction is on the depth: each rule is made of those that may go less deep.
theorem ofDepth_isWorded (hs : IsScanned tokens) (depth : Nat) : (ofDepth depth).IsWorded tokens := by
  induction depth
  case zero => exact ⟨hs, fun _ _ => .throw, fun _ _ _ => .throw, fun _ => .throw⟩
  case succ depth ih =>
    exact ⟨hs, fun scope _ => statementRule_passes ih scope,
      fun sequence joinsIn _ => expressionRule_passes ih sequence joinsIn,
      fun _ => primaryRule_passes ih⟩

end Grammar

-- The tokens of a source are those that its script stands for, and parentheses, commas and semicolons.
theorem wording_of_parse {options : ParseOptions} {source : String} {tree : Node}
    (h : parse options (Token.ofSource source true) = .ok tree) :
    Token.wording (Token.ofSource source true) = tree.wording := by
  unfold parse at h
  split at h
  case h_1 body c hbody =>
    cases h
    have hpasses := Grammar.statements_passes (Grammar.ofDepth_isWorded (isScanned_ofSource source)
      (sufficientDepth (Token.ofSource source true))) { allowsReturn := options.allowsReturn }
      (ofTokens_placed source)
    rw [StateT.run, show (Grammar.ofDepth _).statements _ _ = _ from hbody] at hpasses
    obtain ⟨hc, ⟨ts, hts, hwording⟩, hend⟩ := hpasses
    have hleft := hts.left
    rw [hc.left_of_end hend, List.append_nil, left_ofTokens] at hleft
    rw [← Token.wording_filter_isProper, hleft, hwording, Node.wording_mk]
    simp [Form.spell, Form.parts]
  case h_2 => cases h
  case h_3 => cases h

end ScriptTree
