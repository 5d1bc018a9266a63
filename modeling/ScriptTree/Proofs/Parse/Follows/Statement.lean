import ScriptTree.Parse.Statement
import ScriptTree.Proofs.Parse.Follows.Expression

/-!
Statements, read once more where the semicolons are written.
-/

namespace ScriptTree.Grammar

open Node Rule

variable {g g' : Grammar} {c : Cursor}
variable (hg : g.FollowedBy g')
include hg

/-! ### Declarations -/

theorem declarator_follows (kind : VariableKind) (joinsIn : Bool) :
    Follows .eats Loose bare (g.declarator kind joinsIn) (g'.declarator kind joinsIn) c := by
  refine bindingIdentifier_follows.eats_bind fun id id' c hid => ?_
  have rest {init init' : Option Node} {c} (hinit : init'.map bare = init.map bare) :
      Follows .ends Loose bare (do
        if kind == .constant && init.isNone then
          fail (.atToken (.missingInitializer (id.identifierName?.getD "")) (← current))
        else return .mk ⟨id.span.start, (← get).lastStop⟩ (.variableDeclarator id init))
        (do
        if kind == .constant && init'.isNone then
          fail (.atToken (.missingInitializer (id'.identifierName?.getD "")) (← current))
        else return .mk ⟨id'.span.start, (← get).lastStop⟩ (.variableDeclarator id' init')) c := by
    rw [isNone_of_map_bare hinit]
    split
    · exact .fails fun _ h => by cases h
    · exact .read (fun _ => rfl) (fun _ => rfl) fun _ _ =>
        .pure trivial (by simp [bare_mk, Form.map, hid, hinit])
  refine .accept_ite (by simp) (fun _ => ?_) fun _ => rest rfl
  exact Follows.map_bind ((hg.expression _ _ _).eats_bind fun _ _ _ hn => rest (map_some_of_bare hn))

theorem variableDeclaration_follows (joinsIn : Bool) :
    Follows .eats Loose bare (g.variableDeclaration joinsIn) (g'.variableDeclaration joinsIn) c := by
  refine .start fun _ _ => .current_pins trivial ?_
  split
  case h_1 => exact .unexpected
  case h_2 kind hk =>
    refine .skip_bind (fun he => by simp [declarationKind?, he, TokenKind.keyword?] at hk) fun _ => ?_
    refine Follows.eats_bind (e := List.map bare) (Follows.loop (m := .eats) (K := Loose)
      (e := List.map bare) (fun ns ns' c hns => ?_) (fun _ => False.elim) hg.limit rfl)
      fun _ _ _ hns => spanned (fun _ => trivial) (by simp [Form.map, hns])
    refine (declarator_follows hg _ _).eats_bind fun n n' _ hn => ?_
    refine .accept_ite (by simp) (fun _ => .pure trivial ?_) fun _ => .pure trivial ?_ <;>
      simp [Round.map, hns, hn]

theorem declarationStatement_follows :
    Follows .eats Clear bare g.declarationStatement g'.declarationStatement c :=
  (variableDeclaration_follows hg _).eats_bind fun _ _ _ hn =>
    Follows.terminator.ends_bind fun _ _ _ _ => .spanFrom fun _ _ =>
      .pure trivial (withSpan_of_bare hn _ _)

/-! ### Branches and loops -/

theorem ifStatement_follows (scope : JumpScope) :
    Follows .eats Clear bare (g.ifStatement scope) (g'.ifStatement scope) c := by
  refine .start fun start start' => .expecting (by simp) fun _ => (parenthesized_follows hg).eats_bind
    fun test test' _ ht => (hg.statement _ _).eats_bind_holds fun n n' _ hn => ?_
  refine .accept_ite (by simp) (fun _ => ?_) fun _ => ?_
  · refine Follows.map_bind ((hg.statement _ _).eats_bind_holds fun _ _ _ ha => ?_)
    exact spanned (fun _ => trivial) (by simp [Form.map, ht, hn, ha])
  · exact spanned (fun _ => trivial) (by simp [Form.map, ht, hn])

theorem whileStatement_follows (scope : JumpScope) :
    Follows .eats Clear bare (g.whileStatement scope) (g'.whileStatement scope) c :=
  .start fun _ _ => .expecting (by simp) fun _ => (parenthesized_follows hg).eats_bind fun _ _ _ ht =>
    (hg.statement _ _).eats_bind_holds fun _ _ _ hn =>
      spanned (fun _ => trivial) (by simp [Form.map, ht, hn])

theorem doWhileStatement_follows (scope : JumpScope) :
    Follows .eats Clear bare (g.doWhileStatement scope) (g'.doWhileStatement scope) c :=
  .start fun _ _ => .expecting (by simp) fun _ => (hg.statement _ _).eats_bind_holds fun _ _ _ hn =>
    .expecting (by simp) fun _ => (parenthesized_follows hg).eats_bind fun _ _ _ ht =>
      terminated (by simp [Form.map, ht, hn])

theorem forInRest_follows {start start' : Nat} {left left' : Node} (hl : left'.bare = left.bare)
    (scope : JumpScope) :
    Follows .eats Clear bare (g.forInRest start left scope) (g'.forInRest start' left' scope) c :=
  (hg.expression _ _ _).eats_bind fun _ _ _ hr => .expecting (by simp) fun _ =>
    (hg.statement _ _).eats_bind_holds fun _ _ _ hn =>
      spanned (fun _ => trivial) (by simp [Form.map, hl, hr, hn])

theorem headPart_follows (closing : Operator) :
    Follows .holds Clear (Option.map bare) (g.headPart closing) (g'.headPart closing) c :=
  .check_ite_pins trivial (fun _ => .pure trivial rfl) fun _ => .of_eats
    ((hg.expression _ _ _).map (fun h => congrArg some h) (by simp))

theorem forRest_follows {start start' : Nat} {init init' : Option Node}
    (hi : init'.map bare = init.map bare) (scope : JumpScope) :
    Follows .eats Clear bare (g.forRest start init scope) (g'.forRest start' init' scope) c :=
  .expecting (by simp) fun _ => .of_eats <| (headPart_follows hg _).holds_bind trivial fun _ _ _ ht =>
    .expecting (by simp) fun _ => .of_eats <| (headPart_follows hg _).holds_bind trivial fun _ _ _ hu =>
      .expecting (by simp) fun _ => (hg.statement _ _).eats_bind_holds fun _ _ _ hn =>
        spanned (fun _ => trivial) (by simp [Form.map, hi, ht, hu, hn])

/-! ### Loops over properties -/

section loopVariable

omit hg

-- Does a loop over properties declare its variable here?
def startsLoopVariable (c : Cursor) : Bool :=
  (declarationKind? c.current).isSome && c.advance.current.kind == .identifier &&
    c.advance.advance.current.kind == .keyword .inWord

-- The declaration of one name, and the word behind it.
def loopVariable : Rule (Option Node) := do
  let first ← advance
  match declarationKind? first with
  | none => unexpected
  | some kind =>
    let id ← bindingIdentifier
    discard <| expect (.keyword .inWord)
    return some (.mk ⟨first.span.start, id.span.stop⟩
      (.variableDeclaration [.mk id.span (.variableDeclarator id none)] kind))

theorem bindingIdentifier_run (hk : c.current.kind = .identifier) :
    bindingIdentifier.run c = .ok (identifierOf c.current, c.advance) :=
  Follows.run_bind_of_ok (Follows.expect_run hk)

theorem loopVariable_run {kind : VariableKind} (hd : declarationKind? c.current = some kind)
    (hi : c.advance.current.kind = .identifier)
    (hw : c.advance.advance.current.kind = .keyword .inWord) :
    loopVariable.run c =
      let id := identifierOf c.advance.current
      .ok (some (.mk ⟨c.current.span.start, id.span.stop⟩
        (.variableDeclaration [.mk id.span (.variableDeclarator id none)] kind)),
        c.advance.advance.advance) := by
  have hadvance : advance.run c = .ok (c.current, c.advance) := rfl
  rw [loopVariable, Follows.run_bind_of_ok hadvance, hd,
    Follows.run_bind_of_ok (bindingIdentifier_run hi),
    Follows.run_bind_of_ok (Follows.expect_skip_run hw)]
  rfl

theorem loopVariable?_run (c : Cursor) :
    loopVariable?.run c = if startsLoopVariable c then loopVariable.run c else .ok (none, c) := by
  have hget : (get : Rule Cursor).run c = .ok (c, c) := rfl
  have hadvance : advance.run c = .ok (c.current, c.advance) := rfl
  have hcheck : (check .identifier).run c.advance =
      .ok (c.advance.current.kind == .identifier, c.advance) := rfl
  rw [loopVariable?, Follows.run_bind_of_ok hget, Follows.run_bind_of_ok hadvance,
    Follows.run_bind_of_ok hcheck, startsLoopVariable]
  cases hd : declarationKind? c.current
  case none => rfl
  case some kind =>
    cases hi : c.advance.current.kind == .identifier
    case false => rfl
    case true =>
      have hi := beq_iff_eq.mp hi
      dsimp only
      rw [Follows.run_bind_of_ok (bindingIdentifier_run hi)]
      cases hw : c.advance.advance.current.kind == .keyword .inWord
      case false =>
        rw [Follows.run_bind_of_ok (Follows.accept_run_of_ne (by simpa using hw))]
        rfl
      case true =>
        have hw := beq_iff_eq.mp hw
        rw [Follows.run_bind_of_ok (Follows.accept_run_of_eq hw), loopVariable_run hd hi hw]
        rfl

theorem startsLoopVariable_iff : startsLoopVariable c ↔
    (declarationKind? c.current).isSome ∧ c.advance.current.kind = .identifier ∧
      c.advance.advance.current.kind = .keyword .inWord := by
  simp [startsLoopVariable, and_assoc]

theorem kind_ne_of_declarationKind? {t : Token} (h : (declarationKind? t).isSome) :
    t.kind ≠ .endOfInput := by
  intro hk
  simp [declarationKind?, hk, TokenKind.keyword?] at h

theorem loopVariable_follows : Follows .eats Loose (Option.map bare) loopVariable loopVariable c := by
  refine .advance_bind (fun hk c' x h => ?_) fun _ => ?_
  · simp only [declarationKind?, hk, TokenKind.keyword?] at h
    cases h
  · split
    · exact .unexpected
    · exact bindingIdentifier_follows.eats_bind fun _ _ _ hid => .expecting (by simp) fun _ =>
        .pure trivial (by simp [bare_mk, Form.map, hid])

theorem loopVariable?_follows :
    Follows .holds Clear (Option.map bare) loopVariable? loopVariable? c := by
  refine .peek_ite (z := pure none) (loopVariable?_run c) (fun _ => loopVariable?_run _) trivial ?_ ?_
    (fun _ => ?_) (.pure trivial rfl)
  · intro semicolon places d hs hc hl hd
    have ⟨hk, hi, hw⟩ := startsLoopVariable_iff.mp hd
    rw [hl.current] at hk
    have hl := (hl.advance hs hc (kind_ne_of_declarationKind? hk)).level_of_ne (by simp [hi])
    rw [hl.current] at hi
    have hl := (hl.advance hs hc.advance (by simp [hi])).level_of_ne (by simp [hw])
    rw [hl.current] at hw
    exact startsLoopVariable_iff.mpr ⟨hk, hi, hw⟩
  · intro semicolon places d a c' hs hc hl hrun hset hb
    -- The name and the word behind it are consumed too, so no semicolon is written before them.
    have ⟨hk, hi, hw⟩ := startsLoopVariable_iff.mp hb
    have ⟨kind, hd⟩ := Option.isSome_iff_exists.mp hk
    rw [loopVariable_run hd hi hw] at hrun
    cases hrun
    have hword := hc.advance.advance.eats_advance (by simp [hw])
    have hname := (hc.advance.eats_advance (by simp [hi])).trans hword.reaches
    rw [← hl.current] at hk
    have hl := (hl.advance hs hc (kind_ne_of_declarationKind? (hl.current ▸ hk))).level
      (hname.isClear hset)
    rw [← hl.current] at hi
    have hl := (hl.advance hs hc.advance (by simp [← hl.current, hi])).level (hword.isClear hset)
    rw [← hl.current] at hw
    exact startsLoopVariable_iff.mpr ⟨hk, hi, hw⟩
  · exact loopVariable_follows.of_eats.of_loose

end loopVariable

theorem forStatement_follows (scope : JumpScope) :
    Follows .eats Clear bare (g.forStatement scope) (g'.forStatement scope) c := by
  refine .start fun start start' => .expecting (by simp) fun _ => .expecting (by simp) fun c => .of_eats ?_
  refine .check_ite_pins trivial (fun _ => forRest_follows hg rfl _) fun _ => .current_pins trivial ?_
  split
  · refine loopVariable?_follows.holds_bind trivial fun left left' _ hl => ?_
    cases left <;> cases left'
    case some.some => exact forInRest_follows hg (Option.some.inj hl) _
    case none.none =>
      exact (variableDeclaration_follows hg _).eats_bind fun _ _ _ hn =>
        (forRest_follows hg (map_some_of_bare hn) _).of_eats
    case none.some | some.none => cases hl
  · refine (hg.expression _ _ _).eats_bind fun n n' _ hn => ?_
    refine .accept_ite (by simp) (fun _ => ?_) fun _ =>
      (forRest_follows hg (map_some_of_bare hn) _).of_eats
    rw [isAssignable_of_bare hn]
    split
    · exact (forInRest_follows hg hn _).of_eats
    · exact .fails fun _ h => by cases h

/-! ### Switches -/

theorem caseTest_follows (hasDefault : Bool) :
    Follows .eats Loose (Prod.map (Option.map bare) id) (g.caseTest hasDefault)
      (g'.caseTest hasDefault) c := by
  refine .accept_ite (by simp) (fun _ => ?_) fun _ => ?_
  · exact (hg.expression _ _ _).eats_bind fun _ _ _ hn => .pure trivial (by simp [hn])
  · refine .read_pins (x := check _) (fun _ => rfl) (fun h => congrArg (·.kind == _) h.current) trivial ?_
    split
    case isTrue hk => exact .skip_bind (by simp_all) fun _ => .pure trivial rfl
    case isFalse => exact .unexpected

theorem caseBody_follows (scope : JumpScope) :
    Follows .holds Clear (List.map bare) (g.caseBody scope) (g'.caseBody scope) c := by
  refine Follows.loop (m := .holds) (K := Clear) (e := List.map bare) (fun ns ns' c hns => ?_)
    (fun _ _ => trivial) hg.limit rfl
  refine .current_pins trivial ?_
  dsimp only
  split
  · exact .pure trivial (by simp [Round.map, hns])
  · exact .isAtEnd_ite_pins trivial .unexpected ((hg.statement _ _).eats_bind_holds fun _ _ _ hn =>
      .pure trivial (by simp [Round.map, hns, hn]))

theorem switchStatement_follows (scope : JumpScope) :
    Follows .eats Clear bare (g.switchStatement scope) (g'.switchStatement scope) c := by
  refine .start fun _ _ => .expecting (by simp) fun _ => (parenthesized_follows hg).eats_bind
    fun _ _ _ hd => .expecting (by simp) fun _ => ?_
  refine Follows.eats_bind (e := List.map bare) (Follows.loop (m := .eats) (K := Round.IsAgain)
    (e := Prod.map (List.map bare) id) (fun r r' c hr => ?_) (fun _ _ => trivial) hg.limit rfl)
    fun _ _ _ hcases => spanned (fun _ => trivial) (by simp [Form.map, hd, hcases])
  obtain ⟨cases, hasDefault⟩ := r
  obtain ⟨cases', hasDefault'⟩ := r'
  obtain ⟨hc, rfl⟩ := Prod.mk.inj hr
  refine .accept_ite (by simp) (fun _ => .pure trivial (by simp [Round.map, hc])) fun _ => ?_
  refine .start fun _ _ => (caseTest_follows hg _).eats_bind fun t t' _ h => ?_
  obtain ⟨test, isDefault⟩ := t
  obtain ⟨test', isDefault'⟩ := t'
  obtain ⟨ht, rfl⟩ := Prod.mk.inj h
  refine .expecting (by simp) fun _ => .of_holds <| (caseBody_follows hg _).holds_bind trivial
    fun _ _ _ hb => .spanFrom fun _ _ => .pure trivial ?_
  simp [Round.map, hc, bare_mk, Form.map, ht, hb]

/-! ### Jumps -/

-- Does a label stand behind the word of a jump?
def startsJumpLabel (c : Cursor) : Bool :=
  c.current.kind == .identifier && !c.isAfterLineBreak

def labelIf (isLabel : Bool) : Rule (Option Node) :=
  if isLabel then some <$> bindingIdentifier else pure none

omit hg in
theorem jumpLabel_follows : Follows .stays Loose (Option.map bare) jumpLabel jumpLabel c := by
  have hrun c : jumpLabel.run c = (labelIf (startsJumpLabel c)).run c := rfl
  refine Follows.seen (hrun c) hrun
    (fun h => by simp [startsJumpLabel, h.current, h.isAfterLineBreak]) ?_
  have hnone : Follows .stays Loose (Option.map bare) (labelIf false) (labelIf false) c :=
    .pure trivial rfl
  cases startsJumpLabel c
  case false =>
    have hsemi {d : Cursor} (hd : d.current.IsSemicolon) : startsJumpLabel d = false := by
      simp [startsJumpLabel, hd.kind]
    exact .inr ⟨hnone, fun hd => hsemi hd ▸ hnone⟩
  case true => exact .inl (bindingIdentifier_follows.map (fun h => map_some_of_bare h) (by simp))

omit hg in
theorem breakStatement_follows (scope : JumpScope) (hk : c.current.kind ≠ .endOfInput) :
    Follows .eats Clear bare (breakStatement scope) (breakStatement scope) c := by
  unfold breakStatement
  split
  · exact .fails fun _ h => by cases h
  · exact .start fun _ _ => .skip_bind hk fun _ => jumpLabel_follows.stays_bind fun _ _ _ hl =>
      terminated (by simp [Form.map, hl])

omit hg in
theorem continueStatement_follows (scope : JumpScope) (hk : c.current.kind ≠ .endOfInput) :
    Follows .eats Clear bare (continueStatement scope) (continueStatement scope) c := by
  unfold continueStatement
  split
  · exact .fails fun _ h => by cases h
  · exact .start fun _ _ => .skip_bind hk fun _ => jumpLabel_follows.stays_bind fun _ _ _ hl =>
      terminated (by simp [Form.map, hl])

-- Is nothing returned here?
def returnsNothing (c : Cursor) : Bool :=
  c.current.kind == .endOfInput || c.current.kind == .operator .semicolon ||
    c.current.kind == .operator .rightBrace || c.isAfterLineBreak

def returned (g : Grammar) (nothing : Bool) : Rule (Option Node) :=
  if nothing then pure none else some <$> g.expression true true

omit hg in
theorem returnArgument_run (g : Grammar) (c : Cursor) :
    g.returnArgument.run c = (g.returned (returnsNothing c)).run c := by
  rw [returnArgument, Follows.run_read (x := current) fun _ => rfl, returned, returnsNothing]
  dsimp only
  split
  case isTrue h =>
    rw [h]
    rfl
  case isFalse h =>
    rw [Bool.eq_false_iff.mpr h]
    rfl

theorem returnArgument_follows :
    Follows .stays Loose (Option.map bare) g.returnArgument g'.returnArgument c := by
  refine Follows.seen (s := returnsNothing) (returnArgument_run g c) (returnArgument_run g')
    (fun h => by simp [returnsNothing, h.current, h.isAfterLineBreak]) ?_
  have hnone : Follows .stays Loose (Option.map bare) (g.returned true) (g'.returned true) c :=
    .pure trivial rfl
  cases returnsNothing c
  case false => exact .inl ((hg.expression _ _ _).map (fun h => map_some_of_bare h) (by simp))
  case true => exact .inr ⟨hnone, fun hd => by simpa [returnsNothing, hd.kind] using hnone⟩

theorem returnStatement_follows (scope : JumpScope) (hk : c.current.kind ≠ .endOfInput) :
    Follows .eats Clear bare (g.returnStatement scope) (g'.returnStatement scope) c := by
  unfold returnStatement
  split
  · exact .fails fun _ h => by cases h
  · exact .start fun _ _ => .skip_bind hk fun _ => (returnArgument_follows hg).stays_bind
      fun _ _ _ ha => terminated (by simp [Form.map, ha])

theorem throwStatement_follows : Follows .eats Clear bare g.throwStatement g'.throwStatement c :=
  .start fun _ _ => .expecting (by simp) fun _ => (hg.expression _ _ _).eats_bind fun _ _ _ hn =>
    terminated (by simp [Form.map, hn])

/-! ### Other statements -/

theorem catchClause_follows (scope : JumpScope) (hk : c.current.kind ≠ .endOfInput) :
    Follows .eats Loose bare (g.catchClause scope) (g'.catchClause scope) c :=
  .start fun _ _ => .skip_bind hk fun _ => .expecting (by simp) fun _ =>
    bindingIdentifier_follows.eats_bind fun _ _ _ hp => .expecting (by simp) fun _ =>
      (block_follows hg _).eats_bind fun _ _ _ hb =>
        spanned (fun _ => trivial) (by simp [Form.map, hp, hb])

theorem tryStatement_follows (scope : JumpScope) :
    Follows .eats Clear bare (g.tryStatement scope) (g'.tryStatement scope) c := by
  refine .start fun start start' => .expecting (by simp) fun _ => (block_follows hg _).eats_bind
    fun block block' _ hb => ?_
  have last {handler handler' finalizer finalizer' : Option Node} {c}
      (hh : handler'.map bare = handler.map bare) (hf : finalizer'.map bare = finalizer.map bare) :
      Follows .ends Clear bare
        (do
          if handler.isNone && finalizer.isNone then unexpected
          else return .mk (← spanFrom start) (.tryStatement block handler finalizer))
        (do
          if handler'.isNone && finalizer'.isNone then unexpected
          else return .mk (← spanFrom start') (.tryStatement block' handler' finalizer')) c := by
    rw [isNone_of_map_bare hh, isNone_of_map_bare hf]
    split
    · exact .unexpected
    · exact spanned (fun _ => trivial) (by simp [Form.map, hb, hh, hf])
  have rest {handler handler' : Option Node} {c} (hh : handler'.map bare = handler.map bare) :
      Follows .ends Clear bare
        (do
          let finalizer ←
            if ← accept (.keyword .finallyWord) then some <$> g.block scope else pure none
          if handler.isNone && finalizer.isNone then unexpected
          else return .mk (← spanFrom start) (.tryStatement block handler finalizer))
        (do
          let finalizer ←
            if ← accept (.keyword .finallyWord) then some <$> g'.block scope else pure none
          if handler'.isNone && finalizer.isNone then unexpected
          else return .mk (← spanFrom start') (.tryStatement block' handler' finalizer)) c := by
    refine .accept_ite (by simp) (fun _ => ?_) fun _ => last hh rfl
    exact Follows.map_bind ((block_follows hg _).eats_bind fun _ _ _ hf =>
      last hh (map_some_of_bare hf))
  refine .check_ite (by simp) (fun hk => ?_) fun _ => rest rfl
  exact Follows.map_bind ((catchClause_follows hg _ (by simp [hk])).eats_bind fun _ _ _ hh =>
    rest (map_some_of_bare hh))

theorem withStatement_follows (scope : JumpScope) :
    Follows .eats Clear bare (g.withStatement scope) (g'.withStatement scope) c :=
  .start fun _ _ => .expecting (by simp) fun _ => (parenthesized_follows hg).eats_bind fun _ _ _ ho =>
    (hg.statement _ _).eats_bind_holds fun _ _ _ hn =>
      spanned (fun _ => trivial) (by simp [Form.map, ho, hn])

omit hg in
theorem debuggerStatement_follows : Follows .eats Clear bare debuggerStatement debuggerStatement c :=
  .start fun _ _ => .expecting (by simp) fun _ => terminated rfl

theorem expressionStatement_follows :
    Follows .eats Clear bare g.expressionStatement g'.expressionStatement c :=
  .start fun _ _ => (hg.expression _ _ _).eats_bind fun _ _ _ hn =>
    terminated (by simp [Form.map, hn])

/-! ### Labels -/

section labels

-- A labeled statement, whole and from the colon on.

def labeledFrom (g : Grammar) (scope : JumpScope) (start : Nat) (label : Node) : Rule Node := do
  discard <| expect (.operator .colon)
  let body ← g.statement scope
  return .mk (← spanFrom start) (.labeledStatement label body)

def labeledStatement (g : Grammar) (scope : JumpScope) : Rule Node := do
  let start ← start
  let label ← bindingIdentifier
  g.labeledFrom scope start label

def startsLabel (c : Cursor) : Bool :=
  c.advance.current.kind == .operator .colon

omit hg in
theorem labeledStatement_run (scope : JumpScope) (hk : c.current.kind = .identifier) :
    (g.labeledStatement scope).run c =
      (g.labeledFrom scope c.current.span.start (identifierOf c.current)).run c.advance := by
  rw [labeledStatement, Follows.run_read (x := Rule.start) fun _ => rfl,
    Follows.run_bind_of_ok (bindingIdentifier_run hk)]

omit hg in
theorem namedStatement_run (scope : JumpScope) (hk : c.current.kind = .identifier) :
    (g.namedStatement scope).run c =
      if startsLabel c then (g.labeledStatement scope).run c else g.expressionStatement.run c := by
  rw [labeledStatement_run scope hk, namedStatement, Follows.run_read (x := get) fun _ => rfl,
    Follows.run_read (x := Rule.start) fun _ => rfl,
    Follows.run_bind_of_ok (bindingIdentifier_run hk), startsLabel]
  split
  case isTrue h =>
    have h := beq_iff_eq.mp h
    rw [Follows.run_bind_of_ok (Follows.accept_run_of_eq h), labeledFrom,
      Follows.run_bind_of_ok (Follows.expect_skip_run h)]
    rfl
  case isFalse h =>
    rw [Follows.run_bind_of_ok (Follows.accept_run_of_ne (by simpa using h))]
    rfl

theorem labeledFrom_follows (scope : JumpScope) (start start' : Nat) {label label' : Node}
    (hl : label'.bare = label.bare) :
    Follows .eats Clear bare (g.labeledFrom scope start label) (g'.labeledFrom scope start' label') c :=
  .expecting (by simp) fun _ => .of_holds <| (hg.statement _ _).eats_bind_holds fun _ _ _ hn =>
    spanned (fun _ => trivial) (by simp [Form.map, hl, hn])

theorem namedStatement_follows (scope : JumpScope) (hk : c.current.kind = .identifier) :
    Follows .eats Clear bare (g.namedStatement scope) (g'.namedStatement scope) c := by
  have hne : c.current.kind ≠ .endOfInput := by simp [hk]
  refine .peek_ite (namedStatement_run scope hk)
    (fun hl => namedStatement_run scope (hl.current ▸ hk)) trivial ?_ ?_ (fun _ => ?_)
    (expressionStatement_follows hg)
  · intro semicolon places d hs hc hl hd
    have hcolon := beq_iff_eq.mp hd
    have hl := (hl.advance hs hc hne).level_of_ne (by simp [hcolon])
    simpa [startsLabel, hl.current] using hd
  · intro semicolon places d a c' hs hc hl hrun hset hb
    -- The colon is consumed too, so no semicolon is written before it.
    rw [labeledStatement_run scope hk] at hrun
    have h := labeledFrom_follows hg scope _ 0 rfl hc.advance hrun
    have hl := (hl.advance hs hc hne).level (Cursor.Eats.isClear h.moves hset)
    simpa [startsLabel, hl.current] using hb
  · exact .start fun _ _ => bindingIdentifier_follows.eats_bind fun _ _ _ hl =>
      (labeledFrom_follows hg scope _ _ hl).of_eats

end labels

theorem statementRule_follows (scope : JumpScope) :
    Follows .eats Clear bare (g.statementRule scope) (g'.statementRule scope) c := by
  refine .current_pins trivial ?_
  split
  case h_1 | h_2 | h_3 => exact declarationStatement_follows hg
  case h_4 => exact ifStatement_follows hg _
  case h_5 => exact switchStatement_follows hg _
  case h_6 => exact whileStatement_follows hg _
  case h_7 => exact forStatement_follows hg _
  case h_8 => exact doWhileStatement_follows hg _
  case h_9 hk => exact breakStatement_follows _ (by simp [hk])
  case h_10 hk => exact continueStatement_follows _ (by simp [hk])
  case h_11 =>
    exact ((function_follows hg (by simp)).map FunctionParts.toDeclaration_of_bare (by simp)).of_loose
  case h_12 hk => exact returnStatement_follows hg _ (by simp [hk])
  case h_13 => exact throwStatement_follows hg
  case h_14 => exact tryStatement_follows hg _
  case h_15 => exact withStatement_follows hg _
  case h_16 => exact debuggerStatement_follows
  case h_17 => exact (block_follows hg _).of_loose
  case h_18 hk =>
    exact (Follows.advance (by simp [hk])).eats_bind fun _ _ _ _ => .pure trivial (by simp [bare_mk])
  case h_19 hk =>
    exact asyncFunction_follows hg hk FunctionParts.toDeclaration_of_bare (namedStatement_follows hg _ hk)
  case h_20 => exact expressionStatement_follows hg

theorem statements_follows (scope : JumpScope) :
    Follows .holds Clear (List.map bare) (g.statements scope) (g'.statements scope) c := by
  refine Follows.loop (m := .holds) (K := Clear) (e := List.map bare) (fun ns ns' c hns => ?_)
    (fun _ _ => trivial) hg.limit rfl
  refine .isAtEnd_ite_pins trivial (.pure trivial (by simp [Round.map, hns])) ?_
  exact (hg.statement _ _).eats_bind_holds fun _ _ _ hn =>
    .pure trivial (by simp [Round.map, hns, hn])

end ScriptTree.Grammar
