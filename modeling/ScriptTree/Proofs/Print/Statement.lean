import ScriptTree.Proofs.Print.Operations

/-!
What is written for a statement is read as this statement, whatever stands behind it that may.

Behind a statement, as before it, an operand may stand. So the statements of a body need to know nothing
of each other, and of what was written before only that it left room for them.
-/

namespace ScriptTree

open Character Writer Scanner Node

namespace Writer.Spells

variable {w : Writer} {ss : List Sign} {q : Pen} {heads : List Bool}

theorem newline_waits (h : w.Spells ss q) (hq : q.Waits heads) :
    ∃ q', w.newline.Spells ss q' ∧ q'.Waits heads := by
  obtain ⟨q', hw, rfl | rfl⟩ := h.newline
  · exact ⟨_, hw, hq⟩
  · exact ⟨_, hw, hq.turned⟩

theorem endStatement (h : w.Spells ss q) (hq : q.heads = heads) :
    ∃ b q', w.endStatement.Spells (ss ++ [.op .semicolon b]) q' ∧ q'.Waits heads := by
  have hmark : (w.write ";").Spells _ _ := h.mark .semicolon ⟨rfl, rfl⟩
  rw [hq] at hmark
  obtain ⟨q', hw, hq'⟩ := hmark.newline_waits (Pen.behind_waits rfl)
  exact ⟨_, q', hw, hq'⟩

theorem openBlock (h : w.Spells ss q) :
    w.openBlock.Spells (ss ++ [.op .leftBrace q.startsLine]) (.behind .leftBrace q.heads) :=
  (h.mark .leftBrace ⟨rfl, rfl⟩).indent

theorem closeBlock (h : w.Spells ss q) (hq : q.heads = heads) (hasContent : Bool) :
    ∃ b, (w.closeBlock hasContent).Spells (ss ++ [.op .rightBrace b]) (.behind .rightBrace heads) := by
  subst hq
  cases hasContent
  case false => exact ⟨_, h.dedent.mark .rightBrace ⟨rfl, rfl⟩⟩
  case true =>
    obtain ⟨q', hw, rfl | rfl⟩ := h.dedent.newline
    · exact ⟨_, hw.mark .rightBrace ⟨rfl, rfl⟩⟩
    · exact ⟨_, hw.mark .rightBrace ⟨rfl, rfl⟩⟩

end Writer.Spells

def EmitsStatement (scope : JumpScope) (n : Node) : Prop :=
  ∀ isBeforeIn heads, Emits (n.emit { isBeforeIn }) heads fun ts _ q' => q'.Waits heads ∧ IsStated scope n ts

section

variable {scope : JumpScope} {n body : Node} {ns : List Node} {heads : List Bool} {isBeforeIn : Bool}
variable {R : Node → List Sign → Prop} {span : Span}

/-! ### Blocks -/

-- Statements, or whatever else stands one after the other.
theorem emitStatements_emits (h : ∀ n ∈ ns, Emits (n.emit { isBeforeIn }) heads fun ts _ q' =>
    q'.Waits heads ∧ R n ts) : Emits (emitStatements isBeforeIn ns) heads fun us _ q' =>
      q'.Waits heads ∧ Each R ns us := by
  induction ns
  case nil => exact fun w ss q hw hq => ⟨[], q, by simpa [emitStatements] using hw, hq, rfl⟩
  case cons n ns ih =>
    obtain ⟨hn, h⟩ := List.forall_mem_cons.mp h
    intro w ss q hw hq
    obtain ⟨q₁, hw₁, hq₁⟩ := hw.newline_waits hq
    obtain ⟨ts, q₂, hw₂, hq₂, hts⟩ := hn hw₁ hq₁
    obtain ⟨us, q₃, hw₃, hq₃, hus⟩ := ih h hw₂ hq₂
    exact ⟨ts ++ us, q₃, by simpa [emitStatements] using hw₃, hq₃, ts, us, rfl, hts, hus⟩

theorem block_emits (h : ∀ n ∈ ns, EmitsStatement scope n) (hns : Separate ns) :
    EmitsBlock scope (.mk span (.blockStatement ns)) := by
  intro isBeforeIn w ss q hw
  obtain ⟨us, q₁, hw₁, hq₁, hus⟩ := emitStatements_emits (fun n hn => h n hn isBeforeIn q.heads)
    hw.openBlock (Pen.behind_waits rfl)
  obtain ⟨b, hw₂⟩ := hw₁.closeBlock hq₁.heads (!ns.isEmpty)
  rw [emit_eq_of_not_encloses (by cases isBeforeIn <;> rfl), emitForm]
  exact ⟨_, by simpa using hw₂, isBlock_of ⟨hus, hns⟩⟩

theorem EmitsBlock.statement (h : EmitsBlock scope n) : EmitsStatement scope n := by
  intro isBeforeIn heads w ss q hw hq
  obtain ⟨us, hw', hus⟩ := h isBeforeIn hw
  exact ⟨_, _, hw', hq.heads ▸ Pen.behind_waits rfl, isStated_block hus⟩

/-! ### Expressions and declarations -/

theorem expressionStatement_emits (h : EmitsExpression n) :
    EmitsStatement scope (.mk span (.expressionStatement n)) := by
  intro isBeforeIn heads w ss q hw hq
  obtain ⟨ts, q₁, hw₁, hts⟩ :=
    h { isEnclosed := w.options.encloses || n.startsLikeStatement, isBeforeIn } heads hw hq
  obtain ⟨b, q₂, hw₂, hq₂⟩ := hw₁.endStatement hts.rests.heads
  rw [emit_eq_of_not_encloses (by cases isBeforeIn <;> rfl), emitForm]
  refine ⟨_, q₂, by simpa using hw₂, hq₂, isStated_expression (hts.reads true (.inl rfl)).read
    (hts.plainly ?_)⟩
  cases n.startsLikeStatement <;> simp

theorem emptyStatement_emits : EmitsStatement scope (.mk span .emptyStatement) := by
  intro isBeforeIn heads w ss q hw hq
  obtain ⟨b, q₁, hw₁, hq₁⟩ := hw.endStatement hq.heads
  rw [emit_eq_of_not_encloses (by cases isBeforeIn <;> rfl), emitForm]
  exact ⟨_, q₁, hw₁, hq₁, isStated_empty⟩

theorem debuggerStatement_emits : EmitsStatement scope (.mk span .debuggerStatement) := by
  intro isBeforeIn heads w ss q hw hq
  have hword : (w.write "debugger").Spells _ _ := hw.keyword hq .debuggerWord
  obtain ⟨b, q₁, hw₁, hq₁⟩ := hword.endStatement rfl
  rw [emit_eq_of_not_encloses (by cases isBeforeIn <;> rfl), emitForm]
  exact ⟨_, q₁, by simpa using hw₁, hq₁, isStated_debugger⟩

theorem throwStatement_emits (h : EmitsExpression n) :
    EmitsStatement scope (.mk span (.throwStatement n)) := by
  intro isBeforeIn heads w ss q hw hq
  have hword : (w.write "throw").optionalSpace.Spells _ _ := (hw.keyword hq .throwWord).optionalSpace
  obtain ⟨ts, q₁, hw₁, hheads, hts, -⟩ := h.whole isBeforeIn hword
    (Pen.behindKeyword_waits (k := .throwWord) rfl)
  obtain ⟨b, q₂, hw₂, hq₂⟩ := hw₁.endStatement hheads
  rw [emit_eq_of_not_encloses (by cases isBeforeIn <;> rfl), emitForm]
  exact ⟨_, q₂, by simpa using hw₂, hq₂, isStated_throw hts⟩

def EmitsDeclarator (kind : VariableKind) (n : Node) : Prop :=
  ∀ (isBeforeIn : Bool) heads (joinsIn : Bool), joinsIn ∨ isBeforeIn → Emits (n.emit { isBeforeIn }) heads
    fun ts _ q' => q'.heads = heads ∧ IsDeclarator kind joinsIn n ts

theorem declarator_emits {kind : VariableKind} {id : Node} {init : Option Node}
    (hconstant : kind = .constant → init.isSome) (hid : IsPrintableName id)
    (hinit : ∀ n ∈ init, EmitsExpression n) :
    EmitsDeclarator kind (.mk span (.variableDeclarator id init)) := by
  intro isBeforeIn heads joinsIn hj w ss q hw hq
  obtain ⟨ts, q₁, hw₁, hheads, hts, -, -, hrests⟩ := name_emits hid isBeforeIn hw hq
  rw [emit_eq_of_not_encloses (by cases isBeforeIn <;> rfl), emitForm]
  cases init
  case none =>
    exact ⟨ts, q₁, hw₁, hheads, span, id, none, ts, [], rfl, by simp, hts, hconstant, rfl⟩
  case some n =>
    have hassign : (infixOperator "=" _).Spells _ _ :=
      hw₁.infixOperator hrests .assign rfl rfl (by decide) (by simp)
    obtain ⟨us, q₂, hw₂, hus⟩ := hinit n rfl { least := Precedence.assignment, isBeforeIn } heads hassign
      (Pen.behind_waits rfl)
    exact ⟨_, q₂, by simpa [emitOption] using hw₂, hus.rests.heads, span, id, some n, ts, _, rfl, rfl, hts, hconstant,
      _, us, rfl, (hus.reads joinsIn hj).item (Nat.le_refl _)⟩

-- A declaration without its terminator.
theorem declarations_emits {kind : VariableKind} (hne : ns ≠ []) (hns : ∀ n ∈ ns, EmitsDeclarator kind n)
    {joinsIn : Bool} (hj : joinsIn ∨ isBeforeIn) :
    Emits (fun w => emitItems { isBeforeIn } true ns (w.write kind.spelling).space) heads fun ts _ q' =>
      q'.heads = heads ∧ IsDeclaration joinsIn (.mk span (.variableDeclaration ns kind)) ts := by
  intro w ss q hw hq
  have hspelling : kind.toKeyword.spelling = kind.spelling := by cases kind <;> rfl
  have hword := (hw.keyword hq kind.toKeyword).space
  obtain ⟨us, q₁, hw₁, hheads, hus⟩ := emitItems_emits
    (fun n hn => hns n hn isBeforeIn heads joinsIn hj) hword (Pen.behindKeyword_waits (by cases kind <;> rfl))
  obtain ⟨m, ms, rfl⟩ := List.exists_cons_of_ne_nil hne
  exact ⟨_, q₁, by simpa [hspelling] using hw₁, hheads, span, m, ms, kind, _, us, rfl, rfl, hus⟩

-- A declaration, as a statement and in the head of a loop.
structure EmitsDeclaration (n : Node) : Prop where
  statement : ∀ scope, EmitsStatement scope n
  loopStart : ∀ heads, Emits (n.emit { isBeforeIn := true, isHead := true }) heads fun ts _ q' =>
    q'.heads = heads ∧ IsDeclaration false n ts

theorem declaration_emits {kind : VariableKind} (hne : ns ≠ []) (hns : ∀ n ∈ ns, EmitsDeclarator kind n) :
    EmitsDeclaration (.mk span (.variableDeclaration ns kind)) where
  statement scope isBeforeIn heads w ss q hw hq := by
    obtain ⟨ts, q₁, hw₁, hheads, hts⟩ := declarations_emits hne hns (.inl rfl) hw hq
    obtain ⟨b, q₂, hw₂, hq₂⟩ := hw₁.endStatement hheads
    rw [emit_eq_of_not_encloses (by cases isBeforeIn <;> rfl), emitForm]
    exact ⟨_, q₂, by simpa using hw₂, hq₂, isStated_declaration hts⟩
  loopStart heads w ss q hw hq := by
    obtain ⟨ts, q₁, hw₁, hheads, hts⟩ := declarations_emits hne hns (.inr rfl) hw hq
    rw [emit_eq_of_not_encloses rfl, emitForm]
    exact ⟨ts, q₁, hw₁, hheads, hts⟩

theorem functionDeclaration_emits {id : Node} {params : List Node} {isAsync isGenerator : Bool}
    (hid : IsPrintableName id) (hparams : ∀ n ∈ params, IsPrintableName n)
    (hbody : EmitsBlock .functionBody body) :
    EmitsStatement scope (.mk span (.functionDeclaration (some id) params body { isAsync, isGenerator })) := by
  intro isBeforeIn heads w ss q hw hq
  have hid : ∀ n ∈ some id, IsPrintableName n := fun n hn => Option.some.inj hn ▸ hid
  obtain ⟨ts, q', hw', rfl, b, us, rfl, -, hus⟩ := function_emits { isAsync, isGenerator } isBeforeIn
    hid hparams hbody hw hq
  rw [emit_eq_of_not_encloses (by cases isBeforeIn <;> rfl), emitForm]
  exact ⟨_, _, hw', Pen.behind_waits rfl, isStated_function hus⟩

/-! ### Branches and loops -/

theorem ifStatement_emits {test consequent : Node} {alternate : Option Node}
    (hopen : alternate.isSome → ¬consequent.endsWithOpenIf) (htest : EmitsExpression test)
    (hconsequent : EmitsStatement scope consequent) (halternate : ∀ n ∈ alternate, EmitsStatement scope n) :
    EmitsStatement scope (.mk span (.ifStatement test consequent alternate)) := by
  intro isBeforeIn heads w ss q hw hq
  obtain ⟨ts, b, hw₁, hts⟩ := hw.head (k := .ifWord) hq
    ((htest.whole isBeforeIn).mono fun _ _ _ h => ⟨h.1, h.2.1⟩)
  obtain ⟨us, q₂, hw₂, hq₂, hus⟩ := hconsequent isBeforeIn heads hw₁ Pen.waits_behind_head
  have hbare : (alternate.isSome && consequent.endsWithOpenIf) = false := by
    cases h : alternate.isSome <;> simp_all
  rw [emit_eq_of_not_encloses (by cases isBeforeIn <;> rfl), emitForm, hbare]
  cases alternate
  case none =>
    have hnone : Maybe (IsElse scope) none [] := rfl
    exact ⟨_, q₂, by simpa [Keyword.spelling] using hw₂, hq₂, isStated_if hopen hts hus hnone⟩
  case some n =>
    have helse : (write "else" _).optionalSpace.Spells _ _ :=
      (hw₂.optionalSpace.keyword hq₂ .elseWord).optionalSpace
    obtain ⟨vs, q₃, hw₃, hq₃, hvs⟩ := halternate n rfl isBeforeIn heads helse
      (Pen.behindKeyword_waits (k := .elseWord) rfl)
    exact ⟨_, q₃, by simpa [emitOption, Keyword.spelling] using hw₃, hq₃, isStated_if hopen hts hus ⟨_, vs, rfl, hvs⟩⟩

theorem whileStatement_emits {test : Node} (htest : EmitsExpression test)
    (hbody : EmitsStatement scope.inLoop body) :
    EmitsStatement scope (.mk span (.whileStatement test body)) := by
  intro isBeforeIn heads w ss q hw hq
  obtain ⟨ts, b, hw₁, hts⟩ := hw.head (k := .whileWord) hq
    ((htest.whole isBeforeIn).mono fun _ _ _ h => ⟨h.1, h.2.1⟩)
  obtain ⟨us, q₂, hw₂, hq₂, hus⟩ := hbody isBeforeIn heads hw₁ Pen.waits_behind_head
  rw [emit_eq_of_not_encloses (by cases isBeforeIn <;> rfl), emitForm]
  exact ⟨_, q₂, by simpa [Keyword.spelling] using hw₂, hq₂, isStated_while hts hus⟩

theorem withStatement_emits {object : Node} (hobject : EmitsExpression object)
    (hbody : EmitsStatement scope body) :
    EmitsStatement scope (.mk span (.withStatement object body)) := by
  intro isBeforeIn heads w ss q hw hq
  obtain ⟨ts, b, hw₁, hts⟩ := hw.head (k := .withWord) hq
    ((hobject.whole isBeforeIn).mono fun _ _ _ h => ⟨h.1, h.2.1⟩)
  obtain ⟨us, q₂, hw₂, hq₂, hus⟩ := hbody isBeforeIn heads hw₁ Pen.waits_behind_head
  rw [emit_eq_of_not_encloses (by cases isBeforeIn <;> rfl), emitForm]
  exact ⟨_, q₂, by simpa [Keyword.spelling] using hw₂, hq₂, isStated_with hts hus⟩

theorem doWhileStatement_emits {test : Node} (hbody : EmitsStatement scope.inLoop body)
    (htest : EmitsExpression test) :
    EmitsStatement scope (.mk span (.doWhileStatement body test)) := by
  intro isBeforeIn heads w ss q hw hq
  have hword : (w.write "do").optionalSpace.Spells _ _ := (hw.keyword hq .doWord).optionalSpace
  obtain ⟨ts, q₁, hw₁, hq₁, hts⟩ := hbody isBeforeIn heads hword
    (Pen.behindKeyword_waits (k := .doWord) rfl)
  obtain ⟨us, b, hw₂, hus⟩ := hw₁.optionalSpace.head (k := .whileWord) hq₁
    ((htest.whole isBeforeIn).mono fun _ _ _ h => ⟨h.1, h.2.1⟩)
  obtain ⟨b', q₃, hw₃, hq₃⟩ := hw₂.endStatement rfl
  rw [emit_eq_of_not_encloses (by cases isBeforeIn <;> rfl), emitForm]
  exact ⟨_, q₃, by simpa [Keyword.spelling] using hw₃, hq₃, isStated_doWhile hts hus⟩

-- The first part of the head of a loop.
def EmitsLoopStart (n : Node) : Prop :=
  ∀ heads, Emits (n.emit { isBeforeIn := true, isHead := true }) heads fun ts _ q' =>
    q'.heads = heads ∧ IsLoopStart (some n) ts

theorem EmitsDeclaration.loopStart_emits (h : EmitsDeclaration n) : EmitsLoopStart n :=
  fun heads => (h.loopStart heads).mono fun _ _ _ h => ⟨h.1, .declaration h.2⟩

theorem EmitsExpression.loopStart_emits (h : EmitsExpression n) : EmitsLoopStart n :=
  fun heads => (h _ heads).mono fun _ _ _ h => ⟨h.rests.heads, .expression (h.reads false (.inr rfl)).read⟩

-- A part that may be missing.
theorem part_spells {part : Option Node} {p : Place} {w : Writer} {ss : List Sign} {q : Pen} {P : Pen → Prop}
    (h : ∀ n ∈ part, Emits (n.emit p) heads fun ts _ q' => P q' ∧ R n ts) (hw : w.Spells ss q)
    (hq : q.Waits heads) (hp : P q) :
    ∃ us q', (if part.isSome then emitOption p part w.optionalSpace else w).Spells (ss ++ us) q' ∧
      P q' ∧ Maybe R part us := by
  cases part
  case none => exact ⟨[], q, by simpa using hw, hp, rfl⟩
  case some n =>
    obtain ⟨us, q', hw', hp, hus⟩ := h n rfl hw.optionalSpace hq
    exact ⟨us, q', by simpa [emitOption] using hw', hp, hus⟩

theorem forStatement_emits {init test update : Option Node} (hinit : ∀ n ∈ init, EmitsLoopStart n)
    (htest : ∀ n ∈ test, EmitsExpression n) (hupdate : ∀ n ∈ update, EmitsExpression n)
    (hbody : EmitsStatement scope.inLoop body) :
    EmitsStatement scope (.mk span (.forStatement init test update body)) := by
  intro isBeforeIn heads w ss q hw hq
  have hopen := (hw.keyword hq .forWord).optionalSpace.leftParen
  obtain ⟨ts, q₁, hw₁, hq₁, hts⟩ : ∃ ts q₁, (emitOption { isBeforeIn := true, isHead := true } init
      (((w.write Keyword.forWord.spelling).optionalSpace).write "(")).Spells (_ ++ ts) q₁ ∧
      q₁.heads = true :: heads ∧ IsLoopStart init ts := by
    cases init
    case none => exact ⟨[], _, by simpa [emitOption] using hopen, rfl, .none⟩
    case some n =>
      obtain ⟨ts, q₁, hw₁, hheads, hts⟩ := hinit n rfl _ hopen (Pen.behind_waits rfl)
      exact ⟨ts, q₁, by simpa [emitOption] using hw₁, hheads, hts⟩
  have hwhole {part : Option Node} (h : ∀ n ∈ part, EmitsExpression n) (n : Node) (hn : n ∈ part) :
      Emits (n.emit { isBeforeIn }) (true :: heads) fun ts _ q' => q'.heads = true :: heads ∧ IsRead true true n ts :=
    ((h n hn).whole isBeforeIn).mono fun _ _ _ h => ⟨h.1, h.2.1⟩
  have hfirst : (write ";" _).Spells _ _ := hw₁.mark .semicolon ⟨rfl, rfl⟩
  rw [hq₁] at hfirst
  obtain ⟨us, q₂, hw₂, hq₂, hus⟩ := part_spells (hwhole htest) hfirst (Pen.behind_waits rfl) rfl
  have hsecond : (write ";" _).Spells _ _ := hw₂.mark .semicolon ⟨rfl, rfl⟩
  rw [hq₂] at hsecond
  obtain ⟨vs, q₃, hw₃, hq₃, hvs⟩ := part_spells (hwhole hupdate) hsecond (Pen.behind_waits rfl) rfl
  obtain ⟨xs, q₄, hw₄, hq₄, hxs⟩ := hbody isBeforeIn heads (hw₃.rightParen hq₃).optionalSpace Pen.waits_behind_head
  rw [emit_eq_of_not_encloses (by cases isBeforeIn <;> rfl), emitForm]
  exact ⟨_, q₄, by simpa [Keyword.spelling] using hw₄, hq₄, isStated_for hts hus hvs hxs⟩

-- The variable of a loop over properties.
def EmitsLoopTarget (n : Node) : Prop :=
  ∀ heads, Emits (n.emit { least := Precedence.call, isBeforeIn := true, isHead := true }) heads fun ts _ q' =>
    (∃ isOpen, q'.Rests heads isOpen) ∧ IsLoopTarget n ts

theorem loopVariable_emits {declaratorSpan : Span} {id : Node} {kind : VariableKind} (hid : IsPrintableName id) :
    EmitsLoopTarget
      (.mk span (.variableDeclaration [.mk declaratorSpan (.variableDeclarator id none)] kind)) := by
  intro heads w ss q hw hq
  have hspelling : kind.toKeyword.spelling = kind.spelling := by cases kind <;> rfl
  have hword := (hw.keyword hq kind.toKeyword).space
  obtain ⟨ts, q₁, hw₁, -, ⟨idSpan, name, b, rfl, rfl, hk⟩, -, -, hrests⟩ := name_emits hid true hword
    (Pen.behindKeyword_waits (by cases kind <;> rfl))
  rw [emit_eq_of_not_encloses rfl, emitForm]
  refine ⟨[.keyword kind.toKeyword q.startsLine, .word name b], q₁, ?_, ⟨_, hrests⟩, .declared hk⟩
  · simp only [emitItems, if_true]
    rw [emit_eq_of_not_encloses rfl, emitForm]
    simpa [hspelling] using hw₁

theorem EmitsExpression.loopTarget_emits (h : EmitsExpression n) (hn : n.isAssignable) : EmitsLoopTarget n := by
  refine fun heads => (h _ heads).mono fun _ _ _ h => ⟨⟨_, h.rests⟩, ?_⟩
  have hreads := h.reads true (.inl rfl)
  exact .target hn hreads.starts (hreads.chain (Nat.le_refl _)).isOperand

theorem forInStatement_emits {left right : Node} (hleft : EmitsLoopTarget left) (hright : EmitsExpression right)
    (hbody : EmitsStatement scope.inLoop body) :
    EmitsStatement scope (.mk span (.forInStatement left right body)) := by
  intro isBeforeIn heads w ss q hw hq
  have hopen := (hw.keyword hq .forWord).optionalSpace.leftParen
  obtain ⟨ts, q₁, hw₁, ⟨isOpen, hrests⟩, hts⟩ := hleft _ hopen (Pen.behind_waits rfl)
  have hin : (infixOperator "in" _).Spells _ _ := hw₁.infixWord hrests .inWord
  obtain ⟨us, q₂, hw₂, hheads, hus, -⟩ := hright.whole isBeforeIn hin (Pen.behindKeyword_waits (k := .inWord) rfl)
  obtain ⟨vs, q₃, hw₃, hq₃, hvs⟩ := hbody isBeforeIn heads (hw₂.rightParen hheads).optionalSpace
    Pen.waits_behind_head
  rw [emit_eq_of_not_encloses (by cases isBeforeIn <;> rfl), emitForm]
  exact ⟨_, q₃, by simpa [Keyword.spelling] using hw₃, hq₃, isStated_forIn hts hus hvs⟩

/-! ### Jumps and labels -/

-- A word with a name behind it on the same line, if there is one.
theorem jump_emits {k : Keyword} {label : Option Node} (hk : opensHead (some (.keyword k)) = false)
    (hlabel : ∀ n ∈ label, IsPrintableName n) :
    Emits (emitJump isBeforeIn k.spelling label) heads fun ts _ q' => q'.Waits heads ∧
      ∃ b us b', ts = .keyword k b :: (us ++ [.op .semicolon b']) ∧ Maybe (OnLine IsName) label us := by
  intro w ss q hw hq
  have hword := hw.keyword hq k
  cases label
  case none =>
    obtain ⟨b, q₁, hw₁, hq₁⟩ := hword.endStatement rfl
    exact ⟨_, q₁, by simpa [emitJump] using hw₁, hq₁, _, [], b, rfl, rfl⟩
  case some n =>
    obtain ⟨us, q₁, hw₁, hheads, hus, hline, -⟩ := name_emits (hlabel n rfl) isBeforeIn hword.space
      (Pen.behindKeyword_waits hk)
    obtain ⟨b, q₂, hw₂, hq₂⟩ := hw₁.endStatement hheads
    exact ⟨_, q₂, by simpa [emitJump] using hw₂, hq₂, _, us, b, rfl, hus, hline⟩

theorem breakStatement_emits {label : Option Node} (hscope : scope.allowsBreak)
    (hlabel : ∀ n ∈ label, IsPrintableName n) : EmitsStatement scope (.mk span (.breakStatement label)) := by
  intro isBeforeIn heads w ss q hw hq
  obtain ⟨_, q₁, hw₁, hq₁, b, us, b', rfl, hus⟩ := jump_emits (k := .breakWord) rfl hlabel hw hq
  rw [emit_eq_of_not_encloses (by cases isBeforeIn <;> rfl), emitForm]
  exact ⟨_, q₁, hw₁, hq₁, isStated_break hscope hus⟩

theorem continueStatement_emits {label : Option Node} (hscope : scope.allowsContinue)
    (hlabel : ∀ n ∈ label, IsPrintableName n) : EmitsStatement scope (.mk span (.continueStatement label)) := by
  intro isBeforeIn heads w ss q hw hq
  obtain ⟨_, q₁, hw₁, hq₁, b, us, b', rfl, hus⟩ := jump_emits (k := .continueWord) rfl hlabel hw hq
  rw [emit_eq_of_not_encloses (by cases isBeforeIn <;> rfl), emitForm]
  exact ⟨_, q₁, hw₁, hq₁, isStated_continue hscope hus⟩

theorem returnStatement_emits {argument : Option Node} (hscope : scope.allowsReturn)
    (hargument : ∀ n ∈ argument, EmitsExpression n) :
    EmitsStatement scope (.mk span (.returnStatement argument)) := by
  intro isBeforeIn heads w ss q hw hq
  have hword : (w.write "return").Spells _ _ := hw.keyword hq .returnWord
  rw [emit_eq_of_not_encloses (by cases isBeforeIn <;> rfl), emitForm]
  cases argument
  case none =>
    obtain ⟨b, q₁, hw₁, hq₁⟩ := hword.endStatement rfl
    have hnone : Maybe (OnLine (IsRead true true)) none [] := rfl
    exact ⟨_, q₁, by simpa using hw₁, hq₁, isStated_return hscope hnone⟩
  case some n =>
    obtain ⟨us, q₁, hw₁, hheads, hus⟩ := (hargument n rfl).whole isBeforeIn hword.optionalSpace
      (Pen.behindKeyword_waits (k := .returnWord) rfl)
    obtain ⟨b, q₂, hw₂, hq₂⟩ := hw₁.endStatement hheads
    have hsome : Maybe (OnLine (IsRead true true)) (some n) us := hus
    exact ⟨_, q₂, by simpa [emitOption] using hw₂, hq₂, isStated_return hscope hsome⟩

theorem labeledStatement_emits {label : Node} (hlabel : IsPrintableName label)
    (hbody : EmitsStatement scope body) :
    EmitsStatement scope (.mk span (.labeledStatement label body)) := by
  intro isBeforeIn heads w ss q hw hq
  obtain ⟨ts, q₁, hw₁, hheads, hts, -⟩ := name_emits hlabel isBeforeIn hw hq
  have hcolon : (write ":" _).optionalSpace.Spells _ _ := (hw₁.mark .colon ⟨rfl, rfl⟩).optionalSpace
  rw [hheads] at hcolon
  obtain ⟨us, q₂, hw₂, hq₂, hus⟩ := hbody isBeforeIn heads hcolon (Pen.behind_waits rfl)
  rw [emit_eq_of_not_encloses (by cases isBeforeIn <;> rfl), emitForm]
  exact ⟨_, q₂, by simpa using hw₂, hq₂, isStated_label hts hus⟩

/-! ### Handlers and switches -/

def EmitsHandler (scope : JumpScope) (n : Node) : Prop :=
  ∀ isBeforeIn heads, Emits (n.emit { isBeforeIn }) heads fun ts _ q' => q'.Waits heads ∧ IsHandler scope n ts

theorem handler_emits {param : Node} (hparam : IsPrintableName param) (hbody : EmitsBlock scope body) :
    EmitsHandler scope (.mk span (.catchClause param body)) := by
  intro isBeforeIn heads w ss q hw hq
  obtain ⟨ts, b, hw₁, hts⟩ := hw.head (k := .catchWord) hq
    ((name_emits hparam isBeforeIn).mono fun _ _ _ h => ⟨h.1, h.2.1⟩)
  obtain ⟨us, hw₂, hus⟩ := hbody isBeforeIn hw₁
  rw [emit_eq_of_not_encloses (by cases isBeforeIn <;> rfl), emitForm]
  exact ⟨_, _, by simpa [Keyword.spelling] using hw₂, Pen.behind_waits rfl, span, param, body, _, _, b, ts, _, rfl, rfl, hts, hus⟩

theorem tryStatement_emits {block : Node} {handler finalizer : Option Node}
    (hsome : handler.isSome ∨ finalizer.isSome) (hblock : EmitsBlock scope block)
    (hhandler : ∀ n ∈ handler, EmitsHandler scope n) (hfinalizer : ∀ n ∈ finalizer, EmitsBlock scope n) :
    EmitsStatement scope (.mk span (.tryStatement block handler finalizer)) := by
  intro isBeforeIn heads w ss q hw hq
  have hword : (w.write "try").optionalSpace.Spells _ _ := (hw.keyword hq .tryWord).optionalSpace
  obtain ⟨ts, hw₁, hts⟩ := hblock isBeforeIn hword
  obtain ⟨us, q₂, hw₂, hq₂, hus⟩ := part_spells (fun n hn => hhandler n hn isBeforeIn heads) hw₁
    (Pen.behind_waits rfl) (Pen.behind_waits rfl)
  rw [emit_eq_of_not_encloses (by cases isBeforeIn <;> rfl), emitForm]
  cases finalizer
  case none =>
    have hnone : Maybe (IsFinalizer scope) none [] := rfl
    exact ⟨_, q₂, by simpa using hw₂, hq₂, isStated_try hsome hts hus hnone⟩
  case some n =>
    have hfinally : (write "finally" _).optionalSpace.Spells _ _ :=
      (hw₂.optionalSpace.keyword hq₂ .finallyWord).optionalSpace
    obtain ⟨vs, hw₃, hvs⟩ := hfinalizer n rfl isBeforeIn hfinally
    have hsome' : Maybe (IsFinalizer scope) (some n) _ := ⟨q₂.startsLine, _, rfl, hvs⟩
    exact ⟨_, _, by simpa [emitOption] using hw₃, Pen.behind_waits rfl, isStated_try hsome hts hus hsome'⟩

def EmitsCase (scope : JumpScope) (n : Node) : Prop :=
  ∀ isBeforeIn heads, Emits (n.emit { isBeforeIn }) heads fun ts _ q' => q'.Waits heads ∧ IsCase scope n ts

theorem switchCase_emits {test : Option Node} (htest : ∀ n ∈ test, EmitsExpression n)
    (h : ∀ n ∈ ns, EmitsStatement scope n) (hns : Separate ns) :
    EmitsCase scope (.mk span (.switchCase test ns)) := by
  intro isBeforeIn heads w ss q hw hq
  obtain ⟨ts, q₁, hw₁, hq₁, hts⟩ : ∃ ts q₁, (if test.isSome then emitOption { isBeforeIn } test
      (w.write "case").optionalSpace else w.write "default").Spells (ss ++ ts) q₁ ∧
      q₁.heads = heads ∧ IsCaseTest test ts := by
    cases test
    case none =>
      have hword : (w.write "default").Spells _ _ := hw.keyword hq .defaultWord
      exact ⟨_, _, by simpa using hword, rfl, _, rfl⟩
    case some n =>
      have hword : (w.write "case").optionalSpace.Spells _ _ := (hw.keyword hq .caseWord).optionalSpace
      obtain ⟨us, q₁, hw₁, hheads, hus, -⟩ := (htest n rfl).whole isBeforeIn hword
        (Pen.behindKeyword_waits (k := .caseWord) rfl)
      exact ⟨_, q₁, by simpa [emitOption] using hw₁, hheads, _, us, rfl, hus⟩
  have hcolon : (write ":" _).indent.Spells _ _ := (hw₁.mark .colon ⟨rfl, rfl⟩).indent
  rw [hq₁] at hcolon
  obtain ⟨us, q₂, hw₂, hq₂, hus⟩ := emitStatements_emits (fun n hn => h n hn isBeforeIn heads) hcolon
    (Pen.behind_waits rfl)
  rw [emit_eq_of_not_encloses (by cases isBeforeIn <;> rfl), emitForm]
  exact ⟨_, q₂, by simpa using hw₂.dedent, hq₂, span, test, ns, _, ts, us, rfl, rfl, hts, hus, hns⟩

theorem switchStatement_emits {discriminant : Node} {arms : List Node}
    (hdefault : arms.countP Node.isDefaultCase ≤ 1) (hdiscriminant : EmitsExpression discriminant)
    (harms : ∀ n ∈ arms, EmitsCase scope.inSwitch n) :
    EmitsStatement scope (.mk span (.switchStatement discriminant arms)) := by
  intro isBeforeIn heads w ss q hw hq
  obtain ⟨ts, b, hw₁, hts⟩ := hw.head (k := .switchWord) hq
    ((hdiscriminant.whole isBeforeIn).mono fun _ _ _ h => ⟨h.1, h.2.1⟩)
  obtain ⟨us, q₂, hw₂, hq₂, hus⟩ := emitStatements_emits (fun n hn => harms n hn isBeforeIn heads)
    hw₁.openBlock (Pen.behind_waits rfl)
  obtain ⟨b', hw₃⟩ := hw₂.closeBlock hq₂.heads (!arms.isEmpty)
  rw [emit_eq_of_not_encloses (by cases isBeforeIn <;> rfl), emitForm]
  exact ⟨_, _, by simpa [Keyword.spelling] using hw₃, Pen.behind_waits rfl, isStated_switch hdefault hts hus⟩

end

end ScriptTree
