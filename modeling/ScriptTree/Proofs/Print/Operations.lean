import ScriptTree.Proofs.Parse.Grouping
import ScriptTree.Proofs.Print.Expression

/-!
What is written for objects and functions, and for the operands that are put together with operators,
accesses and calls.
-/

namespace ScriptTree

open Character Writer Scanner Node

theorem Starts.line_append {ts us : List Sign} {b : Bool} (h : Starts ts)
    (hl : ∀ t ∈ ts.head?, t.startsLine = b) : ∀ t ∈ (ts ++ us).head?, t.startsLine = b := by
  obtain ⟨s, vs, rfl, -⟩ := h
  exact hl

theorem Spelled.of_reads {n : Node} {heads : List Bool} {ts : List Sign} {q q' : Pen} {isBeforeIn : Bool}
    (hlevel : n.form.precedence < Precedence.call) (hplain : ¬n.isPlainMemberChain)
    (hreads : ∀ joinsIn : Bool, joinsIn ∨ isBeforeIn → IsReadAt n.form.precedence joinsIn n ts)
    (hrests : q'.Rests heads n.endsWithBrace) (hline : ∀ t ∈ ts.head?, t.startsLine = q.startsLine)
    (hplainly : ¬n.startsLikeStatement → StartsPlainly ts) :
    Spelled (.bare isBeforeIn n) heads n ts q q' where
  rests := hrests.mono fun h => by simpa [Place.bare] using h
  line := hline
  reads := hreads
  plainly hs := hplainly (hs.resolve_left nofun)
  plain hs := absurd (hs.resolve_left nofun) hplain
  number hk := absurd hk (Nat.not_le.mpr hlevel)

section

variable {n : Node} {ns : List Node} {id : Option Node} {heads : List Bool} {span : Span}

/-! ### Objects and functions -/

def EmitsKey (n : Node) : Prop :=
  ∀ isBeforeIn heads, Emits (n.emit { isBeforeIn }) heads fun ts _ q' => q'.heads = heads ∧ IsKey n ts

def EmitsProperty (n : Node) : Prop :=
  ∀ isBeforeIn heads, Emits (n.emit { isBeforeIn }) heads fun ts _ q' =>
    q'.heads = heads ∧ IsProperty n ts

theorem wordKey_emits {name : String} (h : IsPrintable name) : EmitsKey (.mk span (.identifier name)) := by
  intro isBeforeIn heads w ss q hw hq
  rw [emit_eq_of_not_encloses (by cases isBeforeIn <;> rfl), emitForm]
  exact ⟨_, _, hw.word hq h, rfl, .inl ⟨_, _, _, rfl, rfl, word_kind_isWord _⟩⟩

theorem literalKey_emits {t : Token} {kind : LiteralKind} (ht : t.IsScanned)
    (hk : Grammar.literalKind? t = some kind) (hc : kind.closes t.value)
    (hkey : kind = .number ∨ kind = .string ∨ kind = .template) :
    EmitsKey (.mk span (.literal kind t.value)) := by
  obtain ⟨hne, hkind⟩ : kind ≠ .regex ∧ (t.kind = .string ∨ t.kind = .number) := by
    unfold Grammar.literalKind? at hk
    rcases hkey with rfl | rfl | rfl <;> split at hk <;> simp_all
  intro isBeforeIn heads w ss q hw hq
  rw [emit_eq_of_not_encloses (by cases isBeforeIn <;> rfl), emitForm, Writer.literal]
  simp only [beq_false_of_ne hne, Bool.false_and, Bool.false_eq_true, if_false]
  exact ⟨_, _, hw.bareLiteral hq ht hk hc (absurd · hne), rfl, .inr ⟨span, kind, t.sign _, rfl, rfl, hk, hkind⟩⟩

theorem property_emits {key value : Node} (hkey : EmitsKey key) (hvalue : EmitsExpression value) :
    EmitsProperty (.mk span (.property key value false false false)) := by
  intro isBeforeIn heads w ss q hw hq
  obtain ⟨ts, q₁, hw₁, hheads, hts⟩ := hkey isBeforeIn heads hw hq
  have hcolon : (write ":" _).optionalSpace.Spells _ _ := (hw₁.mark .colon ⟨rfl, rfl⟩).optionalSpace
  rw [hheads] at hcolon
  obtain ⟨us, q₂, hw₂, hheads, hus⟩ := hvalue.item isBeforeIn hcolon (Pen.behind_waits rfl)
  rw [emit_eq_of_not_encloses (by cases isBeforeIn <;> rfl), emitForm]
  exact ⟨_, _, hw₂.congr rfl (by simp), hheads, span, key, value, ts, q₁.startsLine, us, rfl, rfl, hts, hus⟩

theorem object_emits (hns : ∀ n ∈ ns, EmitsProperty n) : EmitsBare (.mk span (.objectExpression ns)) := by
  intro isBeforeIn isHead heads _ w ss q hw hq
  have hopen : (w.write "\x7b").Spells _ _ := hw.mark .leftBrace ⟨rfl, rfl⟩
  rw [hq.heads] at hopen
  obtain ⟨us, q₁, hw₁, hheads, hus⟩ := emitItems_emits (fun n hn => hns n hn isBeforeIn _) hopen
    (Pen.behind_waits rfl)
  have hclose : (write "\x7d" _).Spells _ _ := hw₁.mark .rightBrace ⟨rfl, rfl⟩
  rw [hheads] at hclose
  have hplain : IsPlain (.mk span (.objectExpression ns)) (.op .leftBrace q.startsLine ::
      (us ++ [.op .rightBrace q₁.startsLine])) := fun _ => (isPrimary_object hus).leads
  exact ⟨_, _, hclose.congr (by rw [Node.form, emitForm]) (by simp), .of_chain hplain.isChain
    (fun _ => hplain) ⟨_, _, rfl, rfl⟩ (Pen.behind_rests rfl) (by simp) (absurd rfl) fun _ => nofun⟩

theorem functionExpression_emits {params : List Node} {body : Node} {isAsync isGenerator : Bool}
    (hid : ∀ n ∈ id, IsPrintableName n) (hparams : ∀ n ∈ params, IsPrintableName n)
    (hbody : EmitsBlock .functionBody body) :
    EmitsBare (.mk span (.functionExpression id params body { isAsync, isGenerator })) := by
  intro isBeforeIn isHead heads _ w ss q hw hq
  obtain ⟨ts, q', hw', rfl, b, us, rfl, hline, hus⟩ := function_emits { isAsync, isGenerator } isBeforeIn
    hid hparams hbody hw hq
  have hchain : IsChain (.mk span (.functionExpression id params body { isAsync, isGenerator }))
      (asyncSigns isAsync b ++ us) := fun _ => (isPrimary_function hus).leads
  have hstarts : Starts (asyncSigns isAsync b ++ us) := by
    obtain ⟨b', vs, rfl⟩ := hus.starts
    cases isAsync
    · exact ⟨_, _, rfl, by simp; rfl⟩
    · exact ⟨_, _, rfl, rfl⟩
  exact ⟨_, _, hw'.congr (by rw [Node.form, emitForm]) rfl, .of_chain hchain nofun hstarts
    (Pen.behind_rests rfl) hline (absurd rfl) fun _ => nofun⟩

/-! ### Operators in front of an operand or behind it -/

theorem UpdateOperator.spelling_toOperator (operator : UpdateOperator) :
    operator.toOperator.spelling = operator.spelling := by
  cases operator <;> rfl

theorem Node.endsWithBrace_of_isAssignable (h : n.isAssignable) : n.endsWithBrace = false := by
  obtain ⟨span, form⟩ := n
  cases form <;> first | rfl | cases h

-- An operand of the tightest operators.
theorem EmitsExpression.chain (h : EmitsExpression n) (isBeforeIn : Bool) :
    Emits (n.emit { least := Precedence.call, isBeforeIn }) heads fun ts q q' =>
      q'.Rests heads n.endsWithBrace ∧ IsChain n ts ∧ Starts ts ∧
        (∀ t ∈ ts.head?, t.startsLine = q.startsLine) ∧ (¬n.startsLikeStatement → StartsPlainly ts) := by
  refine (h _ heads).mono fun ts q q' h => ?_
  have hreads := h.reads true (.inl rfl)
  exact ⟨h.rests.mono fun h => by simpa using h, hreads.chain (Nat.le_refl _), hreads.starts, h.line,
    fun hs => h.plainly (.inr hs)⟩

theorem prefixUpdate_emits {operator : UpdateOperator} (h : EmitsExpression n) (hn : n.isAssignable) :
    EmitsBare (.mk span (.updateExpression operator true n)) := by
  intro isBeforeIn isHead heads _ w ss q hw hq
  have hop : operator.toOperator ∈ [Operator.plus, .minus, .tilde, .bang, .increment, .decrement] := by
    cases operator <;> simp [UpdateOperator.toOperator]
  have hpre := hw.prefixOperator hq operator.toOperator hop
  have hword : operator.toOperator.isWord = false := by cases operator <;> rfl
  obtain ⟨ts, q₁, hw₁, hrests, hchain, hstarts, -, -⟩ := h.chain isBeforeIn hpre (Pen.behind_waits hword)
  have hoperand : IsOperand (.mk span (.updateExpression operator true n))
      (.op operator.toOperator q.startsLine :: ts) := isOperand_prefixUpdate hchain.isOperand hn
  have hstart : Starts (.op operator.toOperator q.startsLine :: ts) :=
    ⟨_, _, rfl, by cases operator <;> rfl⟩
  refine ⟨_, _, hw₁.congr ?_ (by simp), .of_reads (by decide : (16 : Nat) < 18) (by simp [Node.isPlainMemberChain])
    (fun _ _ => .of_operand hoperand hstart (by decide : (16 : Nat) ≤ 17)) (hrests.mono fun h => ?_) (by simp)
    fun _ => ⟨_, _, rfl, by simp, ?_, by simp⟩⟩
  · rw [Node.form, emitForm, if_pos rfl, operator.spelling_toOperator]
  · rw [n.endsWithBrace_of_isAssignable hn] at h
    cases h
  · cases operator <;> simp [UpdateOperator.toOperator]

theorem postfixUpdate_emits {operator : UpdateOperator} (h : EmitsExpression n) (hn : n.isAssignable) :
    EmitsBare (.mk span (.updateExpression operator false n)) := by
  intro isBeforeIn isHead heads _ w ss q hw hq
  obtain ⟨ts, q₁, hw₁, hrests, hchain, hstarts, hline, hplainly⟩ := h.chain isBeforeIn hw hq
  rw [n.endsWithBrace_of_isAssignable hn] at hrests
  have hpost := hw₁.operatorBehind hrests operator.toOperator (by cases operator <;> rfl)
    (by cases operator <;> rfl) (by cases operator <;> exact fun h => absurd h (by decide)) (fun _ => rfl)
  have hkind : (Sign.op operator.toOperator false).kind ≠ .operator .colon ∧
      (Sign.op operator.toOperator false).kind ≠ .keyword .functionWord := by
    cases operator <;> simp [UpdateOperator.toOperator]
  refine ⟨_, _, hpost.congr ?_ (List.append_assoc ..), .of_chain (hchain.update hn) (by simp [Node.isPlainMemberChain]) (hstarts.append _)
    (Pen.behind_rests (by cases operator <;> rfl)) (hstarts.line_append hline)
    (fun hs => (hplainly ?_).append hkind) fun _ => by simp [Pen.behind]⟩
  · rw [Node.form, emitForm, if_neg Bool.false_ne_true, operator.spelling_toOperator]
  · simpa [Node.startsLikeStatement] using hs

theorem Grammar.startsExpression_of_unaryOperator? {kind : TokenKind} {operator : UnaryOperator}
    (h : Grammar.unaryOperator? kind = some operator) :
    kind.startsExpression ∧ kind ≠ .keyword .functionWord ∧ kind ≠ .operator .leftBrace ∧
      kind ≠ .identifier := by
  unfold Grammar.unaryOperator? at h
  split at h
  case h_8 => cases h
  all_goals exact ⟨rfl, nofun, nofun, nofun⟩

theorem Writer.Spells.unary {w : Writer} {ss : List Sign} {q : Pen} (h : w.Spells ss q) (hq : q.Waits heads)
    (operator : UnaryOperator) : ∃ t q', (w.write operator.spelling).Spells (ss ++ [t]) q' ∧
      q'.Waits heads ∧ Grammar.unaryOperator? t.kind = some operator ∧ t.startsLine = q.startsLine := by
  have hmark (op : Operator) (hop : op ∈ [Operator.plus, .minus, .tilde, .bang, .increment, .decrement])
      (hword : op.isWord = false) (hunary : Grammar.unaryOperator? (.operator op) = some operator)
      (hs : op.spelling = operator.spelling) : ∃ t q', (w.write operator.spelling).Spells (ss ++ [t]) q' ∧
        q'.Waits heads ∧ Grammar.unaryOperator? t.kind = some operator ∧ t.startsLine = q.startsLine :=
    ⟨_, _, hs ▸ h.prefixOperator hq op hop, Pen.behind_waits hword, hunary, rfl⟩
  have hword (k : Keyword) (hk : opensHead (some (.keyword k)) = false)
      (hunary : Grammar.unaryOperator? (.keyword k) = some operator) (hs : k.spelling = operator.spelling) :
      ∃ t q', (w.write operator.spelling).Spells (ss ++ [t]) q' ∧
        q'.Waits heads ∧ Grammar.unaryOperator? t.kind = some operator ∧ t.startsLine = q.startsLine :=
    ⟨_, _, hs ▸ (h.keyword hq k), hs ▸ Pen.behindKeyword_waits hk, by rw [Sign.keyword_kind, hunary], rfl⟩
  cases operator
  case plus => exact hmark .plus (by decide) rfl rfl rfl
  case minus => exact hmark .minus (by decide) rfl rfl rfl
  case tilde => exact hmark .tilde (by decide) rfl rfl rfl
  case bang => exact hmark .bang (by decide) rfl rfl rfl
  case voidWord => exact hword .voidWord rfl rfl rfl
  case typeofWord => exact hword .typeofWord rfl rfl rfl
  case deleteWord => exact hword .deleteWord rfl rfl rfl

theorem unary_emits {operator : UnaryOperator} (h : EmitsExpression n) :
    EmitsBare (.mk span (.unaryExpression operator true n)) := by
  intro isBeforeIn isHead heads _ w ss q hw hq
  obtain ⟨t, q₁, hw₁, hq₁, hunary, hline⟩ := hw.unary hq operator
  obtain ⟨ts, q₂, hw₂, hts⟩ := h { least := Precedence.unary, isBeforeIn } heads hw₁ hq₁
  obtain ⟨hstarts, hfunction, hbrace, hidentifier⟩ := Grammar.startsExpression_of_unaryOperator? hunary
  have hoperand (joinsIn : Bool) (hj : joinsIn ∨ isBeforeIn) :
      IsOperand (.mk span (.unaryExpression operator true n)) (t :: ts) :=
    isOperand_unary hunary ((hts.reads joinsIn hj).operand (Nat.le_refl _))
  refine ⟨_, _, hw₂.congr (by rw [Node.form, emitForm]) (by simp), .of_reads (by decide : (16 : Nat) < 18) nofun
    (fun joinsIn hj => .of_operand (hoperand joinsIn hj) ⟨_, _, rfl, hstarts⟩ (by decide : (16 : Nat) ≤ 17))
    (hts.rests.mono fun h => ?_) (by simpa using hline)
    fun _ => ⟨_, _, rfl, hfunction, hbrace, fun hk => absurd hk hidentifier⟩⟩
  simpa [Node.endsWithBrace] using h

/-! ### Operators between operands -/

-- Does the operator join two operands?
def Operator.joins (operator : Operator) : Bool :=
  operator.category == .binary && !Grammar.isNoJoiner operator && operator.level.isSome

theorem Token.IsScanned.joins {t : Token} {joinsIn : Bool} {operator : Operator} {level : Nat}
    (h : t.IsScanned) (ht : Grammar.joiner? joinsIn t = some (operator, level)) : operator.joins := by
  obtain ⟨⟨hbinary, hjoins, hlevel⟩, -⟩ := Grammar.of_joiner? ht
  rw [h.marks_of_joiner? ht] at hbinary hlevel
  have hlevel : operator.level = some level := hlevel
  rw [Operator.joins, hjoins, hlevel]
  simpa [Marks.ofOperator] using hbinary

-- An operator that joins operands, as its sign is read.
structure Sign.Joins (s : Sign) (operator : Operator) (level : Nat) : Prop where
  ranks    : operator.level = some level
  bounds   : Precedence.conditional < level ∧ level < Precedence.unary
  joins    : ∀ joinsIn : Bool, joinsIn ∨ operator ≠ .inside →
    Grammar.joiner? joinsIn s.token = some (operator, level)
  function : s.kind ≠ .operator .colon ∧ s.kind ≠ .keyword .functionWord
  stops    : ¬s.Follows ⟨true, true, true⟩

theorem Sign.op_joins {operator : Operator} (h : operator.joins) (hw : operator.isWord = false) (b : Bool) :
    ∃ level, (Sign.op operator b).Joins operator level := by
  have hkind : operator ≠ .comma ∧ operator ≠ .question ∧ operator ≠ .colon := by
    refine ⟨?_, ?_, ?_⟩ <;> rintro rfl <;> cases h
  have hcategory : (Sign.op operator b).marks.assignment = false ∧
      (Sign.op operator b).extendsOperand = false := by
    revert h
    cases operator <;> first | exact fun _ => ⟨rfl, rfl⟩ | exact fun h => absurd h (by decide)
  have hstops : ¬(Sign.op operator b).Follows ⟨true, true, true⟩ := by
    rw [Sign.Follows, hcategory.1, hcategory.2]
    simp [hkind]
  have hlevel : ∃ level, operator.level = some level ∧ (2 < level ∧ level < 16) ∧
      ∀ joinsIn, Grammar.joiner? joinsIn (Sign.op operator b).token = some (operator, level) := by
    revert h hw
    cases operator <;> intro h hw <;>
      first | exact ⟨_, rfl, by decide, fun _ => rfl⟩ | exact absurd h (by decide)
  obtain ⟨level, hranks, hbounds, hjoins⟩ := hlevel
  exact ⟨level, hranks, hbounds, fun joinsIn _ => hjoins joinsIn, by simp [hkind], hstops⟩

theorem Sign.in_joins (b : Bool) : (Sign.keyword .inWord b).Joins .inside 10 where
  ranks := rfl
  bounds := by decide
  joins joinsIn hj := by
    obtain rfl : joinsIn = true := by simpa using hj
    rfl
  function := by simp
  stops := by
    have hmarks : (Sign.keyword .inWord b).extendsOperand = false ∧
      (Sign.keyword .inWord b).marks.assignment = false := ⟨rfl, rfl⟩
    simp [Sign.Follows, hmarks]

theorem Sign.instanceof_joins (b : Bool) : (Sign.keyword .instanceofWord b).Joins .instanceOf 10 where
  ranks := rfl
  bounds := by decide
  joins _ _ := rfl
  function := by simp
  stops := by
    have hmarks : (Sign.keyword .instanceofWord b).extendsOperand = false ∧
      (Sign.keyword .instanceofWord b).marks.assignment = false := ⟨rfl, rfl⟩
    simp [Sign.Follows, hmarks]

theorem Writer.Spells.joiner {w : Writer} {ss : List Sign} {q : Pen} {operator : Operator} {isOpen : Bool}
    (h : w.Spells ss q) (hq : q.Rests heads isOpen) (hop : operator.joins)
    (hslash : operator = .slash → isOpen = false) :
    ∃ s level q', (w.infixOperator operator.spelling).Spells (ss ++ [s]) q' ∧ q'.Waits heads ∧
      s.Joins operator level := by
  cases hw : operator.isWord
  case false =>
    obtain ⟨level, hjoins⟩ := Sign.op_joins hop hw false
    have hnot : operator ≠ .dot ∧ operator ≠ .slashAssign ∧ Pen.isPlain operator := by
      have hall : ∀ op ∈ Operator.all, op.joins → op ≠ .dot ∧ op ≠ .slashAssign ∧ Pen.isPlain op := by decide
      exact hall operator (Operator.mem_all operator) hop
    exact ⟨_, level, _, h.infixOperator hq operator hw hnot.2.2 hnot.1 fun hs =>
      hslash (hs.resolve_right hnot.2.1), Pen.behind_waits hw, hjoins⟩
  case true =>
    have hword : operator = .inside ∨ operator = .instanceOf := by
      revert hw
      cases operator <;> simp [Operator.isWord]
    rcases hword with rfl | rfl
    · exact ⟨_, _, _, h.infixWord hq .inWord, Pen.behindKeyword_waits (k := .inWord) rfl, Sign.in_joins _⟩
    · exact ⟨_, _, _, h.infixWord hq .instanceofWord, Pen.behindKeyword_waits (k := .instanceofWord) rfl,
        Sign.instanceof_joins _⟩

theorem binary_emits {left right : Node} {operator : Operator} (hop : operator.joins)
    (hleft : EmitsExpression left) (hright : EmitsExpression right) :
    EmitsBare (.mk span (.binaryExpression left operator right)) := by
  intro isBeforeIn isHead heads hnot w ss q hw hq
  have hin (joinsIn : Bool) (hj : joinsIn ∨ isBeforeIn) : joinsIn ∨ operator ≠ .inside := by
    refine hj.imp_right ?_
    rintro rfl rfl
    cases hnot
  obtain ⟨ts, q₁, hw₁, hts⟩ := hleft
    { least := operator.level.getD (Precedence.conditional + 1)
      isEnclosed := operator == .slash && left.endsWithBrace, isBeforeIn } heads hw hq
  have hslash : operator = .slash →
      (left.endsWithBrace && !(operator == .slash && left.endsWithBrace)) = false := by
    rintro rfl
    cases left.endsWithBrace <;> rfl
  obtain ⟨s, level, q₂, hw₂, hq₂, hjoins⟩ := hw₁.joiner hts.rests hop hslash
  obtain ⟨us, q₃, hw₃, hus⟩ := hright
    { least := operator.level.getD (Precedence.conditional + 1) + 1, isBeforeIn } heads hw₂ hq₂
  have hlevel : operator.level.getD (Precedence.conditional + 1) = level := by
    rw [hjoins.ranks, Option.getD_some]
  obtain ⟨hlow, hhigh⟩ : 2 < level ∧ level < 16 := hjoins.bounds
  have hreads (joinsIn : Bool) (hj : joinsIn ∨ isBeforeIn) :
      IsReadAt level joinsIn (.mk span (.binaryExpression left operator right)) (ts ++ s :: us) := by
    have hl := hts.reads joinsIn hj
    have hr := hus.reads joinsIn hj
    simp only [hlevel] at hl hr
    exact .of_run ((hl.run level hlow (Nat.le_refl _)).join (hr.run _ (by omega) (Nat.le_refl _))
      (hjoins.joins joinsIn (hin joinsIn hj)) hjoins.ranks hjoins.function.2 hjoins.stops)
      (hl.starts.append _) (by omega)
  have hstarts : Starts ts := (hts.reads true (.inl rfl)).starts
  refine ⟨ts ++ s :: us, _, hw₃.congr (by rw [Node.form, emitForm]) (by simp), .of_reads ?_ nofun ?_
    (hus.rests.mono fun h => by simpa [Node.endsWithBrace] using h) (hstarts.line_append hts.line)
    fun hs => (hts.plainly (.inr ?_)).append hjoins.function⟩
  · rw [Node.form, Form.precedence, hlevel]
    exact Nat.lt_of_lt_of_le hhigh (by decide)
  · rw [Node.form, Form.precedence, hlevel]
    exact hreads
  · simpa [Node.startsLikeStatement] using hs

theorem assignment_emits {left right : Node} {operator : Operator} (hop : operator.category = .assignment)
    (hleft : EmitsExpression left) (hn : left.isAssignable) (hright : EmitsExpression right) :
    EmitsBare (.mk span (.assignmentExpression operator left right)) := by
  intro isBeforeIn isHead heads _ w ss q hw hq
  obtain ⟨ts, q₁, hw₁, hrests, hchain, hstarts, hline, hplainly⟩ := hleft.chain isBeforeIn hw hq
  rw [left.endsWithBrace_of_isAssignable hn] at hrests
  have hnot : operator.isWord = false ∧ Pen.isPlain operator ∧ operator ≠ .dot ∧ operator ≠ .colon := by
    have hall : ∀ op ∈ Operator.all, op.category = .assignment →
        op.isWord = false ∧ Pen.isPlain op ∧ op ≠ .dot ∧ op ≠ .colon := by decide
    exact hall operator (Operator.mem_all operator) hop
  have hmiddle := hw₁.infixOperator hrests operator hnot.1 hnot.2.1 hnot.2.2.1 fun _ => rfl
  obtain ⟨us, q₂, hw₂, hus⟩ := hright { least := Precedence.assignment, isBeforeIn } heads hmiddle
    (Pen.behind_waits hnot.1)
  have hread : IsRead false true right us := (hus.reads true (.inl rfl)).item (Nat.le_refl _)
  have hexpression (joinsIn : Bool) : IsExpression Sign.EndsExpression joinsIn
      (.mk span (.assignmentExpression operator left right)) (ts ++ .op operator false :: us) :=
    .assignment hchain.isOperand hn hop hread
  refine ⟨ts ++ .op operator false :: us, _, hw₂.congr (by rw [Node.form, emitForm]) (by simp),
    .of_reads (by decide : (1 : Nat) < 18) nofun
      (fun joinsIn _ => .of_expression (hexpression joinsIn) (hstarts.append _) (by decide : (1 : Nat) ≤ 2))
      (hus.rests.mono fun h => by simpa [Node.endsWithBrace] using h) (hstarts.line_append hline)
      fun hs => (hplainly ?_).append (by simp [hnot.2.2.2])⟩
  simpa [Node.startsLikeStatement] using hs

theorem conditional_emits {test consequent alternate : Node} (htest : EmitsExpression test)
    (hconsequent : EmitsExpression consequent) (halternate : EmitsExpression alternate) :
    EmitsBare (.mk span (.conditionalExpression test consequent alternate)) := by
  intro isBeforeIn isHead heads _ w ss q hw hq
  obtain ⟨ts, q₁, hw₁, hts⟩ := htest { least := Precedence.conditional + 1, isBeforeIn } heads hw hq
  have hquestion : (infixOperator "?" _).Spells _ _ :=
    hw₁.infixOperator hts.rests .question rfl rfl nofun (by simp)
  obtain ⟨us, q₂, hw₂, hus⟩ := hconsequent { least := Precedence.assignment, isBeforeIn } heads hquestion
    (Pen.behind_waits rfl)
  have hcolon : (infixOperator ":" _).Spells _ _ :=
    hw₂.infixOperator hus.rests .colon rfl rfl nofun (by simp)
  obtain ⟨vs, q₃, hw₃, hvs⟩ := halternate { least := Precedence.assignment, isBeforeIn } heads hcolon
    (Pen.behind_waits rfl)
  have hstarts : Starts ts := (hts.reads true (.inl rfl)).starts
  have hexpression (joinsIn : Bool) (hj : joinsIn ∨ isBeforeIn) :
      IsExpression Sign.EndsExpression joinsIn (.mk span (.conditionalExpression test consequent alternate))
        (ts ++ .op .question false :: (us ++ .op .colon false :: vs)) :=
    .conditional ((hts.reads joinsIn hj).run 3 (Nat.le_refl _) (Nat.le_refl _)).isExpression
      ((hus.reads true (.inl rfl)).item (Nat.le_refl _)) ((hvs.reads true (.inl rfl)).item (Nat.le_refl _))
  refine ⟨ts ++ .op .question false :: (us ++ .op .colon false :: vs), _,
    hw₃.congr (by rw [Node.form, emitForm]) (by simp), .of_reads (by decide : (2 : Nat) < 18) nofun
      (fun joinsIn hj => .of_expression (hexpression joinsIn hj) (hstarts.append _) (Nat.le_refl _))
      (hvs.rests.mono fun h => by simpa [Node.endsWithBrace] using h) (hstarts.line_append hts.line)
      fun hs => (hts.plainly (.inr ?_)).append (by simp)⟩
  simpa [Node.startsLikeStatement] using hs

theorem Node.lastEndsWithBrace_of_getLast? {m : Node} (h : ns.getLast? = some m) :
    lastEndsWithBrace ns = m.endsWithBrace := by
  induction ns
  case nil => cases h
  case cons x xs ih =>
    rcases xs with _ | ⟨y, ys⟩
    case nil =>
      cases h
      rfl
    case cons => exact ih (by simpa using h)

theorem sequence_emits (hn : EmitsExpression n) (hns : ∀ n ∈ ns, EmitsExpression n) (hne : ns ≠ []) :
    EmitsBare (.mk span (.sequenceExpression (n :: ns))) := by
  intro isBeforeIn isHead heads _ w ss q hw hq
  obtain ⟨ts, q₁, hw₁, hts⟩ := hn { least := Precedence.assignment, isBeforeIn } heads hw hq
  obtain ⟨us, q₂, hw₂, -, hus, -, hlast⟩ := emitItems_spells (R := IsRead false true)
    (Q := fun m q' => q'.Rests heads m.endsWithBrace)
    (fun m hm => (hns m hm { least := Precedence.assignment, isBeforeIn } heads).mono fun vs _ q' h =>
      ⟨h.rests.heads, (h.reads true (.inl rfl)).item (Nat.le_refl _), h.rests.mono fun h => by simpa using h⟩)
    hw₁ hts.rests.heads
  have hstarts : Starts ts := (hts.reads true (.inl rfl)).starts
  have hread (joinsIn : Bool) (hj : joinsIn ∨ isBeforeIn) :
      IsRead true joinsIn (.mk span (.sequenceExpression (n :: ns))) (ts ++ us) :=
    IsExpression.sequence ((hts.reads joinsIn hj).expression (Nat.le_refl _)) hstarts hus hne
  obtain ⟨m, hm⟩ := Option.isSome_iff_exists.mp (by simpa using hne : ns.getLast?.isSome)
  refine ⟨ts ++ us, _, hw₂.congr (by rw [Node.form, emitForm, emitItems]; rfl) (by simp),
    .of_reads (by decide : (0 : Nat) < 18) nofun (fun joinsIn hj => .of_read (hread joinsIn hj))
      ((hlast m hm).mono fun h => ?_) (hstarts.line_append hts.line) fun hs => ?_⟩
  · rwa [Node.endsWithBrace, Node.lastEndsWithBrace_of_getLast? (m := m) (by simp [List.getLast?_cons, hm])]
  · obtain ⟨m', ns, rfl⟩ := List.exists_cons_of_ne_nil hne
    obtain ⟨b, us, vs, rfl, -⟩ := hus
    exact (hts.plainly (.inr (by simpa [Node.startsLikeStatement, firstStartsLikeStatement] using hs))).append
      (by simp)

/-! ### Accesses and calls -/

-- A name behind a dot, which the scanner does not take for the operator or the head of a statement.
def IsPrintableMember (n : Node) : Prop :=
  ∃ span name, n = .mk span (.identifier name) ∧ IsPrintable name ∧
    opensHead (some (Scanner.word name.toList).kind) = false ∧
      (Scanner.word name.toList).marks.isOperator = false

theorem call_emits (hn : EmitsExpression n) (hns : ∀ n ∈ ns, EmitsExpression n) :
    EmitsBare (.mk span (.callExpression n ns false)) := by
  intro isBeforeIn isHead heads _ w ss q hw hq
  obtain ⟨ts, q₁, hw₁, hrests, hchain, hstarts, hline, hplainly⟩ := hn.chain isBeforeIn hw hq
  obtain ⟨us, b, hw₂, hus⟩ := arguments_spells hns isBeforeIn hw₁ hrests.heads hrests.head
  exact ⟨ts ++ .op .leftParen q₁.startsLine :: (us ++ [.op .rightParen b]), _,
    hw₂.congr (by rw [Node.form, emitForm]) (by simp), .of_chain (hchain.call hus) nofun (hstarts.append _)
      (Pen.behind_paren rfl) (hstarts.line_append hline)
      (fun hs => (hplainly (by simpa [Node.startsLikeStatement] using hs)).append (by simp)) fun _ => by simp⟩

theorem construction_emits (hn : EmitsExpression n) (hns : ∀ n ∈ ns, EmitsExpression n) :
    EmitsBare (.mk span (.newExpression n ns)) := by
  intro isBeforeIn isHead heads _ w ss q hw hq
  have hnew : (w.write "new").space.Spells _ _ := (hw.keyword hq .newWord).space
  obtain ⟨ts, q₁, hw₁, hts⟩ := hn
    { least := Precedence.call, isEnclosed := !n.isPlainMemberChain, isBeforeIn } heads hnew
    (Pen.behindKeyword_waits (k := .newWord) rfl)
  obtain ⟨us, b, hw₂, hus⟩ := arguments_spells hns isBeforeIn hw₁ hts.rests.heads hts.rests.head
  have hplain : IsPlain n ts := hts.plain (by cases n.isPlainMemberChain <;> simp)
  have hchain : IsChain (.mk span (.newExpression n ns)) (.keyword .newWord q.startsLine ::
      (ts ++ .op .leftParen q₁.startsLine :: (us ++ [.op .rightParen b]))) :=
    fun _ => (isPrimary_construction hplain hus).leads
  exact ⟨_, _, hw₂.congr (by rw [Node.form, emitForm]) (by simp), .of_chain hchain nofun
    ⟨_, _, rfl, by simp; rfl⟩ (Pen.behind_paren rfl) (by simp) (fun _ => ⟨_, _, rfl, by simp⟩) fun _ => by simp⟩

-- The object of an access.
theorem EmitsExpression.object (h : EmitsExpression n) (isBeforeIn : Bool) :
    Emits (n.emit { least := Precedence.call, isEnclosed := isNumberLiteral n, isBeforeIn }) heads
      fun ts q q' => (∃ isOpen, q'.Rests heads isOpen) ∧ q'.last ≠ some .number ∧ IsChain n ts ∧
        (n.isPlainMemberChain → IsPlain n ts) ∧ Starts ts ∧
        (∀ t ∈ ts.head?, t.startsLine = q.startsLine) ∧ (¬n.startsLikeStatement → StartsPlainly ts) := by
  refine (h _ heads).mono fun ts q q' h => ?_
  have hreads := h.reads true (.inl rfl)
  exact ⟨⟨_, h.rests⟩, h.number (Nat.le_refl _) (by cases isNumberLiteral n <;> simp),
    hreads.chain (Nat.le_refl _), fun hp => h.plain (.inr hp), hreads.starts, h.line,
    fun hs => h.plainly (.inr hs)⟩

theorem emitForm_member {member : Node} {w : Writer} {p : Place} {isBeforeIn isHead isComputed isOptional : Bool}
    (hp : p = { least := Precedence.call, isEnclosed := isNumberLiteral n, isBeforeIn })
    (h : (n.emit p w).options.memberStyle = .asIs) :
    emitForm isBeforeIn isHead (.memberExpression n member isComputed isOptional) w =
      if isComputed then (member.emit { isBeforeIn } ((n.emit p w).write "[")).write "]"
      else member.emit { isBeforeIn } ((n.emit p w).write ".") := by
  subst hp
  unfold emitForm
  simp only [h]
  cases isComputed <;> rfl

theorem member_emits {member : Node} (hn : EmitsExpression n) (hm : IsPrintableMember member) :
    EmitsBare (.mk span (.memberExpression n member false false)) := by
  obtain ⟨memberSpan, name, rfl, hname, hhead, hmarks⟩ := hm
  intro isBeforeIn isHead heads _ w ss q hw hq
  obtain ⟨ts, q₁, hw₁, ⟨isOpen, hrests⟩, hnumber, hchain, hplain, hstarts, hline, hplainly⟩ :=
    hn.object isBeforeIn hw hq
  have hdot := hw₁.operatorBehind hrests .dot rfl rfl (fun _ => hnumber) (by simp)
  have hword := hdot.word (Pen.behind_waits rfl) hname
  have hwaits : (Pen.behindWord name heads).Waits heads := Pen.behindWord_waits hhead
  refine ⟨ts ++ [.op .dot false, .word name false], _, hword.congr ?_ (by simp), .of_chain
    (fun allows => (hchain allows).dot (word_kind_isWord _)) (fun hp sequel => ?_) (hstarts.append _)
    (Pen.behindWord_rests hhead hmarks) (hstarts.line_append hline)
    (fun hs => (hplainly (by simpa [Node.startsLikeStatement] using hs)).append (by simp))
    fun _ => hwaits.last_ne_number⟩
  · rw [Node.form, emitForm_member rfl hw₁.style, if_neg Bool.false_ne_true,
      emit_eq_of_not_encloses (by cases isBeforeIn <;> rfl), emitForm]
    rfl
  · exact (hplain (by simpa [Node.isPlainMemberChain] using hp) sequel).dot (word_kind_isWord _)

theorem computedMember_emits {member : Node} (hn : EmitsExpression n) (hm : EmitsExpression member) :
    EmitsBare (.mk span (.memberExpression n member true false)) := by
  intro isBeforeIn isHead heads _ w ss q hw hq
  obtain ⟨ts, q₁, hw₁, ⟨isOpen, hrests⟩, hnumber, hchain, hplain, hstarts, hline, hplainly⟩ :=
    hn.object isBeforeIn hw hq
  have hopen : (write "[" _).Spells _ _ := hw₁.mark .leftBracket ⟨rfl, rfl⟩
  rw [hrests.heads] at hopen
  obtain ⟨us, q₂, hw₂, hheads, hus, -⟩ := hm.whole isBeforeIn hopen (Pen.behind_waits rfl)
  have hclose := hw₂.rightBracket
  refine ⟨ts ++ .op .leftBracket q₁.startsLine :: us ++ [.op .rightBracket q₂.startsLine], _,
    hclose.congr ?_ (by simp), .of_chain
    (fun allows => (hchain allows).bracket hus) (fun hp sequel => ?_) ((hstarts.append _).append _)
    ⟨hheads, ⟨_, rfl, rfl⟩, rfl, by simp, rfl⟩ ((hstarts.append _).line_append (hstarts.line_append hline))
    (fun hs => ?_) fun _ => by simp⟩
  · rw [Node.form, emitForm_member rfl hw₁.style, if_pos rfl]
  · exact (hplain (by simpa [Node.isPlainMemberChain] using hp) sequel).bracket hus
  · rw [List.append_assoc]
    exact (hplainly (by simpa [Node.startsLikeStatement] using hs)).append (by simp)

end

end ScriptTree
