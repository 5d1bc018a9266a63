import ScriptTree.Proofs.Print.Settled

/-!
What the text of an expression starts with, when the expression is a statement.

The printer asks the left edge of the tree whether it would be taken for another statement. The first
tokens of the text come from the same edge: every construct on it prints its first part first, and puts
parentheses around it or leaves it to start in the same way.
-/

namespace ScriptTree

open Writer

/-! ### The left edge of an expression -/

-- An expression that is in order as far as it is printed first: names and literals are the text of a token,
-- and operators are of the class that the construct is for. What stands elsewhere may be anything.
inductive StartsInOrder : Node → Prop
  | identifier {span} {t : Token} : t.IsScanned → t.kind = .identifier →
    StartsInOrder (.mk span (.identifier t.value))
  | literal {span kind} {t : Token} : t.IsScanned → (Grammar.literalKind? t).isSome →
    StartsInOrder (.mk span (.literal kind t.value))
  | this {span} : StartsInOrder (.mk span .thisExpression)
  | array {span elements} : StartsInOrder (.mk span (.arrayExpression elements))
  | object {span properties} : StartsInOrder (.mk span (.objectExpression properties))
  | function {span id params body traits} : StartsInOrder (.mk span (.functionExpression id params body traits))
  | construction {span callee arguments} : StartsInOrder (.mk span (.newExpression callee arguments))
  | unary {span op isPrefix argument} : (op.isWord → StartsInOrder argument) →
    StartsInOrder (.mk span (.unaryExpression op isPrefix argument))
  | update {span op isPrefix argument} : (isPrefix = false → StartsInOrder argument) →
    StartsInOrder (.mk span (.updateExpression op isPrefix argument))
  | binary {span left op right} : op.joins → StartsInOrder left →
    StartsInOrder (.mk span (.binaryExpression left op right))
  | assignment {span op left right} : op.category = .assignment → StartsInOrder left →
    StartsInOrder (.mk span (.assignmentExpression op left right))
  | conditional {span test consequent alternate} : StartsInOrder test →
    StartsInOrder (.mk span (.conditionalExpression test consequent alternate))
  | sequence {span expressions} : (∀ n ∈ expressions.head?, StartsInOrder n) →
    StartsInOrder (.mk span (.sequenceExpression expressions))
  | call {span callee arguments isOptional} : StartsInOrder callee →
    StartsInOrder (.mk span (.callExpression callee arguments isOptional))
  | member {span object member isComputed isOptional} : StartsInOrder object →
    StartsInOrder (.mk span (.memberExpression object member isComputed isOptional))

-- The node may be printed in its place as the first thing, or behind an operator that is a word.
structure MayStart (n : Node) (p : Place) (w : Writer) : Prop where
  atStart   : w.IsAtStart
  statement : w.written = [] → p.encloses n.form ∨ n.startsLikeStatement = false
  empty     : n.form = .sequenceExpression [] → p.encloses n.form

section

variable {n m : Node} {p : Place} {w : Writer}

namespace MayStart

-- A construct that prints nothing before its first part hands down what it may.
theorem first {least : Nat} {isEnclosed isBeforeIn : Bool} (h : MayStart n p w)
    (hp : p.encloses n.form = false) (hl : 0 < least)
    (hm : n.startsLikeStatement = m.startsLikeStatement) : MayStart m { least, isEnclosed, isBeforeIn } w where
  atStart := h.atStart
  statement hnil := .inr (hm ▸ (h.statement hnil).resolve_left (by simp [hp]))
  empty hm := by simp [hm, Place.encloses, Form.precedence, Precedence.sequence, hl]

theorem behind (h : MayStart n p w) (hp : p.encloses n.form = false) (hn : n.startsLikeStatement) :
    ∃ k, w.IsBehind k := by
  cases h.atStart
  case fresh hw => exact (h.statement hw.text).elim (by simp [hp]) (by simp [hn])
  case behind k hw => exact ⟨k, hw⟩

theorem behindWord {least : Nat} {isEnclosed isBeforeIn : Bool} {k : Keyword} (hw : w.IsBehind k)
    (hl : 0 < least) : MayStart m { least, isEnclosed, isBeforeIn } w where
  atStart := .behind hw
  statement hnil := absurd (hnil ▸ hw.text) (by simpa using k.isPrintable.nonempty.symm)
  empty hm := by simp [hm, Place.encloses, Form.precedence, Precedence.sequence, hl]

-- Parentheses settle everything.
theorem ready_of_bare (h : MayStart n p w)
    (hbare : p.encloses n.form = false → (emitForm p.isBeforeIn p.isHead n.form w).IsReady) :
    (n.emit p w).IsReady := by
  obtain ⟨span, form⟩ := n
  cases hp : p.encloses form
  case true =>
    rw [Node.emit, if_pos hp]
    exact .inl ((h.atStart.paren.emitForm _ _ _).write _)
  case false =>
    rw [emit_eq_of_not_encloses hp]
    exact hbare hp

end MayStart

-- The edge is followed down to what is printed first.
theorem StartsInOrder.emit_ready (h : StartsInOrder n) (hn : MayStart n p w) : (n.emit p w).IsReady := by
  induction h generalizing p w
  all_goals
    refine hn.ready_of_bare fun hp => ?_
    have hw := hn.atStart
  case identifier t ht hk =>
    obtain ⟨hspelled, hsign⟩ := ht.word (by simp [Token.isWord, hk, TokenKind.isWord])
    have hkind : (Scanner.word t.value.toList).kind = t.kind := (congrArg Sign.kind (hsign false)).symm
    exact hw.word ⟨hspelled, by rw [hkind, hk]; rfl⟩
  case literal ht hk => exact hw.literal ht hk _
  case this => exact hw.word ⟨⟨_, _, rfl, by decide, by decide⟩, rfl⟩
  case array elements =>
    have hbracket : (w.write "[").IsSettled := hw.operator .leftBracket rfl (by decide) (by decide)
    have helements := hbracket.emitElements { least := Precedence.assignment, isBeforeIn := p.isBeforeIn }
      true elements
    simp only [Node.form, emitForm]
    refine .inl (IsSettled.write ?_ _)
    split
    case isTrue => exact helements.write _
    case isFalse => exact helements
  case object =>
    obtain ⟨k, hk⟩ := hn.behind hp (by simp [Node.startsLikeStatement])
    have hbrace : (w.write "\x7b").IsSettled := hk.write rfl (.inr (by decide))
    exact .inl ((hbrace.emitItems _ _ _).write _)
  case function =>
    obtain ⟨k, hk⟩ := hn.behind hp (by simp [Node.startsLikeStatement])
    exact .inl (hk.function _ _ (emitOption_keeps fun n _ => IsSettled.emit_keeps n _)
      (emitItems_keeps IsSettled.isKept true fun n _ => IsSettled.emit_keeps n _) (IsSettled.emit_keeps _ _))
  case construction =>
    have hnew : ((w.write Keyword.newWord.spelling).space).IsSettled :=
      (hw.keyword rfl).elim (·.space) (·.space)
    exact .inl (((hnew.emit _ _).write _).emitItems _ _ _ |>.write _)
  case unary op _ argument _ ih =>
    cases hop : op.isWord
    case false =>
      have hmark : (w.write op.spelling).IsSettled := by
        cases op
        case plus => exact hw.operator .plus rfl (by decide) (by decide)
        case minus => exact hw.operator .minus rfl (by decide) (by decide)
        case tilde => exact hw.operator .tilde rfl (by decide) (by decide)
        case bang => exact hw.operator .bang rfl (by decide) (by decide)
        all_goals cases hop
      exact .inl (hmark.emit _ _)
    case true =>
      obtain ⟨k, hspelling, hk⟩ := UnaryOperator.exists_keyword hop
      have hword := hw.keyword hk
      rw [← hspelling] at hword
      rcases hword with hsettled | hbehind
      · exact .inl (hsettled.emit _ _)
      · exact ih hop (.behindWord hbehind (by decide))
  case update op isPrefix argument _ ih =>
    cases isPrefix
    case true =>
      have hmark : (w.write op.spelling).IsSettled := by
        cases op
        case increment => exact hw.operator .increment rfl (by decide) (by decide)
        case decrement => exact hw.operator .decrement rfl (by decide) (by decide)
      exact .inl (hmark.emit _ _)
    case false =>
      have hargument : (argument.emit { least := Precedence.call, isBeforeIn := p.isBeforeIn } w).IsReady :=
        ih rfl (hn.first hp (by decide) (by simp [Node.startsLikeStatement]))
      have hmark {v : Writer} (h : v.IsReady) : (v.write op.spelling).IsSettled := by
        cases op
        case increment => exact h.operator .increment rfl (by decide)
        case decrement => exact h.operator .decrement rfl (by decide)
      exact .inl (hmark hargument)
  case binary left op _ hop _ ih =>
    let place : Place :=
      { least := op.level.getD (Precedence.conditional + 1)
        isEnclosed := op == .slash && left.endsWithBrace
        isBeforeIn := p.isBeforeIn }
    have hleft : (left.emit place w).IsReady :=
      ih (hn.first hp (by cases op <;> decide) (by simp [Node.startsLikeStatement]))
    refine .inl ((hleft.infixOperator ?_).emit _ _)
    rintro rfl
    cases hop
  case assignment op left _ hop _ ih =>
    have hleft : (left.emit { least := Precedence.call, isBeforeIn := p.isBeforeIn } w).IsReady :=
      ih (hn.first hp (by decide) (by simp [Node.startsLikeStatement]))
    refine .inl ((hleft.infixOperator ?_).emit _ _)
    rintro rfl
    cases hop
  case conditional test _ _ _ ih =>
    have htest : (test.emit { least := Precedence.conditional + 1, isBeforeIn := p.isBeforeIn } w).IsReady :=
      ih (hn.first hp (by decide) (by simp [Node.startsLikeStatement]))
    have hquestion : (infixOperator Operator.question.spelling _).IsSettled := htest.infixOperator (by decide)
    exact .inl (((hquestion.emit _ _).infixOperator .colon).emit _ _)
  case sequence expressions _ ih =>
    rcases expressions with _ | ⟨e, es⟩
    case nil => exact absurd (hn.empty rfl) (by simp [hp])
    case cons =>
      have hfirst : (e.emit { least := Precedence.assignment, isBeforeIn := p.isBeforeIn } w).IsReady :=
        ih e rfl (hn.first hp (by decide) (by simp [Node.startsLikeStatement, Node.firstStartsLikeStatement]))
      cases es
      case nil => exact hfirst
      case cons =>
        have hcomma : (write "," _).IsSettled := hfirst.operator .comma rfl (by decide)
        exact .inl ((hcomma.optionalSpace.emit _ _).emitItems _ _ _)
  case call callee arguments _ _ ih =>
    have hcallee : (callee.emit { least := Precedence.call, isBeforeIn := p.isBeforeIn } w).IsReady :=
      ih (hn.first hp (by decide) (by simp [Node.startsLikeStatement]))
    have hparen : (write "(" _).IsSettled := hcallee.operator .leftParen rfl (by decide)
    exact .inl ((hparen.emitItems _ _ _).write _)
  case member object member _ _ _ ih =>
    let place : Place :=
      { least := Precedence.call, isEnclosed := isNumberLiteral object, isBeforeIn := p.isBeforeIn }
    have hobject : (object.emit place w).IsReady :=
      ih (hn.first hp (by decide) (by simp [Node.startsLikeStatement]))
    have hdot : (write "." _).IsSettled := hobject.operator .dot rfl (by decide)
    have hbracket : (write "[" _).IsSettled := hobject.operator .leftBracket rfl (by decide)
    have hquote : (write "[\"" _).IsSettled := hobject.mark rfl (by decide) (by decide) (by decide) (by decide)
    simp only [Node.form, emitForm]
    refine .inl ?_
    split
    case h_1 => exact hdot.write _
    case h_2 => exact (hquote.write _).write _
    case h_3 => exact (hbracket.emit _ _).write _
    case h_4 => exact hdot.emit _ _

end

/-! ### What is read -/

section

variable {α β : Type} {g : Grammar} {scope : JumpScope} {c c' : Cursor}

theorem Rule.exists_of_run_bind {r : Rule α} {f : α → Rule β} {x : β × Cursor}
    (h : (r >>= f).run c = .ok x) : ∃ a c', r.run c = .ok (a, c') ∧ (f a).run c' = .ok x := by
  rw [StateT.run_bind] at h
  rcases hr : r.run c with _ | ⟨a, c'⟩
  case error => simp [hr, Bind.bind, Except.bind] at h
  case ok =>
    rw [hr] at h
    exact ⟨a, c', rfl, h⟩

theorem Grammar.expressionStatement_type {n : Node} (h : g.expressionStatement.run c = .ok (n, c')) :
    n.type = .expressionStatement := by
  rw [expressionStatement, Rule.Follows.run_read (x := Rule.start) fun _ => rfl] at h
  obtain ⟨e, d, -, h⟩ := Rule.exists_of_run_bind h
  obtain ⟨_, d', -, h⟩ := Rule.exists_of_run_bind h
  rw [Rule.Follows.run_read (x := Rule.spanFrom _) fun _ => rfl] at h
  cases h
  rfl

-- A round reads one statement, unless nothing is left.
theorem Grammar.statements_loop {limit : Nat} {body ns : List Node}
    (h : (Rule.loop limit (fun body => do
      if ← Rule.isAtEnd then return .finish body
      else return .again (body ++ [← g.statement scope])) body).run c = .ok (ns, c')) :
    c.isAtEnd ∧ ns = body ∨ ∃ n d ms, (g.statement scope).run c = .ok (n, d) ∧ ns = body ++ n :: ms := by
  induction limit generalizing body c
  case zero => cases h
  case succ limit ih =>
    obtain ⟨r, d, hround, h⟩ := Rule.exists_of_run_bind h
    rw [Rule.Follows.run_read (x := Rule.isAtEnd) fun _ => rfl] at hround
    split at hround
    case isTrue hend =>
      cases hround
      cases h
      exact .inl ⟨hend, rfl⟩
    case isFalse =>
      obtain ⟨n, d, hn, hround⟩ := Rule.exists_of_run_bind hround
      cases hround
      refine .inr ⟨n, d, ?_⟩
      rcases ih h with ⟨-, rfl⟩ | ⟨m, _, ms, -, rfl⟩
      · exact ⟨[], hn, rfl⟩
      · exact ⟨m :: ms, hn, by simp⟩

theorem parse_of_startsExpression {options : ParseOptions} {tokens : List Token} {tree : Node}
    (hs : StartsExpression (Token.signs false tokens)) (h : parse options tokens = .ok tree) :
    ∃ span n ns, tree = .mk span (.program (n :: ns) options.sourceType) ∧ n.type = .expressionStatement := by
  obtain ⟨s, us, hsigns, hend, hopens, hname⟩ := hs
  have hc : (Cursor.ofTokens tokens).Shows (s :: us) := hsigns ▸ Cursor.ofTokens_shows tokens
  unfold parse at h
  split at h
  case h_1 body d hrun =>
    cases h
    rcases Grammar.statements_loop hrun with ⟨hatEnd, -⟩ | ⟨n, d, ms, hn, rfl⟩
    · exact absurd (hc.kind ▸ beq_iff_eq.mp hatEnd) hend
    · have hrule : ((Grammar.ofDepth (3 * tokens.length + 2)).statementRule _).run _ = .ok (n, d) := hn
      rw [statementRule_run hc hopens hname] at hrule
      exact ⟨_, n, ms, rfl, Grammar.expressionStatement_type hrule⟩
  all_goals cases h

end

/-! ### Statements -/

theorem Writer.IsSettled.startsExpression {w : Writer} (h : w.IsSettled) :
    StartsExpression (Token.signs false (Token.ofSource w.text true)) := by
  have htext : w.text.toList = w.written.reverse := String.toList_ofList
  have hall := h [] nofun [] 0 w.text.toList.length w.text.utf8ByteSize (by simp [htext])
  rw [List.append_nil, ← htext] at hall
  rw [Token.ofSource, fillPositions, Token.signs_placeTokens]
  exact hall

-- Where nothing is printed for the expression, the terminator is a statement of its own.
theorem print_expressionStatement_of_empty {span span' : Span} {style : PrintOptions} (h : style.encloses = false) :
    (Node.mk span (.expressionStatement (.mk span' (.sequenceExpression [])))).print style = ";" := by
  obtain ⟨isSpaced, memberStyle, encloses, indentWidth⟩ := style
  cases h
  cases isSpaced <;> rfl

theorem parse_semicolon (options : ParseOptions) : parse options (Token.ofSource ";" true) =
    .ok (.mk ⟨0, 1⟩ (.program [.mk ⟨0, 1⟩ .emptyStatement] options.sourceType)) := by
  obtain ⟨allowsReturn, sourceType⟩ := options
  cases allowsReturn <;> rfl

theorem startsExpression_print {e : Node} {style : PrintOptions} (h : StartsInOrder e) (span : Span)
    (he : style.encloses ∨ e.form ≠ .sequenceExpression []) :
    StartsExpression (Token.signs false
      (Token.ofSource ((Node.mk span (.expressionStatement e)).print style) true)) := by
  let isEnclosed := style.encloses || e.startsLikeStatement
  have hstart : MayStart e { isEnclosed } { options := style } := by
    refine ⟨.fresh ⟨rfl, rfl⟩, fun _ => ?_, fun hempty => ?_⟩
    · cases hs : e.startsLikeStatement
      case true => exact .inl (by simp [Place.encloses, isEnclosed, hs])
      case false => exact .inr rfl
    · simp [Place.encloses, isEnclosed, he.resolve_right (absurd hempty)]
  have hready := h.emit_ready hstart
  have hsemicolon : (write ";" _).IsSettled := hready.operator .semicolon rfl (by decide)
  exact hsemicolon.newline.startsExpression

-- Whatever the expression is and however it is printed, its statement does not start as a block, a function
-- or a label does, and is not read as one.
theorem print_expressionStatement {e : Node} {span : Span} {style : PrintOptions} (h : StartsInOrder e) :
    let tokens := Token.ofSource ((Node.mk span (.expressionStatement e)).print style) true
    StartsPlainly (Token.signs false tokens) ∧
      ∀ options tree, parse options tokens = .ok tree → ∃ span' n ns,
        tree = .mk span' (.program (n :: ns) options.sourceType) ∧
          (n.type = .expressionStatement ∨ e.form = .sequenceExpression [] ∧ n.type = .emptyStatement) := by
  by_cases he : style.encloses ∨ e.form ≠ .sequenceExpression []
  case pos =>
    have hstarts := startsExpression_print h span he
    refine ⟨hstarts.startsPlainly, fun options tree htree => ?_⟩
    obtain ⟨span', n, ns, rfl, hn⟩ := parse_of_startsExpression hstarts htree
    exact ⟨span', n, ns, rfl, .inl hn⟩
  case neg =>
    obtain ⟨hencloses, hempty⟩ := not_or.mp he
    obtain ⟨span', form⟩ := e
    obtain rfl : form = .sequenceExpression [] := not_not.mp hempty
    rw [print_expressionStatement_of_empty (by simpa using hencloses)]
    refine ⟨⟨_, _, rfl, by decide, by decide, nofun⟩, fun options tree htree => ?_⟩
    rw [parse_semicolon] at htree
    cases htree
    exact ⟨_, _, _, rfl, .inr ⟨rfl, rfl⟩⟩

-- A sequence that starts with an object, four constructs down the edge.
theorem print_expressionStatement_object :
    let target : Node := .mk Node.nowhere (.memberExpression (.mk Node.nowhere (.objectExpression []))
      (.mk Node.nowhere (.identifier "x")) false false)
    let e : Node := .mk Node.nowhere (.sequenceExpression
      [.mk Node.nowhere (.assignmentExpression .assign target (.mk Node.nowhere (.literal .number "1"))),
        .mk Node.nowhere (.identifier "y")])
    let text := (Node.mk Node.nowhere (.expressionStatement e)).print { isSpaced := true }
    StartsInOrder e ∧ text = "(\x7b\x7d.x = 1, y);" ∧ StartsPlainly (Token.signs false (Token.ofSource text true)) := by
  intro target e text
  have he : StartsInOrder e := .sequence fun n hn => by
    cases hn
    exact .assignment rfl (.member .object)
  exact ⟨he, by decide, (print_expressionStatement he).1⟩

end ScriptTree
