import ScriptTree.Proofs.Parse.Follows.Statement
import ScriptTree.Proofs.Parse.Role
import ScriptTree.Proofs.Parse.Spells.Expression
import ScriptTree.Proofs.Parse.Spells.Primary

/-!
Signs that are read as a statement, whatever stands behind it that may.
-/

namespace ScriptTree

open Node Rule Grammar

-- May the sign stand behind the statement without being taken for a part of it?
structure Node.Precedes (n : Node) (s : Sign) : Prop where
  finallyWord : s.kind ≠ .keyword .finallyWord
  semicolon   : n.endsWithTerminator → s.kind ≠ .operator .semicolon
  elseWord    : n.endsWithOpenIf → s.kind ≠ .keyword .elseWord

-- Can a statement start with a token of this kind?
def TokenKind.startsStatement (k : TokenKind) : Bool :=
  k.startsExpression || match k with
    | .keyword k =>
      [.varWord, .letWord, .constWord, .ifWord, .switchWord, .whileWord, .forWord, .doWord, .breakWord,
        .continueWord, .returnWord, .throwWord, .tryWord, .withWord, .debuggerWord].contains k
    | .operator op => op == .semicolon
    | _ => false

structure IsStated (scope : JumpScope) (n : Node) (ts : List Sign) : Prop where
  starts : ∃ s us, ts = s :: us ∧ s.kind.startsStatement ∧
    (s.kind = .operator .semicolon → n.type = .emptyStatement)
  reads  : ∀ ⦃d s rest c⦄, n.Precedes s → c.Shows (ts ++ s :: rest) →
    3 * (ts ++ s :: rest).length + 2 ≤ d → Reads bare (statementWithin d scope) c n.bare (s :: rest)

section

variable {scope : JumpScope} {n : Node} {ts us : List Sign} {span span' : Span}

theorem isStated_of (hstarts : ∃ s us, ts = s :: us ∧ s.kind.startsStatement ∧
      (s.kind = .operator .semicolon → n.type = .emptyStatement))
    (h : ∀ ⦃d s rest c⦄, n.Precedes s → c.Shows (ts ++ s :: rest) →
      3 * (ts ++ s :: rest).length + 1 ≤ d → Reads bare ((ofDepth d).statementRule scope) c n.bare (s :: rest)) :
    IsStated scope n ts := by
  refine ⟨hstarts, fun d s rest c hs hc hd => ?_⟩
  obtain ⟨d, rfl⟩ := Nat.exists_eq_add_one_of_ne_zero (n := d) (by omega)
  exact h hs hc (by omega)

-- The end of a statement that has a terminator.
theorem terminated_reads {start : Nat} {form form' : Form Node} {s : Sign} {rest : List Sign} {c : Cursor}
    {b : Bool} (hc : c.Shows (.op .semicolon b :: s :: rest)) (hs : s.kind ≠ .operator .semicolon)
    (h : form'.map bare = form.map bare) :
    Reads bare (do terminator; return .mk (← spanFrom start) form') c (Node.bare (.mk span form))
      (s :: rest) :=
  .terminator hc rfl hs fun _ hc => spanned_reads hc h

theorem parenthesized_reads {rest : List Sign} {c : Cursor} {d : Nat} {b b' : Bool}
    (h : IsRead true true n ts)
    (hc : c.Shows (.op .leftParen b :: (ts ++ .op .rightParen b' :: rest)))
    (hd : 3 * (.op .leftParen b :: (ts ++ .op .rightParen b' :: rest) : List Sign).length ≤ d + 2) :
    Reads bare (ofDepth d).parenthesized c n.bare rest := by
  refine .expecting hc rfl (by simp) fun c hc => ?_
  refine (h.reads ?_ hc ?_).bind fun a c ha hc => ?_
  · exact Sign.ends_op rfl (by simp)
  · simp at hd ⊢
    omega
  · exact .expecting hc rfl (by simp) fun c hc => .pure hc ha

/-! ### Expressions and declarations -/

-- Does a token of this kind start a statement that is no expression?
def TokenKind.opensStatement : TokenKind → Bool
  | .keyword k =>
    [.varWord, .letWord, .constWord, .ifWord, .switchWord, .whileWord, .forWord, .doWord, .breakWord,
      .continueWord, .functionWord, .returnWord, .throwWord, .tryWord, .withWord, .debuggerWord].contains k
  | .operator op => op == .leftBrace || op == .semicolon
  | _ => false

-- A name in front of these signs is neither a label nor what makes a function asynchronous.
def LeaveName (ts : List Sign) : Prop :=
  ∃ t us, ts = t :: us ∧ t.kind ≠ .operator .colon ∧ t.kind ≠ .keyword .functionWord

-- Two signs decide that a statement is an expression.
theorem statementRule_run {g : Grammar} {s : Sign} {rest : List Sign} {c : Cursor}
    (hc : c.Shows (s :: rest)) (hs : s.kind.opensStatement = false)
    (hname : s.kind = .identifier → LeaveName rest) :
    (g.statementRule scope).run c = g.expressionStatement.run c := by
  have hkind := hc.kind
  rw [statementRule, Follows.run_read (x := Rule.current) fun _ => rfl]
  cases hk : s.kind
  case identifier =>
    obtain ⟨t, us, rfl, hcolon, hfunction⟩ := hname hk
    have hasync : startsAsyncFunction c = false := by
      simp [startsAsyncFunction, hc.following, hfunction]
    simp only [hkind, hk]
    rw [Follows.run_get_ite, hasync, if_neg Bool.false_ne_true, namedStatement_run scope (hkind.trans hk),
      if_neg]
    rw [startsLabel, (hc.advance (by simp [hk])).kind, beq_iff_eq]
    exact hcolon
  case keyword w =>
    rw [hk] at hs
    cases w <;> first
      | exact absurd hs (by decide)
      | simp only [hkind, hk]
  case operator o =>
    rw [hk] at hs
    cases o <;> first
      | exact absurd hs (by decide)
      | simp only [hkind, hk]
  all_goals simp only [hkind, hk]

-- An expression that is not taken for another statement.
def StartsPlainly (ts : List Sign) : Prop :=
  ∃ s us, ts = s :: us ∧ s.kind ≠ .keyword .functionWord ∧ s.kind ≠ .operator .leftBrace ∧
    (s.kind = .identifier → ∀ t ∈ us.head?, t.kind ≠ .operator .colon ∧ t.kind ≠ .keyword .functionWord)

theorem expressionStatement_reads {s : Sign} {rest : List Sign} {c : Cursor} {d : Nat} {b : Bool}
    (h : IsRead true true n ts) (hs : s.kind ≠ .operator .semicolon)
    (hc : c.Shows (ts ++ .op .semicolon b :: s :: rest))
    (hd : 3 * (ts ++ .op .semicolon b :: s :: rest).length + 1 ≤ d) :
    Reads bare (ofDepth d).expressionStatement c (Node.bare (.mk span (.expressionStatement n)))
      (s :: rest) := by
  refine .start fun start => (h.reads (Sign.ends_op rfl (by simp)) hc hd).bind fun a c ha hc => ?_
  exact terminated_reads hc hs (by simp [Form.map, ha])

theorem TokenKind.opensStatement_eq_false {kind : TokenKind} (h : kind.startsExpression)
    (hfunction : kind ≠ .keyword .functionWord) (hbrace : kind ≠ .operator .leftBrace) :
    kind.opensStatement = false := by
  cases kind
  case keyword w => cases w <;> first | rfl | exact absurd rfl hfunction | cases h
  case operator o => cases o <;> first | rfl | exact absurd rfl hbrace | cases h
  all_goals rfl

theorem isStated_expression {b : Bool} (h : IsRead true true n ts) (hp : StartsPlainly ts) :
    IsStated scope (.mk span (.expressionStatement n)) (ts ++ [.op .semicolon b]) := by
  obtain ⟨t, us, rfl, hfunction, hbrace, hcolon⟩ := hp
  obtain ⟨_, _, hts, ht⟩ := h.starts
  obtain ⟨rfl, rfl⟩ := List.cons.inj hts
  refine isStated_of ⟨t, _, rfl, by simp [TokenKind.startsStatement, ht], fun hk => ?_⟩ ?_
  · simp [hk, TokenKind.startsExpression] at ht
  · intro d s rest c hs hc hd
    simp only [List.append_assoc, List.cons_append, List.nil_append] at hc hd
    have hname : t.kind = .identifier → LeaveName (us ++ .op .semicolon b :: s :: rest) := by
      intro hk
      cases us
      case nil => exact ⟨_, _, rfl, by simp, by simp⟩
      case cons u us => exact ⟨u, _, rfl, hcolon hk u rfl⟩
    exact (expressionStatement_reads h (hs.semicolon rfl) hc hd).congr_run
      (statementRule_run hc (TokenKind.opensStatement_eq_false ht hfunction hbrace) hname)

theorem isStated_empty {b : Bool} : IsStated scope (.mk span .emptyStatement) [.op .semicolon b] := by
  refine isStated_of ⟨_, _, rfl, rfl, fun _ => rfl⟩ fun d s rest c hs hc hd => .current ?_
  simp only [hc.kind, Sign.op_kind]
  exact .advance_bind hc (by simp) fun c' hc' => .pure hc' (by simp [bare_mk])

theorem isStated_debugger {b b' : Bool} :
    IsStated scope (.mk span .debuggerStatement) [.keyword .debuggerWord b, .op .semicolon b'] := by
  refine isStated_of ⟨_, _, rfl, by simp; rfl, by simp⟩ fun d s rest c hs hc hd => .current ?_
  simp only [hc.kind, Sign.keyword_kind]
  exact .start fun start => .expecting hc (by simp) (by simp) fun c hc =>
    terminated_reads hc (hs.semicolon rfl) rfl

theorem isStated_throw {b b' : Bool} (h : IsRead true true n ts) :
    IsStated scope (.mk span (.throwStatement n))
      (.keyword .throwWord b :: (ts ++ [.op .semicolon b'])) := by
  refine isStated_of ⟨_, _, rfl, by simp; rfl, by simp⟩ fun d s rest c hs hc hd => .current ?_
  simp only [hc.kind, Sign.keyword_kind]
  simp only [List.cons_append, List.append_assoc, List.nil_append] at hc hd
  refine .start fun start => .expecting hc (by simp) (by simp) fun c hc => ?_
  refine (h.reads (Sign.ends_op rfl (by simp)) hc (by simp at hd ⊢; omega)).bind fun a c ha hc => ?_
  exact terminated_reads hc (hs.semicolon rfl) (by simp [Form.map, ha])

def IsDeclarator (kind : VariableKind) (joinsIn : Bool) (n : Node) (ts : List Sign) : Prop :=
  ∃ span id init us vs, n = .mk span (.variableDeclarator id init) ∧ ts = us ++ vs ∧ IsName id us ∧
    (kind = .constant → init.isSome) ∧
    Maybe (fun n vs => ∃ b ws, vs = .op .assign b :: ws ∧ IsRead false joinsIn n ws) init vs

-- The word that starts a declaration of this kind.
def VariableKind.toKeyword : VariableKind → Keyword
  | var => .varWord
  | lexical => .letWord
  | constant => .constWord

def IsDeclaration (joinsIn : Bool) (n : Node) (ts : List Sign) : Prop :=
  ∃ span m ms kind b us, n = .mk span (.variableDeclaration (m :: ms) kind) ∧
    ts = .keyword kind.toKeyword b :: us ∧ Listed (IsDeclarator kind joinsIn) (m :: ms) us

theorem declarator_reads {kind : VariableKind} {joinsIn b : Bool} {operator : Operator}
    {rest : List Sign} {c : Cursor} {d : Nat} (h : IsDeclarator kind joinsIn n ts)
    (hop : operator.closes) (hc : c.Shows (ts ++ .op operator b :: rest))
    (hd : 3 * (ts ++ .op operator b :: rest).length + 1 ≤ d) :
    Reads bare ((ofDepth d).declarator kind joinsIn) c n.bare (.op operator b :: rest) := by
  obtain ⟨span, id, init, us, vs, rfl, rfl, hid, hconstant, hinit⟩ := h
  rw [List.append_assoc] at hc hd
  refine (name_reads hid hc).bind fun id' c hid' hc => ?_
  -- What is done with the parts, once they are read.
  have hlast {init' : Option Node} {c : Cursor} (hinit : init'.map bare = init.map bare)
      (hc : c.Shows (.op operator b :: rest)) : Reads bare (do
        if kind == .constant && init'.isNone then
          fail (.atToken (.missingInitializer (id'.identifierName?.getD "")) (← current))
        else return .mk ⟨id'.span.start, (← get).lastStop⟩ (.variableDeclarator id' init')) c
      (Node.bare (.mk span (.variableDeclarator id init))) (.op operator b :: rest) := by
    have hsome : (kind == .constant && init'.isNone) = false := by
      rw [isNone_of_map_bare hinit]
      cases init <;> simp_all
    rw [hsome]
    exact .read (fun _ => rfl) (.pure hc (by simp [bare_mk, Form.map, hid', hinit]))
  cases init
  case none =>
    obtain rfl : vs = [] := hinit
    refine .accept_ite_of_ne hc ?_ (hlast rfl hc)
    rintro h
    cases h
    cases hop
  case some init =>
    obtain ⟨b', ws, rfl, hinit⟩ := hinit
    refine .accept_ite_of_eq hc rfl (by simp) fun c hc => .map_bind ?_
    refine (hinit.reads (Sign.ends_op hop (by simp)) hc (by simp at hd ⊢; omega)).bind fun a c ha hc => ?_
    exact hlast (congrArg some ha) hc

theorem declarationKind?_keyword {c : Cursor} {kind : VariableKind} {b : Bool} {ss : List Sign}
    (hc : c.Shows (.keyword kind.toKeyword b :: ss)) : declarationKind? c.current = some kind := by
  rw [declarationKind?, hc.kind, Sign.keyword_kind]
  cases kind <;> rfl

theorem declaration_reads {joinsIn b : Bool} {rest : List Sign} {c : Cursor} {d : Nat}
    (h : IsDeclaration joinsIn n ts) (hc : c.Shows (ts ++ .op .semicolon b :: rest))
    (hd : 3 * (ts ++ .op .semicolon b :: rest).length ≤ d) :
    Reads bare ((ofDepth d).variableDeclaration joinsIn) c n.bare (.op .semicolon b :: rest) := by
  obtain ⟨span, m, ms, kind, b', us, rfl, rfl, hms⟩ := h
  refine .start fun start => .current ?_
  simp only [declarationKind?_keyword hc]
  rw [List.cons_append] at hc hd
  refine .skip_bind hc (by simp) fun c hc => ?_
  refine Reads.bind (e := List.map bare) (loop_listed_cons (us ++ .op .semicolon b :: rest).length
    (fun ns n ts c hn hc hb => ?_) (fun ns n n' ts ts' b vs c hn hn' hc hb => ?_) hms hc
    (Nat.le_refl _) ?_) fun ns c hns hc => spanned_reads hc (by simpa [Form.map] using hns)
  · refine (declarator_reads hn rfl hc (by simp at hb hd ⊢; omega)).bind fun n c hn hc => ?_
    exact .accept_ite_of_ne hc (by simp) (.pure hc (by simp [Round.map, hn]))
  · refine (declarator_reads hn rfl hc (by simp at hb hd ⊢; omega)).bind fun n c hn hc => ?_
    exact .accept_ite_of_eq hc rfl (by simp) fun c hc => .pure hc (by simp [Round.map, hn])
  · change _ < d
    simp at hd
    omega

theorem isStated_declaration {b : Bool} (h : IsDeclaration true n ts) :
    IsStated scope n (ts ++ [.op .semicolon b]) := by
  obtain ⟨span, m, ms, kind, b', us, rfl, rfl, hms⟩ := id h
  refine isStated_of ⟨_, _, rfl, by cases kind <;> simp <;> rfl, by simp⟩ fun d s rest c hs hc hd =>
    .current ?_
  simp only [List.append_assoc, List.cons_append, List.nil_append] at hc hd
  have hrule : Reads bare (ofDepth d).declarationStatement c
      (Node.bare (.mk span (.variableDeclaration (m :: ms) kind))) (s :: rest) := by
    refine (declaration_reads h hc (by simp at hd ⊢; omega)).bind fun a c ha hc => ?_
    refine .terminator hc rfl (hs.semicolon rfl) fun c hc => .spanFrom fun span' => .pure hc ?_
    exact withSpan_of_bare (n := .mk span (.variableDeclaration (m :: ms) kind)) ha span span'
  cases kind <;> simpa only [hc.kind, Sign.keyword_kind, VariableKind.toKeyword] using hrule

/-! ### Branches and loops -/

-- Where a statement ends with another one, what may follow it may follow that.
theorem Node.Precedes.last {m : Node} {s : Sign} (h : n.Precedes s)
    (ht : n.endsWithTerminator = m.endsWithTerminator) (hi : m.endsWithOpenIf → n.endsWithOpenIf) :
    m.Precedes s :=
  ⟨h.finallyWord, fun hm => h.semicolon (ht ▸ hm), fun hm => h.elseWord (hi hm)⟩

theorem Node.precedes_keyword {k : Keyword} {b : Bool} (hf : k ≠ .finallyWord)
    (he : n.endsWithOpenIf → k ≠ .elseWord) : n.Precedes (.keyword k b) :=
  ⟨by simpa using hf, by simp, by simpa using he⟩

def IsElse (scope : JumpScope) (n : Node) (ts : List Sign) : Prop :=
  ∃ b us, ts = .keyword .elseWord b :: us ∧ IsStated scope n us

theorem isStated_if {consequent : Node} {alternate : Option Node} {vs ws : List Sign} {b b' b'' : Bool}
    (hopen : alternate.isSome → ¬consequent.endsWithOpenIf) (htest : IsRead true true n us)
    (hconsequent : IsStated scope consequent vs) (halternate : Maybe (IsElse scope) alternate ws) :
    IsStated scope (.mk span (.ifStatement n consequent alternate))
      (.keyword .ifWord b :: .op .leftParen b' :: (us ++ .op .rightParen b'' :: (vs ++ ws))) := by
  refine isStated_of ⟨_, _, rfl, by simp; rfl, by simp⟩ fun d s rest c hs hc hd => .current ?_
  simp only [hc.kind, Sign.keyword_kind]
  simp only [List.cons_append, List.append_assoc, List.length_cons, List.length_append] at hc hd
  refine .start fun start => .expecting hc (by simp) (by simp) fun c hc => ?_
  refine (parenthesized_reads htest hc (by simp; omega)).bind fun test c htest hc => ?_
  cases alternate
  case none =>
    obtain rfl : ws = [] := halternate
    have hprecedes : consequent.Precedes s := hs.last (by
      simp [Node.endsWithTerminator, Node.branchEndsWithTerminator])
      (by simp [Node.endsWithOpenIf, Node.isOpen])
    refine (hconsequent.reads hprecedes hc (by simp; omega)).bind fun m c hm hc => ?_
    refine .accept_ite_of_ne hc (hs.elseWord (by simp [Node.endsWithOpenIf, Node.isOpen])) ?_
    exact spanned_reads hc (by simp [Form.map, htest, hm])
  case some alternate =>
    obtain ⟨b, ws, rfl, halternate⟩ := halternate
    have hprecedes : consequent.Precedes (.keyword .elseWord b) :=
      Node.precedes_keyword (by simp) fun h => absurd h (hopen rfl)
    refine (hconsequent.reads hprecedes hc (by simp at hd ⊢; omega)).bind fun m c hm hc => ?_
    refine .accept_ite_of_eq hc (by simp) (by simp) fun c hc => .map_bind ?_
    have hlast : alternate.Precedes s := hs.last
      (by simp [Node.endsWithTerminator, Node.branchEndsWithTerminator])
      (by simp [Node.endsWithOpenIf, Node.isOpen])
    refine (halternate.reads hlast hc (by simp at hd ⊢; omega)).bind fun m' c hm' hc => ?_
    exact spanned_reads hc (by simp [Form.map, htest, hm, hm'])

theorem isStated_while {body : Node} {vs : List Sign} {b b' b'' : Bool} (htest : IsRead true true n us)
    (hbody : IsStated scope.inLoop body vs) :
    IsStated scope (.mk span (.whileStatement n body))
      (.keyword .whileWord b :: .op .leftParen b' :: (us ++ .op .rightParen b'' :: vs)) := by
  refine isStated_of ⟨_, _, rfl, by simp; rfl, by simp⟩ fun d s rest c hs hc hd => .current ?_
  simp only [hc.kind, Sign.keyword_kind]
  simp only [List.cons_append, List.append_assoc, List.length_cons, List.length_append] at hc hd
  refine .start fun start => .expecting hc (by simp) (by simp) fun c hc => ?_
  refine (parenthesized_reads htest hc (by simp; omega)).bind fun test c htest hc => ?_
  have hlast : body.Precedes s := hs.last (by simp [Node.endsWithTerminator])
    (by simp [Node.endsWithOpenIf])
  refine (hbody.reads hlast hc (by simp; omega)).bind fun m c hm hc => ?_
  exact spanned_reads hc (by simp [Form.map, htest, hm])

theorem isStated_with {body : Node} {vs : List Sign} {b b' b'' : Bool} (hobject : IsRead true true n us)
    (hbody : IsStated scope body vs) :
    IsStated scope (.mk span (.withStatement n body))
      (.keyword .withWord b :: .op .leftParen b' :: (us ++ .op .rightParen b'' :: vs)) := by
  refine isStated_of ⟨_, _, rfl, by simp; rfl, by simp⟩ fun d s rest c hs hc hd => .current ?_
  simp only [hc.kind, Sign.keyword_kind]
  simp only [List.cons_append, List.append_assoc, List.length_cons, List.length_append] at hc hd
  refine .start fun start => .expecting hc (by simp) (by simp) fun c hc => ?_
  refine (parenthesized_reads hobject hc (by simp; omega)).bind fun object c hobject hc => ?_
  have hlast : body.Precedes s := hs.last (by simp [Node.endsWithTerminator])
    (by simp [Node.endsWithOpenIf])
  refine (hbody.reads hlast hc (by simp; omega)).bind fun m c hm hc => ?_
  exact spanned_reads hc (by simp [Form.map, hobject, hm])

theorem isStated_doWhile {body : Node} {vs : List Sign} {b b₁ b₂ b₃ b₄ : Bool}
    (hbody : IsStated scope.inLoop body vs) (htest : IsRead true true n us) :
    IsStated scope (.mk span (.doWhileStatement body n))
      (.keyword .doWord b :: (vs ++ .keyword .whileWord b₁ :: .op .leftParen b₂ ::
        (us ++ [.op .rightParen b₃, .op .semicolon b₄]))) := by
  refine isStated_of ⟨_, _, rfl, by simp; rfl, by simp⟩ fun d s rest c hs hc hd => .current ?_
  simp only [hc.kind, Sign.keyword_kind]
  simp only [List.cons_append, List.append_assoc, List.nil_append, List.length_cons,
    List.length_append] at hc hd
  refine .start fun start => .expecting hc (by simp) (by simp) fun c hc => ?_
  refine (hbody.reads (Node.precedes_keyword (by simp) (by simp)) hc (by simp; omega)).bind
    fun m c hm hc => .expecting hc (by simp) (by simp) fun c hc => ?_
  refine (parenthesized_reads htest hc (by simp; omega)).bind fun test c htest hc => ?_
  exact terminated_reads hc (hs.semicolon rfl) (by simp [Form.map, htest, hm])

/-! ### Loops with a head -/

theorem headPart_reads {part : Option Node} {closing : Operator} {rest : List Sign} {c : Cursor} {d : Nat}
    {b : Bool} (h : Maybe (IsRead true true) part us) (hclosing : closing.closes ∧ closing ≠ .comma)
    (hc : c.Shows (us ++ .op closing b :: rest))
    (hd : 3 * (us ++ .op closing b :: rest).length + 1 ≤ d) :
    Reads (Option.map bare) ((ofDepth d).headPart closing) c (part.map bare) (.op closing b :: rest) := by
  cases part
  case none =>
    obtain rfl : us = [] := h
    exact .check_ite_of_eq hc rfl (.pure hc rfl)
  case some n =>
    have h : IsRead true true n us := h
    obtain ⟨t, ts, rfl, ht⟩ := h.starts.kind_ne (Operator.startsExpression_of_closes hclosing.1)
    refine .check_ite_of_ne hc ht ?_
    exact Reads.map (h.reads (Sign.ends_op hclosing.1 fun _ => hclosing.2) hc hd) fun _ hn =>
      congrArg some hn

-- What stands for a loop behind its first part.
theorem forRest_reads {init init' test update : Option Node} {body : Node} {vs ws rest : List Sign}
    {s : Sign} {c : Cursor} {d start : Nat} {b₁ b₂ b₃ : Bool}
    (hinit : init'.map bare = init.map bare) (htest : Maybe (IsRead true true) test us)
    (hupdate : Maybe (IsRead true true) update vs) (hbody : IsStated scope.inLoop body ws)
    (hs : (Node.mk span (.forStatement init test update body)).Precedes s)
    (hc : c.Shows (.op .semicolon b₁ :: (us ++ .op .semicolon b₂ :: (vs ++ .op .rightParen b₃ ::
      (ws ++ s :: rest)))))
    (hd : 3 * (.op .semicolon b₁ :: (us ++ .op .semicolon b₂ :: (vs ++ .op .rightParen b₃ ::
      (ws ++ s :: rest))) : List Sign).length ≤ d) :
    Reads bare ((ofDepth d).forRest start init' scope) c
      (Node.bare (.mk span (.forStatement init test update body))) (s :: rest) := by
  simp only [List.length_cons, List.length_append] at hd
  refine .expecting hc rfl (by simp) fun c hc => ?_
  refine (headPart_reads htest (by decide) hc (by simp; omega)).bind fun test' c htest hc =>
    .expecting hc rfl (by simp) fun c hc => ?_
  refine (headPart_reads hupdate (by decide) hc (by simp; omega)).bind fun update' c hupdate hc =>
    .expecting hc rfl (by simp) fun c hc => ?_
  have hlast : body.Precedes s := hs.last (by simp [Node.endsWithTerminator])
    (by simp [Node.endsWithOpenIf])
  refine (hbody.reads hlast hc (by simp; omega)).bind fun m c hm hc => ?_
  exact spanned_reads hc (by simp [Form.map, hinit, htest, hupdate, hm])

-- What stands for the first part of a loop.
inductive IsLoopStart : Option Node → List Sign → Prop
  | none : IsLoopStart none []
  | declaration {n : Node} {ts : List Sign} : IsDeclaration false n ts → IsLoopStart (some n) ts
  | expression {n : Node} {ts : List Sign} : IsRead true false n ts → IsLoopStart (some n) ts

theorem declarationKind?_of_startsExpression {t : Token} (h : t.kind.startsExpression) :
    (declarationKind? t).isSome = false := by
  rw [declarationKind?]
  cases hk : t.kind
  case keyword k =>
    rw [hk] at h
    cases k <;> first | exact absurd h (by decide) | rfl
  all_goals rfl

-- Behind the first name of a declaration comes no word.
theorem startsLoopVariable_of_declaration {joinsIn b : Bool} {rest : List Sign} {c : Cursor}
    (h : IsDeclaration joinsIn n ts) (hc : c.Shows (ts ++ .op .semicolon b :: rest)) :
    startsLoopVariable c = false := by
  obtain ⟨span, m, ms, kind, b', us, rfl, rfl, us', vs, rfl, hm, hms⟩ := h
  obtain ⟨span, id, init, ws, xs, rfl, rfl, ⟨span, name, b'', rfl, rfl, hk⟩, -, hinit⟩ := hm
  -- An assignment, a comma or the end.
  obtain ⟨o, b₀, ys, hnext⟩ : ∃ o b₀ ys, xs ++ (vs ++ .op .semicolon b :: rest) = .op o b₀ :: ys := by
    cases init
    case some =>
      obtain ⟨b₀, ws, rfl, -⟩ := hinit
      exact ⟨_, _, _, rfl⟩
    case none =>
      obtain rfl : xs = [] := hinit
      cases ms
      case nil =>
        obtain rfl : vs = [] := hms
        exact ⟨_, _, _, rfl⟩
      case cons =>
        obtain ⟨b₀, ts, vs, rfl, -⟩ := hms
        exact ⟨_, _, _, rfl⟩
  simp only [List.cons_append, List.append_assoc, List.nil_append, hnext] at hc
  have hk' := ((hc.advance (by simp)).advance (by simp [hk])).kind
  rw [Bool.eq_false_iff, Ne, startsLoopVariable_iff, hk']
  simp

theorem isStated_for {init test update : Option Node} {body : Node} {vs ws xs : List Sign}
    {b b₀ b₁ b₂ b₃ : Bool} (hinit : IsLoopStart init us) (htest : Maybe (IsRead true true) test vs)
    (hupdate : Maybe (IsRead true true) update ws) (hbody : IsStated scope.inLoop body xs) :
    IsStated scope (.mk span (.forStatement init test update body))
      (.keyword .forWord b :: .op .leftParen b₀ :: (us ++ .op .semicolon b₁ ::
        (vs ++ .op .semicolon b₂ :: (ws ++ .op .rightParen b₃ :: xs)))) := by
  refine isStated_of ⟨_, _, rfl, by simp; rfl, by simp⟩ fun d s rest c hs hc hd => .current ?_
  simp only [hc.kind, Sign.keyword_kind]
  simp only [List.cons_append, List.append_assoc, List.length_cons, List.length_append] at hc hd
  refine .start fun start => .expecting hc (by simp) (by simp) fun c hc =>
    .expecting hc rfl (by simp) fun c hc => ?_
  have hrest {init' : Option Node} {c : Cursor} (hinit : init'.map bare = init.map bare)
      (hc : c.Shows (.op .semicolon b₁ :: (vs ++ .op .semicolon b₂ :: (ws ++ .op .rightParen b₃ ::
        (xs ++ s :: rest))))) :
      Reads bare ((ofDepth d).forRest start init' scope) c
        (Node.bare (.mk span (.forStatement init test update body))) (s :: rest) :=
    forRest_reads hinit htest hupdate hbody hs hc (by simp; omega)
  cases hinit
  case none => exact .check_ite_of_eq hc rfl (hrest rfl hc)
  case declaration n h =>
    obtain ⟨span, m, ms, kind, b', us, rfl, rfl, hms⟩ := id h
    refine .check_ite_of_ne hc (by simp) (.current ?_)
    rw [if_pos (by rw [declarationKind?_keyword hc]; rfl)]
    have hvariable : loopVariable?.run c = .ok (none, c) := by
      rw [loopVariable?_run, startsLoopVariable_of_declaration h hc]
      rfl
    refine Reads.run_bind hvariable ?_
    refine (declaration_reads h hc (by simp at hd ⊢; omega)).bind fun n c hn hc => ?_
    exact hrest (congrArg some hn) hc
  case expression n h =>
    obtain ⟨t, ts, rfl, ht⟩ := h.starts
    have hcurrent := hc.kind
    refine .check_ite_of_ne hc (fun hk => by simp [hk, TokenKind.startsExpression] at ht)
      (.current ?_)
    rw [if_neg (by simp [declarationKind?_of_startsExpression (hcurrent ▸ ht)])]
    refine (h.reads (Sign.ends_op rfl (by simp)) hc (by simp at hd ⊢; omega)).bind fun n c hn hc => ?_
    exact .accept_ite_of_ne hc (by simp) (hrest (congrArg some hn) hc)

theorem forInRest_reads {left left' right body : Node} {vs rest : List Sign} {s : Sign} {c : Cursor}
    {d start : Nat} {b : Bool} (hleft : left'.bare = left.bare) (hright : IsRead true true right us)
    (hbody : IsStated scope.inLoop body vs)
    (hs : (Node.mk span (.forInStatement left right body)).Precedes s)
    (hc : c.Shows (us ++ .op .rightParen b :: (vs ++ s :: rest)))
    (hd : 3 * (us ++ .op .rightParen b :: (vs ++ s :: rest)).length + 1 ≤ d) :
    Reads bare ((ofDepth d).forInRest start left' scope) c
      (Node.bare (.mk span (.forInStatement left right body))) (s :: rest) := by
  refine (hright.reads (Sign.ends_op rfl (by simp)) hc hd).bind fun m c hm hc =>
    .expecting hc rfl (by simp) fun c hc => ?_
  have hlast : body.Precedes s := hs.last (by simp [Node.endsWithTerminator])
    (by simp [Node.endsWithOpenIf])
  refine (hbody.reads hlast hc (by simp at hd ⊢; omega)).bind fun m' c hm' hc => ?_
  exact spanned_reads hc (by simp [Form.map, hleft, hm, hm'])

-- What stands for the variable of a loop over properties.
inductive IsLoopTarget : Node → List Sign → Prop
  | declared {span span₁ span₂ : Span} {name : String} {kind : VariableKind} {b b' : Bool} :
    (Sign.word name b').kind = .identifier →
    IsLoopTarget (.mk span (.variableDeclaration
      [.mk span₁ (.variableDeclarator (.mk span₂ (.identifier name)) none)] kind))
      [.keyword kind.toKeyword b, .word name b']
  | target {n : Node} {ts : List Sign} :
    n.isAssignable → Starts ts → IsOperand n ts → IsLoopTarget n ts

theorem isStated_forIn {right body : Node} {vs ws : List Sign} {b b₀ b₁ b₂ : Bool}
    (hleft : IsLoopTarget n us) (hright : IsRead true true right vs)
    (hbody : IsStated scope.inLoop body ws) :
    IsStated scope (.mk span (.forInStatement n right body))
      (.keyword .forWord b :: .op .leftParen b₀ :: (us ++ .keyword .inWord b₁ ::
        (vs ++ .op .rightParen b₂ :: ws))) := by
  refine isStated_of ⟨_, _, rfl, by simp; rfl, by simp⟩ fun d s rest c hs hc hd => .current ?_
  simp only [hc.kind, Sign.keyword_kind]
  simp only [List.cons_append, List.append_assoc, List.length_cons, List.length_append] at hc hd
  refine .start fun start => .expecting hc (by simp) (by simp) fun c hc =>
    .expecting hc rfl (by simp) fun c hc => ?_
  cases hleft with
  | declared hk =>
    simp only [List.cons_append, List.nil_append] at hc
    refine .check_ite_of_ne hc (by simp) (.current ?_)
    have hkind := declarationKind?_keyword hc
    rw [if_pos (by rw [hkind]; rfl)]
    have hc₁ := hc.advance (by simp)
    have hc₂ := hc₁.advance (by simp [hk])
    have hname : c.advance.current.kind = .identifier := by rw [hc₁.kind, hk]
    have hword : c.advance.advance.current.kind = .keyword .inWord := by simp [hc₂.kind]
    have hvariable := loopVariable?_run c
    rw [if_pos (startsLoopVariable_iff.mpr ⟨by rw [hkind]; rfl, hname, hword⟩),
      loopVariable_run hkind hname hword] at hvariable
    refine Reads.run_bind hvariable ?_
    refine forInRest_reads ?_ hright hbody hs (hc₂.advance (by simp)) (by simp at hd ⊢; omega)
    simp [bare_mk, Form.map, identifierOf, hc₁.text]
  | target hn hstarts h =>
    obtain ⟨t, ts, rfl, ht⟩ := hstarts
    have hcurrent := hc.kind
    refine .check_ite_of_ne hc (fun hk => by simp [hk, TokenKind.startsExpression] at ht)
      (.current ?_)
    rw [if_neg (by simp [declarationKind?_of_startsExpression (hcurrent ▸ ht)])]
    refine (h.reads_before_in hc (by simp at hd ⊢; omega)).bind fun a c ha hc => ?_
    refine .accept_ite_of_eq hc (by simp) (by simp) fun c hc => ?_
    rw [isAssignable_of_bare ha, if_pos hn]
    exact forInRest_reads ha hright hbody hs hc (by simp at hd ⊢; omega)

end

end ScriptTree
