import ScriptTree.Proofs.Parse.Legality
import ScriptTree.Proofs.Print.Statement

/-!
A script that is printed is read as the script that it was.

The proof goes over what each node of a script stands for. For every role there is something that is
written for its nodes, and something as which that is read.
-/

namespace ScriptTree

open Character Writer Scanner

/-! ### Trees that can be printed -/

-- The names behind a dot behind which a slash is not taken for a division.
def operandWords : List String :=
  ["in", "instanceof", "if", "while", "for", "with"]

-- Can the construct be written so that its own text is read again?
def Form.isPrintable : Form Node → Bool
  | identifier name => name.toList.all isPrintedWord
  | literal kind raw => kind.closes raw
  | memberExpression _ member isComputed _ => isComputed || !member.identifierName?.any operandWords.contains
  | _ => true

namespace Node

-- All constructs of the tree can be written so.
def IsPrintable (tree : Node) : Prop :=
  ∀ l form, tree.formAt? l = some form → form.isPrintable

variable {n c : Node}

theorem IsPrintable.form (h : n.IsPrintable) : n.form.isPrintable :=
  h [] _ rfl

theorem IsPrintable.of_mem (h : n.IsPrintable) (hc : c ∈ n.form.children.map Prod.snd) : c.IsPrintable := by
  obtain ⟨⟨step, c⟩, hstep, rfl⟩ := List.mem_map.mp hc
  refine fun l form hl => h (step :: l) form ?_
  rw [formAt?, at?, mem_children.mp hstep]
  exact hl

theorem isPrintable_iff : n.IsPrintable ↔
    n.form.isPrintable ∧ ∀ c ∈ n.form.children.map Prod.snd, c.IsPrintable := by
  refine ⟨fun h => ⟨h.form, fun c hc => h.of_mem hc⟩, fun ⟨hform, hchildren⟩ l form hl => ?_⟩
  cases l
  case nil => exact Option.some.inj hl ▸ hform
  case cons step l =>
    obtain ⟨m, hm, rfl⟩ := Option.map_eq_some_iff.mp hl
    obtain ⟨c, hc, hm⟩ := Option.bind_eq_some_iff.mp hm
    exact hchildren c (List.mem_map.mpr ⟨_, mem_children.mpr hc, rfl⟩) l _ (by rw [formAt?, hm]; rfl)

-- The same, computed.
def checkPrintable (n : Node) : Bool :=
  n.fold fun m results => m.form.isPrintable && results.children.all Prod.snd

theorem isPrintable_of_checkPrintable (h : n.checkPrintable) : n.IsPrintable :=
  fun _ _ hl => holds_of_fold Form.isPrintable h hl

end Node

/-! ### Words -/

-- A word that is no such word behind a dot is an operand's end.
theorem word_ends_operand {name : String} (h : name ∉ operandWords) :
    opensHead (some (Scanner.word name.toList).kind) = false ∧
      (Scanner.word name.toList).marks.isOperator = false := by
  have hne {k : Keyword} (hk : Keyword.ofSpelling? (String.ofList name.toList) = some k) :
      k.spelling ∉ operandWords := by
    rwa [Keyword.ofSpelling?_spelling hk, String.ofList_toList]
  fun_cases Scanner.word name.toList
  case case1 hk => exact absurd (by decide) (hne hk)
  case case2 hk => exact absurd (by decide) (hne hk)
  case case3 k _ _ hspelling =>
    refine ⟨?_, rfl⟩
    have hk := hne hspelling
    cases k <;> first | rfl | exact absurd (by decide) hk
  all_goals exact ⟨rfl, rfl⟩

section

variable {L : Token → Prop} {name : String} {operator : Operator}

-- All tokens that are taken from a stream come from the scanner, but for the end of input.
def ComeScanned (L : Token → Prop) : Prop :=
  ∀ t, L t → t.kind ≠ .endOfInput → t.IsScanned

theorem Role.IsWord.isPrintable (h : Role.IsWord L name) (hL : ComeScanned L)
    (hp : name.toList.all isPrintedWord) : IsPrintable name := by
  obtain ⟨t, ht, hw, rfl⟩ := h
  have hne : t.kind ≠ .endOfInput := fun hk => by simp [Token.isWord, hk, TokenKind.isWord] at hw
  obtain ⟨⟨c, text, htext, hc, -⟩, -⟩ := (hL t ht hne).word hw
  refine ⟨by simp [htext], List.all_eq_true.mp hp, fun d hd => ?_⟩
  rw [htext] at hd
  cases hd
  simp only [isWordStart, Bool.and_eq_true, Bool.not_eq_true'] at hc
  exact hc.2

theorem Role.IsName.isWord (h : Role.IsName L name) : Role.IsWord L name := by
  obtain ⟨t, ht, hk, rfl⟩ := h
  exact ⟨t, ht, by rw [Token.isWord, hk]; rfl, rfl⟩

theorem Role.IsName.kind (h : Role.IsName L name) (hL : ComeScanned L) :
    (Scanner.word name.toList).kind = .identifier := by
  obtain ⟨t, ht, hk, rfl⟩ := h
  obtain ⟨-, hsign⟩ := (hL t ht (by simp [hk])).word (by rw [Token.isWord, hk]; rfl)
  exact (congrArg Sign.kind (hsign false)).symm.trans hk

theorem Role.IsLiteral.scanned {kind : LiteralKind} {raw : String} (h : Role.IsLiteral L kind raw)
    (hL : ComeScanned L) : ∃ t : Token, t.IsScanned ∧ Grammar.literalKind? t = some kind ∧ t.value = raw := by
  obtain ⟨t, ht, hk, hraw⟩ := h
  have hne : t.kind ≠ .endOfInput := fun hend => by simp [Grammar.literalKind?, hend] at hk
  exact ⟨t, hL t ht hne, hk, hraw⟩

theorem Role.Joins.joins (h : Role.Joins L operator) (hL : ComeScanned L) : operator.joins := by
  obtain ⟨t, level, ht, hj⟩ := h
  have hne : t.kind ≠ .endOfInput := fun hend => by simp [Grammar.joiner?, hend] at hj
  exact (hL t ht hne).joins hj

theorem Role.Assigns.category (h : Role.Assigns L operator) (hL : ComeScanned L) :
    operator.category = .assignment := by
  obtain ⟨t, ht, hmarks, hk⟩ := h
  have hk := TokenKind.eq_of_operator? hk
  rw [((hL t ht (by simp [hk])).of_operator hk).2] at hmarks
  simpa [Marks.ofOperator] using hmarks

/-! ### Roles -/

-- What is written for a node in its role can be read as this node.
def Role.Emits (role : Role) (n : Node) : Prop :=
  match role with
  | .program scope => ∃ span body sourceType, n = .mk span (.program body sourceType) ∧
      (∀ n ∈ body, EmitsStatement scope n) ∧ Separate body
  | .statement scope => EmitsStatement scope n
  | .block scope => EmitsBlock scope n
  | .switchCase scope => EmitsCase scope n
  | .handler scope => EmitsHandler scope n
  | .declaration => EmitsDeclaration n
  | .declarator kind => EmitsDeclarator kind n
  | .loopStart => EmitsLoopStart n
  | .loopTarget => EmitsLoopTarget n
  | .expression => EmitsExpression n
  | .target => EmitsExpression n ∧ n.isAssignable
  | .property => EmitsProperty n
  | .key => EmitsKey n
  | .word => ∃ span name, n = .mk span (.identifier name) ∧ IsPrintable name
  | .name => IsPrintableName n

theorem Fills.emits {role : Role} {n : Node} (h : Fills L role n) (hL : ComeScanned L)
    (hp : n.IsPrintable) : role.Emits n := by
  induction h
  case identifier ih => exact (identifier_emits (ih hp)).emits
  case target hn _ ih => exact ⟨ih hp, hn⟩
  case declarationStatement ih => exact (ih hp).statement _
  case blockStatement ih => exact (ih hp).statement
  case loopDeclaration ih => exact (ih hp).loopStart_emits
  case loopExpression ih => exact (ih hp).loopStart_emits
  case loopTarget ih => exact (ih hp).1.loopTarget_emits (ih hp).2
  case loopVariable ih =>
    have hdeclarator := hp.of_mem (List.mem_singleton.mpr rfl)
    exact loopVariable_emits (ih (hdeclarator.of_mem (List.mem_singleton.mpr rfl)))
  -- Else the parts of the node can be printed as well.
  all_goals
    rw [Node.isPrintable_iff] at hp
    simp [Node.form, Form.isPrintable, Form.children, Form.slots, Slot.children, Slot.map_snd_placed,
      ← Option.mem_def, or_imp, forall_and, -List.all_eq_true] at hp
  case program hns ih => exact ⟨_, _, _, rfl, fun n hn => ih n hn (hp n hn), hns⟩
  -- Names and literals
  case name h => exact ⟨_, _, rfl, h.isWord.isPrintable hL hp, h.kind hL⟩
  case word h => exact ⟨_, _, rfl, h.isPrintable hL hp⟩
  case keyWord h => exact wordKey_emits (h.isPrintable hL hp)
  case keyLiteral hkey h =>
    obtain ⟨t, ht, hk, rfl⟩ := h.scanned hL
    exact literalKey_emits ht hk hp hkey
  case literal h =>
    obtain ⟨t, ht, hk, rfl⟩ := h.scanned hL
    exact (literal_emits ht hk hp).emits
  -- Expressions
  case thisExpression => exact this_emits.emits
  case array ih => exact (array_emits fun n hn => ih n hn (hp n hn)).emits
  case object ih => exact (object_emits fun n hn => ih n hn (hp n hn)).emits
  case property ihk ihv => exact property_emits (ihk hp.1) (ihv hp.2)
  case functionExpression ihi ihp ihb =>
    exact (functionExpression_emits (fun n hn => ihi n hn (hp.1 n hn)) (fun n hn => ihp n hn (hp.2.1 n hn))
      (ihb hp.2.2)).emits
  case update isPrefix _ _ ih =>
    cases isPrefix
    case true => exact (prefixUpdate_emits (ih hp).1 (ih hp).2).emits
    case false => exact (postfixUpdate_emits (ih hp).1 (ih hp).2).emits
  case unary ih => exact (unary_emits (ih hp)).emits
  case binary hop _ _ ihl ihr => exact (binary_emits (hop.joins hL) (ihl hp.1) (ihr hp.2)).emits
  case assignment hop _ _ ihl ihr =>
    exact (assignment_emits (hop.category hL) (ihl hp.1).1 (ihl hp.1).2 (ihr hp.2)).emits
  case conditional iht ihc iha => exact (conditional_emits (iht hp.1) (ihc hp.2.1) (iha hp.2.2)).emits
  case sequence expressions hlength _ ih =>
    obtain ⟨n, ns, rfl⟩ := List.exists_cons_of_length_pos (Nat.lt_of_succ_lt hlength)
    have hns : ns ≠ [] := by
      rintro rfl
      simp at hlength
    exact (sequence_emits (ih n (.head _) (hp n (.head _))) (fun m hm => ih m (.tail _ hm) (hp m (.tail _ hm)))
      hns).emits
  case call ihc iha => exact (call_emits (ihc hp.1) fun n hn => iha n hn (hp.2 n hn)).emits
  case construction ihc iha => exact (construction_emits (ihc hp.1) fun n hn => iha n hn (hp.2 n hn)).emits
  case member iho ihm =>
    obtain ⟨span, name, rfl, hname⟩ := ihm hp.2.2
    have hword : name ∉ operandWords := by simpa [Node.identifierName?, Node.form] using hp.1
    exact (member_emits (iho hp.2.1) ⟨span, name, rfl, hname, word_ends_operand hword⟩).emits
  case computedMember iho ihm => exact (computedMember_emits (iho hp.1) (ihm hp.2)).emits
  -- Declarations
  case declarator hconstant _ _ ihd ihi =>
    exact declarator_emits hconstant (ihd hp.1) fun n hn => ihi n hn (hp.2 n hn)
  case declaration hne _ ih => exact declaration_emits hne fun n hn => ih n hn (hp n hn)
  case functionDeclaration ihi ihp ihb =>
    exact functionDeclaration_emits (ihi hp.1) (fun n hn => ihp n hn (hp.2.1 n hn)) (ihb hp.2.2)
  -- Statements
  case expressionStatement ih => exact expressionStatement_emits (ih hp)
  case emptyStatement => exact emptyStatement_emits
  case debuggerStatement => exact debuggerStatement_emits
  case block hns ih => exact block_emits (fun n hn => ih n hn (hp n hn)) hns
  case ifStatement hopen _ _ _ iht ihc iha =>
    exact ifStatement_emits hopen (iht hp.1) (ihc hp.2.1) fun n hn => iha n hn (hp.2.2 n hn)
  case whileStatement iht ihb => exact whileStatement_emits (iht hp.1) (ihb hp.2)
  case doWhileStatement ihb iht => exact doWhileStatement_emits (ihb hp.1) (iht hp.2)
  case forStatement ihi iht ihu ihb =>
    exact forStatement_emits (fun n hn => ihi n hn (hp.1 n hn)) (fun n hn => iht n hn (hp.2.1 n hn))
      (fun n hn => ihu n hn (hp.2.2.1 n hn)) (ihb hp.2.2.2)
  case forInStatement ihl ihr ihb => exact forInStatement_emits (ihl hp.1) (ihr hp.2.1) (ihb hp.2.2)
  case breakStatement hscope _ ih => exact breakStatement_emits hscope fun n hn => ih n hn (hp n hn)
  case continueStatement hscope _ ih => exact continueStatement_emits hscope fun n hn => ih n hn (hp n hn)
  case returnStatement hscope _ ih => exact returnStatement_emits hscope fun n hn => ih n hn (hp n hn)
  case throwStatement ih => exact throwStatement_emits (ih hp)
  case handler ihp ihb => exact handler_emits (ihp hp.1) (ihb hp.2)
  case tryStatement hsome _ _ _ ihb ihh ihf =>
    exact tryStatement_emits hsome (ihb hp.1) (fun n hn => ihh n hn (hp.2.1 n hn)) fun n hn =>
      ihf n hn (hp.2.2 n hn)
  case labeledStatement ihl ihb => exact labeledStatement_emits (ihl hp.1) (ihb hp.2)
  case switchCase hns iht ihb =>
    exact switchCase_emits (fun n hn => iht n hn (hp.1 n hn)) (fun n hn => ihb n hn (hp.2 n hn)) hns
  case switchStatement hdefault _ _ ihd iha =>
    exact switchStatement_emits hdefault (ihd hp.1) fun n hn => iha n hn (hp.2 n hn)
  case withStatement iho ihb => exact withStatement_emits (iho hp.1) (ihb hp.2)

end

/-! ### Scripts -/

-- The signs of a printed program.
theorem signs_print {options : PrintOptions} {scope : JumpScope} {span : Span} {ns : List Node}
    {sourceType : SourceType} (ho : options.memberStyle = .asIs) (hns : ∀ n ∈ ns, EmitsStatement scope n) :
    ∃ us s, Each (IsStated scope) ns us ∧ s.kind = .endOfInput ∧
      Token.signs false (Token.ofSource ((Node.mk span (.program ns sourceType)).print options) true) =
        us ++ [s] := by
  obtain ⟨us, q, hw, -, hus⟩ := emitStatements_emits (fun n hn => hns n hn false []) (.start ho)
    ⟨rfl, nofun, rfl, nofun⟩
  obtain ⟨s, hs, hsigns⟩ := Token.signs_ofSource hw
  refine ⟨us, s, hus, hs, ?_⟩
  rw [Node.print, emit_eq_of_not_encloses rfl, emitForm, hsigns, List.nil_append]

theorem parse_eq_program {options : ParseOptions} {tokens : List Token} {tree : Node}
    (h : parse options tokens = .ok tree) : ∃ span ns, tree = .mk span (.program ns options.sourceType) := by
  unfold parse at h
  split at h <;> cases h
  exact ⟨_, _, rfl⟩

-- A program is printed so that it is read again, wherever it now stands.
theorem Fills.parse_print {L : Token → Prop} {options : ParseOptions} {style : PrintOptions} {span : Span}
    {ns : List Node}
    (h : Fills L (.program { allowsReturn := options.allowsReturn }) (.mk span (.program ns options.sourceType)))
    (hL : ComeScanned L) (hp : (Node.mk span (.program ns options.sourceType)).IsPrintable)
    (hs : style.memberStyle = .asIs) :
    ∃ tree, parse options
        (Token.ofSource ((Node.mk span (.program ns options.sourceType)).print style) true) = .ok tree ∧
      tree.bare = (Node.mk span (.program ns options.sourceType)).bare := by
  obtain ⟨_, _, _, heq, hns, hseparate⟩ := h.emits hL hp
  cases heq
  obtain ⟨us, s, hus, hend, hsigns⟩ := signs_print hs hns
  exact parse_bare ⟨hus, hseparate⟩ hend hsigns

theorem comeScanned_ofSource (source : String) : ComeScanned (· ∈ Token.ofSource source true) :=
  fun _ ht hk => Token.isScanned_of_mem ht hk

theorem parse_print {options : ParseOptions} {style : PrintOptions} {source : String} {tree : Node}
    (h : parse options (Token.ofSource source true) = .ok tree) (hp : tree.IsPrintable)
    (hs : style.memberStyle = .asIs) :
    ∃ tree', parse options (Token.ofSource (tree.print style) true) = .ok tree' ∧
      tree'.bare = tree.bare := by
  obtain ⟨span, ns, rfl⟩ := parse_eq_program h
  exact (fills_of_parse h).parse_print (comeScanned_ofSource source) hp hs

theorem parseSource_print {style : PrintOptions} {source : String} {tree : Node}
    (h : parseSource source = .ok tree)
    (hp : ∀ l form, tree.formAt? l = some form → form.isPrintable) (hs : style.memberStyle = .asIs) :
    ∃ tree', parseSource (tree.print style) = .ok tree' ∧ tree'.bare = tree.bare :=
  parse_print h hp hs

-- Slashes that could be taken for something else, and operators that must be kept apart.
theorem parseSource_print_slashes : ∃ tree, parseSource
      "for (var i = (a in b); i < 9; i++) if (x.y) /re/.test(s); else z = function() \x7b return - -i \x7d / 2" =
        .ok tree ∧ (∀ l form, tree.formAt? l = some form → form.isPrintable) ∧
      ∃ tree', parseSource (tree.print { isSpaced := true }) = .ok tree' ∧ tree'.bare = tree.bare := by
  let source :=
    "for (var i = (a in b); i < 9; i++) if (x.y) /re/.test(s); else z = function() \x7b return - -i \x7d / 2"
  have h : (parseSource source).toOption.any Node.checkPrintable := by decide +kernel
  cases hp : parseSource source
  case error => simp [hp, Except.toOption] at h
  case ok tree =>
    have hprintable : tree.IsPrintable :=
      Node.isPrintable_of_checkPrintable (by simpa [hp, Except.toOption] using h)
    exact ⟨tree, rfl, hprintable, parseSource_print hp hprintable rfl⟩

end ScriptTree
