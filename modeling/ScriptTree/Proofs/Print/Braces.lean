import Mathlib.Data.Option.Basic
import ScriptTree.Proofs.Print.Kept
import ScriptTree.Proofs.Print.RoundTrip

/-!
Braces that are printed though the tree has none.

A statement with an open `if` at its end, before an `else`, is printed between braces. So what is printed is
the text of another tree, with a block in this place; and that is the tree that is read.
-/

namespace ScriptTree

open Writer

-- Puts a statement that would take the `else` behind it into a block.
def Form.brace : Form Node → Form Node
  | .ifStatement test consequent (some alternate) =>
    .ifStatement test
      (if consequent.endsWithOpenIf then .mk consequent.span (.blockStatement [consequent])
      else consequent) (some alternate)
  | form => form

namespace Node

-- The tree with a block wherever braces are printed for none.
def braced : Node → Node :=
  fold fun n form => .mk n.span form.brace

theorem braced_mk (span : Span) (form : Form Node) :
    (mk span form).braced = .mk span (form.map braced).brace :=
  fold_eq _ _

-- A tree looks like the one with the blocks.
theorem resembles_braced (n : Node) : n.braced.Resembles n := by
  induction n using induct_nodes
  case h span form ih =>
    rw [braced_mk]
    cases form
    case ifStatement alternate =>
      cases alternate
      case none => exact .map ih span
      case some n =>
        have hn := ih n (by simp [Form.slots])
        exact ⟨rfl, rfl, rfl, rfl, hn.endsWithOpenIf, hn.endsWithTerminator, rfl, rfl, rfl, rfl, rfl,
          fun _ => rfl⟩
    all_goals exact .map ih span

end Node

-- The braces that are printed for no block are those of a block with one statement in it.
theorem ifStatement_braced {test consequent : Node} {alternate : Option Node}
    (htest : ∀ p, test.braced.emit p = test.emit p)
    (hconsequent : ∀ p, consequent.braced.emit p = consequent.emit p)
    (halternate : ∀ n ∈ alternate, ∀ p, n.braced.emit p = n.emit p) (isBeforeIn isHead : Bool) :
    emitForm isBeforeIn isHead
        (Form.ifStatement test.braced consequent.braced (alternate.map Node.braced)).brace =
      emitForm isBeforeIn isHead (.ifStatement test consequent alternate) := by
  funext w
  cases alternate
  case none =>
    simp only [Option.map_none, Form.brace, emitForm, Option.isSome_none, Bool.false_and, htest, hconsequent]
  case some n =>
    have hn := halternate n rfl
    simp only [Option.map_some, Form.brace, (Node.resembles_braced _).endsWithOpenIf]
    split
    case isFalse hopen =>
      simp only [emitForm, Option.isSome_some, (Node.resembles_braced _).endsWithOpenIf, emitOption, htest,
        hconsequent, hn]
    case isTrue hopen =>
      have hblock (w : Writer) : (Node.mk consequent.braced.span (.blockStatement [consequent.braced])).emit
          { isBeforeIn } w = (consequent.emit { isBeforeIn } w.openBlock.newline).closeBlock true := by
        rw [emit_eq_of_not_encloses (by cases isBeforeIn <;> rfl)]
        simp only [emitForm, emitStatements, hconsequent]
        rfl
      simp only [emitForm, Option.isSome_some, emitOption, htest, hblock, hn, hopen]
      rfl

theorem Writer.IsKept.eq : IsKept (fun _ => True) True Eq where
  visible _ := trivial
  write _ := congrArg _
  space := congrArg _
  optionalSpace := congrArg _
  newline := congrArg _
  indent := congrArg _
  dedent := congrArg _
  lastMark? := congrArg _
  encloses h := h ▸ rfl
  memberStyle _ h := h ▸ rfl

theorem Form.emit_braced {form : Form Node} (h : ∀ c ∈ form.nodes, ∀ p, c.braced.emit p = c.emit p)
    (isBeforeIn isHead : Bool) :
    emitForm isBeforeIn isHead (form.map Node.braced).brace = emitForm isBeforeIn isHead form := by
  have hform (hmember : ¬form.isMember) :
      emitForm isBeforeIn isHead (form.map Node.braced) = emitForm isBeforeIn isHead form := by
    have hmap := emit_map .eq Node.resembles_braced (fun _ _ => trivial) hmember
      (fun n hn p _ _ hw => congr (h n hn p).symm hw) isBeforeIn isHead
    exact funext fun w => (hmap rfl).symm
  cases form
  case ifStatement =>
    simp [Form.slots, ← Option.mem_def, or_imp, forall_and] at h
    exact ifStatement_braced h.1 h.2.1 h.2.2 isBeforeIn isHead
  case memberExpression object member _ _ =>
    have hobject := h object (by simp [Form.slots])
    have hmember := h member (by simp [Form.slots])
    funext w
    simp only [Form.map, Form.brace, emitForm, hobject, hmember, (Node.resembles_braced _).isNumberLiteral,
      (Node.resembles_braced _).dotName?, (Node.resembles_braced _).identifierName?]
  all_goals exact hform Bool.false_ne_true

-- A tree is printed as the one with the braces in it.
theorem Node.emit_braced (n : Node) : ∀ p, n.braced.emit p = n.emit p := by
  induction n using induct_nodes
  case h span form ih =>
    intro p
    have hencloses : p.encloses (form.map braced).brace = p.encloses form := by
      have h := (resembles_braced (.mk span form)).encloses p
      rwa [braced_mk] at h
    funext w
    rw [braced_mk, Node.emit, Node.emit, hencloses, Form.emit_braced ih, Form.emit_braced ih]

/-! ### Statements of plain names -/

-- What may play a role if every expression is a plain name. Other than in a script, any statement may stand
-- before an `else`.
inductive Composes : Role → Node → Prop
  | name {n} : IsPrintableName n → Composes .name n
  | declarator {kind span id init} :
    (kind = .constant → init.isSome) → Composes .name id → (∀ n ∈ init, Composes .name n) →
    Composes (.declarator kind) (.mk span (.variableDeclarator id init))
  | declaration {span declarations kind} :
    declarations ≠ [] → (∀ n ∈ declarations, Composes (.declarator kind) n) →
    Composes .declaration (.mk span (.variableDeclaration declarations kind))
  | declarationStatement {scope n} : Composes .declaration n → Composes (.statement scope) n
  | functionDeclaration {scope span id params body isAsync isGenerator} :
    Composes .name id → (∀ n ∈ params, Composes .name n) → Composes (.block .functionBody) body →
    Composes (.statement scope)
      (.mk span (.functionDeclaration (some id) params body { isAsync, isGenerator }))
  | expressionStatement {scope span expression} :
    Composes .name expression → Composes (.statement scope) (.mk span (.expressionStatement expression))
  | emptyStatement {scope span} : Composes (.statement scope) (.mk span .emptyStatement)
  | debuggerStatement {scope span} : Composes (.statement scope) (.mk span .debuggerStatement)
  | block {scope span body} :
    (∀ n ∈ body, Composes (.statement scope) n) → Separate body →
    Composes (.block scope) (.mk span (.blockStatement body))
  | blockStatement {scope n} : Composes (.block scope) n → Composes (.statement scope) n
  | ifStatement {scope span test consequent alternate} :
    Composes .name test → Composes (.statement scope) consequent →
    (∀ n ∈ alternate, Composes (.statement scope) n) →
    Composes (.statement scope) (.mk span (.ifStatement test consequent alternate))
  | whileStatement {scope span test body} :
    Composes .name test → Composes (.statement scope.inLoop) body →
    Composes (.statement scope) (.mk span (.whileStatement test body))
  | doWhileStatement {scope span body test} :
    Composes (.statement scope.inLoop) body → Composes .name test →
    Composes (.statement scope) (.mk span (.doWhileStatement body test))
  | loopDeclaration {n} : Composes .declaration n → Composes .loopStart n
  | loopName {n} : Composes .name n → Composes .loopStart n
  | forStatement {scope span init test update body} :
    (∀ n ∈ init, Composes .loopStart n) → (∀ n ∈ test, Composes .name n) →
    (∀ n ∈ update, Composes .name n) → Composes (.statement scope.inLoop) body →
    Composes (.statement scope) (.mk span (.forStatement init test update body))
  | loopVariable {span declaratorSpan id kind} :
    Composes .name id →
    Composes .loopTarget
      (.mk span (.variableDeclaration [.mk declaratorSpan (.variableDeclarator id none)] kind))
  | loopTarget {n} : Composes .name n → Composes .loopTarget n
  | forInStatement {scope span left right body} :
    Composes .loopTarget left → Composes .name right → Composes (.statement scope.inLoop) body →
    Composes (.statement scope) (.mk span (.forInStatement left right body))
  | breakStatement {scope span label} :
    scope.allowsBreak → (∀ n ∈ label, Composes .name n) →
    Composes (.statement scope) (.mk span (.breakStatement label))
  | continueStatement {scope span label} :
    scope.allowsContinue → (∀ n ∈ label, Composes .name n) →
    Composes (.statement scope) (.mk span (.continueStatement label))
  | returnStatement {scope span argument} :
    scope.allowsReturn → (∀ n ∈ argument, Composes .name n) →
    Composes (.statement scope) (.mk span (.returnStatement argument))
  | throwStatement {scope span argument} :
    Composes .name argument → Composes (.statement scope) (.mk span (.throwStatement argument))
  | handler {scope span param body} :
    Composes .name param → Composes (.block scope) body →
    Composes (.handler scope) (.mk span (.catchClause param body))
  | tryStatement {scope span block handler finalizer} :
    handler.isSome ∨ finalizer.isSome → Composes (.block scope) block →
    (∀ n ∈ handler, Composes (.handler scope) n) → (∀ n ∈ finalizer, Composes (.block scope) n) →
    Composes (.statement scope) (.mk span (.tryStatement block handler finalizer))
  | labeledStatement {scope span label body} :
    Composes .name label → Composes (.statement scope) body →
    Composes (.statement scope) (.mk span (.labeledStatement label body))
  | switchCase {scope span test body} :
    (∀ n ∈ test, Composes .name n) → (∀ n ∈ body, Composes (.statement scope) n) → Separate body →
    Composes (.switchCase scope) (.mk span (.switchCase test body))
  | switchStatement {scope span discriminant cases} :
    cases.countP Node.isDefaultCase ≤ 1 → Composes .name discriminant →
    (∀ n ∈ cases, Composes (.switchCase scope.inSwitch) n) →
    Composes (.statement scope) (.mk span (.switchStatement discriminant cases))
  | withStatement {scope span object body} :
    Composes .name object → Composes (.statement scope) body →
    Composes (.statement scope) (.mk span (.withStatement object body))
  | program {scope span body sourceType} :
    (∀ n ∈ body, Composes (.statement scope) n) → Separate body →
    Composes (.program scope) (.mk span (.program body sourceType))

theorem IsPrintableName.braced {n : Node} (h : IsPrintableName n) : n.braced = n := by
  obtain ⟨span, name, rfl, -⟩ := h
  rfl

theorem IsPrintableName.isAssignable {n : Node} (h : IsPrintableName n) : n.isAssignable := by
  obtain ⟨span, name, rfl, -⟩ := h
  rfl

theorem IsPrintableName.emits {n : Node} (h : IsPrintableName n) : EmitsExpression n :=
  (identifier_emits h).emits

-- Behind a consequent that is a block an `else` can belong to no other `if`.
theorem ifStatement_emits_braced {scope : JumpScope} {span : Span} {test consequent : Node}
    {alternate : Option Node} (htest : IsPrintableName test.braced)
    (hconsequent : EmitsStatement scope consequent.braced)
    (halternate : ∀ n ∈ alternate, EmitsStatement scope n.braced) :
    EmitsStatement scope (Node.mk span (.ifStatement test consequent alternate)).braced := by
  rw [Node.braced_mk]
  cases alternate
  case none =>
    exact ifStatement_emits (fun h => by cases h) htest.emits hconsequent fun n hn => by cases hn
  case some n =>
    have hn : ∀ m ∈ some n.braced, EmitsStatement scope m := by
      rintro m ⟨⟩
      exact halternate n rfl
    simp only [Form.map, Option.map_some, Form.brace]
    split
    case isFalse hopen => exact ifStatement_emits (fun _ => hopen) htest.emits hconsequent hn
    case isTrue =>
      have hblock : EmitsBlock scope (.mk consequent.braced.span (.blockStatement [consequent.braced])) :=
        block_emits (by simpa using hconsequent) (List.isChain_singleton _)
      exact ifStatement_emits (fun _ h => by cases h) htest.emits hblock.statement hn

-- With the braces in it, a tree is printed so that it can be read again.
theorem Composes.emits {role : Role} {n : Node} (h : Composes role n) : role.Emits n.braced := by
  induction h
  case name h =>
    rw [h.braced]
    exact h
  case declarationStatement ih => exact ih.statement _
  case blockStatement ih => exact ih.statement
  case loopDeclaration ih => exact ih.loopStart_emits
  case loopName ih => exact ih.emits.loopStart_emits
  case loopTarget ih => exact ih.emits.loopTarget_emits ih.isAssignable
  case ifStatement iht ihc iha => exact ifStatement_emits_braced iht ihc iha
  case loopVariable ih =>
    rw [Node.braced_mk]
    simp only [Form.map, Form.brace, List.map_cons, List.map_nil, Node.braced_mk, Option.map_none]
    exact loopVariable_emits ih
  all_goals
    rw [Node.braced_mk]
    simp only [Form.map, Form.brace]
  case declarator hconstant _ _ ihd ihi =>
    exact declarator_emits (by simpa using hconstant) ihd
      (Option.forall_mem_map.mpr fun n hn => (ihi n hn).emits)
  case declaration hne _ ih =>
    exact declaration_emits (by simpa using hne) (List.forall_mem_map.mpr ih)
  case functionDeclaration ihi ihp ihb =>
    exact functionDeclaration_emits ihi (List.forall_mem_map.mpr ihp) ihb
  case expressionStatement ih => exact expressionStatement_emits ih.emits
  case emptyStatement => exact emptyStatement_emits
  case debuggerStatement => exact debuggerStatement_emits
  case block hns ih => exact block_emits (List.forall_mem_map.mpr ih) (hns.map Node.resembles_braced)
  case whileStatement iht ihb => exact whileStatement_emits iht.emits ihb
  case doWhileStatement ihb iht => exact doWhileStatement_emits ihb iht.emits
  case forStatement ihi iht ihu ihb =>
    exact forStatement_emits (Option.forall_mem_map.mpr ihi)
      (Option.forall_mem_map.mpr fun n hn => (iht n hn).emits)
      (Option.forall_mem_map.mpr fun n hn => (ihu n hn).emits) ihb
  case forInStatement ihl ihr ihb => exact forInStatement_emits ihl ihr.emits ihb
  case breakStatement hscope _ ih => exact breakStatement_emits hscope (Option.forall_mem_map.mpr ih)
  case continueStatement hscope _ ih => exact continueStatement_emits hscope (Option.forall_mem_map.mpr ih)
  case returnStatement hscope _ ih =>
    exact returnStatement_emits hscope (Option.forall_mem_map.mpr fun n hn => (ih n hn).emits)
  case throwStatement ih => exact throwStatement_emits ih.emits
  case handler ihp ihb => exact handler_emits ihp ihb
  case tryStatement hsome _ _ _ ihb ihh ihf =>
    exact tryStatement_emits (by simpa using hsome) ihb (Option.forall_mem_map.mpr ihh)
      (Option.forall_mem_map.mpr ihf)
  case labeledStatement ihl ihb => exact labeledStatement_emits ihl ihb
  case switchCase hns iht ihb =>
    exact switchCase_emits (Option.forall_mem_map.mpr fun n hn => (iht n hn).emits)
      (List.forall_mem_map.mpr ihb)
      (hns.map Node.resembles_braced)
  case switchStatement hdefault _ _ ihd iha =>
    refine switchStatement_emits ?_ ihd.emits (List.forall_mem_map.mpr iha)
    rw [List.countP_map]
    simpa [Function.comp_def, (Node.resembles_braced _).isDefaultCase] using hdefault
  case withStatement iho ihb => exact withStatement_emits iho.emits ihb
  case program hns ih => exact ⟨_, _, _, rfl, List.forall_mem_map.mpr ih, (hns.map Node.resembles_braced)⟩

/-! ### Members -/

-- Such trees hold no member of an object, so that it does not matter how members are written.
theorem Composes.of_mem {role : Role} {n c : Node} (h : Composes role n) (hc : c ∈ n.form.nodes) :
    ∃ role', Composes role' c := by
  induction h
  case declarationStatement ih | blockStatement ih | loopDeclaration ih | loopName ih | loopTarget ih =>
    exact ih hc
  case name h =>
    obtain ⟨span, name, rfl, -⟩ := h
    cases hc
  case loopVariable hid _ =>
    simp [Node.form, Form.slots] at hc
    exact hc ▸ ⟨.declarator .var, .declarator (by simp) hid (by simp)⟩
  all_goals
    simp [Node.form, Form.slots, ← Option.mem_def] at hc
  all_goals grind

theorem Composes.not_isMember {role : Role} {n : Node} (h : Composes role n) : n.form.isMember = false := by
  induction h
  case declarationStatement ih | blockStatement ih | loopDeclaration ih | loopName ih | loopTarget ih =>
    exact ih
  case name h =>
    obtain ⟨span, name, rfl, -⟩ := h
    rfl
  all_goals rfl

theorem Composes.at? {role : Role} {tree n : Node} {l : Location} (h : Composes role tree)
    (hn : tree.at? l = some n) : ∃ role', Composes role' n := by
  induction l generalizing role tree
  case nil => exact ⟨role, Option.some.inj hn ▸ h⟩
  case cons step l ih =>
    obtain ⟨c, hc, hn⟩ := Option.bind_eq_some_iff.mp hn
    obtain ⟨_, h⟩ := h.of_mem (Node.mem_nodes_of_child? hc)
    exact ih h hn

namespace Writer

-- The same but for the style of members.
def IsRestyled (style : MemberStyle) (w v : Writer) : Prop :=
  v = { w with options := { w.options with memberStyle := style } }

variable {style : MemberStyle} {w v : Writer}

theorem IsRestyled.write (piece : String) (h : IsRestyled style w v) :
    IsRestyled style (w.write piece) (v.write piece) := by
  obtain rfl := h
  unfold Writer.write flush IsRestyled
  split
  case h_1 => rfl
  case h_2 =>
    dsimp only
    split
    case isTrue => rfl
    case isFalse => split <;> rfl

theorem IsRestyled.space (h : IsRestyled style w v) : IsRestyled style w.space v.space := by
  obtain rfl := h
  unfold IsRestyled Writer.space last?
  dsimp only
  split <;> rfl

theorem IsRestyled.isKept : IsKept (fun _ => True) False (IsRestyled style) where
  visible _ := trivial
  write _ := write _
  space := space
  optionalSpace := by
    rintro w v rfl
    unfold Writer.optionalSpace
    split
    case isTrue => exact space rfl
    case isFalse => rfl
  newline := by
    rintro w v rfl
    unfold Writer.newline IsRestyled
    dsimp only
    split <;> rfl
  indent := by rintro w v rfl; rfl
  dedent := by rintro w v rfl; rfl
  lastMark? := by rintro w v rfl; rfl
  encloses := by rintro w v rfl; rfl
  memberStyle h := h.elim

end Writer

theorem Composes.print_eq {role : Role} {tree : Node} (h : Composes role tree) (options : PrintOptions) :
    tree.print { options with memberStyle := .asIs } = tree.print options := by
  have hmembers (l : Location) (form : Form Node) (hl : tree.formAt? l = some form) (hm : form.isMember) :
      False := by
    obtain ⟨n, hn, rfl⟩ := Option.map_eq_some_iff.mp hl
    obtain ⟨_, hn⟩ := h.at? hn
    simp [hn.not_isMember] at hm
  have hemit := Node.emit_keeps IsRestyled.isKept (fun _ _ _ _ _ => trivial) hmembers {}
    (show IsRestyled .asIs { options } { options := { options with memberStyle := .asIs } } from rfl)
  rw [Node.print, hemit, Writer.text]
  rfl

-- A program of such statements is read as it was but for the blocks. So each `else` goes to the `if` that it
-- was the alternate of, whatever stands in between.
theorem parse_print_braced {options : ParseOptions} {style : PrintOptions} {span : Span} {body : List Node}
    (hbody : ∀ n ∈ body, Composes (.statement { allowsReturn := options.allowsReturn }) n)
    (hseparate : Separate body) :
    ∃ tree, parse options
        (Token.ofSource ((Node.mk span (.program body options.sourceType)).print style) true) = .ok tree ∧
      tree.bare = (Node.mk span (.program body options.sourceType)).braced.bare := by
  have h : Composes (.program { allowsReturn := options.allowsReturn })
      (.mk span (.program body options.sourceType)) := .program hbody hseparate
  rw [← h.print_eq style, Node.print, ← Node.emit_braced, ← Node.print, Node.braced_mk]
  have hstyle : PrintOptions.memberStyle { style with memberStyle := .asIs } = .asIs := rfl
  obtain ⟨us, s, hus, hend, hsigns⟩ := signs_print hstyle
    (List.forall_mem_map.mpr fun n hn => (hbody n hn).emits)
  exact parse_bare ⟨hus, (hseparate.map Node.resembles_braced)⟩ hend hsigns

-- The inner `if` is at the end of a loop. It keeps its consequent, and the `else` does not go to it.
theorem parse_print_braced_loop :
    let name (text : String) : Node := .mk Node.nowhere (.identifier text)
    let call (text : String) : Node := .mk Node.nowhere (.expressionStatement (name text))
    let inner : Node := .mk Node.nowhere (.ifStatement (name "c") (call "d") none)
    let loop : Node := .mk Node.nowhere (.whileStatement (name "b") inner)
    let outer : Node := .mk Node.nowhere (.ifStatement (name "a") loop (some (call "e")))
    let block : Node := .mk Node.nowhere (.blockStatement [loop])
    let read : Node := .mk Node.nowhere (.ifStatement (name "a") block (some (call "e")))
    (Node.mk Node.nowhere (.program [outer] .module)).print {} = "if(a)\x7bwhile(b)if(c)d;\x7delse e;" ∧
      ∃ tree, parse {} (Token.ofSource "if(a)\x7bwhile(b)if(c)d;\x7delse e;" true) = .ok tree ∧
        tree.bare = .mk Node.nowhere (.program [read] .module) := by
  intro name call inner loop outer block read
  have hname : ∀ text ∈ ["a", "b", "c", "d", "e"], Composes .name (name text) := by
    refine fun text ht => .name ⟨_, _, rfl, ⟨?_, ?_, ?_⟩, ?_⟩ <;> (revert text; decide +kernel)
  have hinner : Composes (.statement (JumpScope.inLoop {})) inner :=
    .ifStatement (hname "c" (by simp)) (.expressionStatement (hname "d" (by simp))) nofun
  have houter : Composes (.statement {}) outer := by
    refine .ifStatement (hname "a" (by simp)) (.whileStatement (hname "b" (by simp)) hinner) ?_
    rintro n ⟨⟩
    exact .expressionStatement (hname "e" (by simp))
  have hprint : (Node.mk Node.nowhere (.program [outer] .module)).print {} =
      "if(a)\x7bwhile(b)if(c)d;\x7delse e;" := by decide
  have hbraced : (Node.mk Node.nowhere (.program [outer] .module)).braced.bare =
      .mk Node.nowhere (.program [read] .module) := rfl
  refine ⟨hprint, ?_⟩
  rw [← hprint, ← hbraced]
  exact @parse_print_braced {} {} Node.nowhere [outer] (by simpa using houter) (List.isChain_singleton _)

end ScriptTree
