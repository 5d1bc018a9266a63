import ScriptTree.Proofs.Parse.Parts
import ScriptTree.Proofs.Parse.Soundness
import ScriptTree.Proofs.Scope.Around
import ScriptTree.Walk.Scope

/-!
What every script obeys wherever it is looked at: what its constructs hold, and which jumps stand where.
-/

namespace ScriptTree

namespace Node

def isLoop (n : Node) : Bool :=
  match n.form with
  | .whileStatement .. | .doWhileStatement .. | .forStatement .. | .forInStatement .. => true
  | _ => false

def isLoopOrSwitch (n : Node) : Bool :=
  n.isLoop || n.type == .switchStatement

-- What can be assigned to.
def IsTarget (n : Node) : Prop :=
  n.type = .identifier ∨ n.type = .memberExpression

-- The declaration of one name that a loop gives its values.
def IsLoopVariable (n : Node) : Prop :=
  ∃ declarator id kind, n.form = .variableDeclaration [declarator] kind ∧
    declarator.form = .variableDeclarator id none

def formAt? (tree : Node) (l : Location) : Option (Form Node) :=
  (tree.at? l).map form

-- What holds of each construct by computing over the whole tree holds of it wherever it stands.
theorem holds_of_fold (holds : Form Node → Bool) {n : Node} {l : Location} {form : Form Node}
    (h : n.fold (fun m results => holds m.form && results.children.all Prod.snd) = true)
    (hl : n.formAt? l = some form) : holds form := by
  induction l generalizing n
  all_goals
    obtain ⟨span, form⟩ := n
    rw [fold_eq, Form.children_map, Bool.and_eq_true, List.all_map, List.all_eq_true] at h
  case nil =>
    cases hl
    exact h.1
  case cons step l ih =>
    obtain ⟨m, hm, rfl⟩ := Option.map_eq_some_iff.mp hl
    obtain ⟨c, hc, hm⟩ := Option.bind_eq_some_iff.mp hm
    exact ih (h.2 _ (mem_children.mpr hc)) (by rw [formAt?, hm]; rfl)

-- Is there a node of some kind around the place, and no function in between?
def Encloses (holds : Node → Bool) (tree : Node) (l : Location) : Prop :=
  ∃ p ∈ tree.around holds l, ∀ f ∈ tree.around isFunction l, f <+: p

-- Is the place the left side of a loop over properties?
def IsLoopTarget (tree : Node) (l : Location) : Prop :=
  ∃ p left right body, l = p.child ⟨"left", none⟩ ∧
    tree.formAt? p = some (.forInStatement left right body)

end Node

open Node

-- What a construct must hold.
def Form.IsLegal : Form Node → Prop
  | assignmentExpression _ left _ => left.IsTarget
  | updateExpression _ _ argument => argument.IsTarget
  | forInStatement left _ _ => left.IsTarget ∨ left.IsLoopVariable
  | switchStatement _ cases => cases.countP isDefaultCase ≤ 1
  | tryStatement block handler finalizer =>
    (handler.isSome ∨ finalizer.isSome) ∧ block.type = .blockStatement ∧
      (∀ n ∈ handler, n.type = .catchClause) ∧ ∀ n ∈ finalizer, n.type = .blockStatement
  | catchClause _ body => body.type = .blockStatement
  | functionExpression _ _ body _ | functionDeclaration _ _ body _ => body.type = .blockStatement
  | sequenceExpression expressions => 2 ≤ expressions.length
  | memberExpression _ member false _ => member.type = .identifier
  | _ => True

-- The trees that obey the rules for constructs, constants and jumps.
structure IsLegal (options : ParseOptions) (tree : Node) : Prop where
  forms     : ∀ l form, tree.formAt? l = some form → form.IsLegal
  -- Constants have values, unless a loop over properties declares them.
  constants : ∀ l declarations, tree.formAt? l = some (.variableDeclaration declarations .constant) →
    (∀ d ∈ declarations, ∃ id init, d.form = .variableDeclarator id (some init)) ∨
      tree.IsLoopTarget l
  breaks    : ∀ l label, tree.formAt? l = some (.breakStatement label) →
    tree.Encloses isLoopOrSwitch l
  continues : ∀ l label, tree.formAt? l = some (.continueStatement label) → tree.Encloses isLoop l
  returns   : ∀ l argument, tree.formAt? l = some (.returnStatement argument) →
    options.allowsReturn ∨ tree.around isFunction l ≠ []

variable {L : Token → Prop} {role : Role} {tree n c : Node} {step : Step} {l : Location}

namespace Fills

theorem type_of_block {scope : JumpScope} (h : Fills L (.block scope) n) :
    n.type = .blockStatement := by
  cases h
  rfl

theorem type_of_handler {scope : JumpScope} (h : Fills L (.handler scope) n) :
    n.type = .catchClause := by
  cases h
  rfl

theorem type_of_word (h : Fills L .word n) : n.type = .identifier := by
  cases h
  rfl

theorem isTarget (h : Fills L .target n) : n.IsTarget := by
  cases h
  case target ha _ =>
    unfold isAssignable at ha
    split at ha <;> simp_all [IsTarget, Node.type, Form.type]

theorem isTarget_or_isLoopVariable (h : Fills L .loopTarget n) : n.IsTarget ∨ n.IsLoopVariable := by
  cases h
  case loopVariable => exact .inr ⟨_, _, _, rfl, rfl⟩
  case loopTarget h => exact .inl h.isTarget

theorem isLegal (h : Fills L role n) : n.form.IsLegal := by
  induction h
  case identifier ih | target ih | declarationStatement ih | blockStatement ih
      | loopDeclaration ih | loopExpression ih | loopTarget ih => exact ih
  case update h _ => exact h.isTarget
  case assignment h _ _ _ => exact h.isTarget
  case sequence h _ _ => exact h
  case member h _ _ => exact h.type_of_word
  case functionExpression h _ _ _ => exact h.type_of_block
  case functionDeclaration h _ _ _ => exact h.type_of_block
  case forInStatement h _ _ _ _ _ => exact h.isTarget_or_isLoopVariable
  case handler h _ _ => exact h.type_of_block
  case tryStatement hone hb hh hf _ _ _ =>
    exact ⟨hone, hb.type_of_block, fun n hn => (hh n hn).type_of_handler,
      fun n hn => (hf n hn).type_of_block⟩
  case switchStatement h _ _ _ _ => exact h
  all_goals trivial

end Fills

/-! ### Jumps -/

-- The jumps that are legal in the statements that play a role.
def Role.scope? : Role → Option JumpScope
  | program scope | statement scope | block scope | switchCase scope | handler scope => some scope
  | _ => none

-- Where the jump is legal, if it is one.
def Form.jump? : Form Node → Option (JumpScope → Bool)
  | breakStatement _ => some (·.allowsBreak)
  | continueStatement _ => some (·.allowsContinue)
  | returnStatement _ => some (·.allowsReturn)
  | _ => none

-- How the jumps that are legal in a child come from those of the node.
inductive Inherits (n : Node) : Option JumpScope → JumpScope → Prop
  | same {scope} : ¬n.isFunction → Inherits n (some scope) scope
  | inLoop {scope} : n.isLoop → Inherits n (some scope) scope.inLoop
  | inSwitch {scope} : n.type = .switchStatement → Inherits n (some scope) scope.inSwitch
  | functionBody {scope?} : n.isFunction → Inherits n scope? .functionBody

theorem Inherits.of_none {scope? : Option JumpScope} {scope : JumpScope} (h : Inherits n none scope) :
    Inherits n scope? scope := by
  cases h
  case functionBody hf => exact .functionBody hf

theorem Fills.inherits (h : Fills L role n) (hc : n.child? step = some c) :
    ∃ role', Fills L role' c ∧
      (∀ scope, role'.scope? = some scope → Inherits n role.scope? scope) ∧
      (role' = .loopTarget → n.type = .forInStatement ∧ step = ⟨"left", none⟩) := by
  rw [← Node.mem_children] at hc
  induction h
  case identifier ih | target ih | blockStatement ih | loopDeclaration ih | loopExpression ih
      | loopTarget ih => exact ih hc
  case declarationStatement ih =>
    obtain ⟨role', hfills, hin, hl⟩ := ih hc
    exact ⟨role', hfills, fun scope hs => (hin scope hs).of_none, hl⟩
  case loopVariable hid _ =>
    simp [Node.form, Form.children, Form.slots, Slot.children, Slot.placed] at hc
    obtain ⟨_, hc⟩ := hc
    subst hc
    exact ⟨.declarator .var, .declarator (by simp) hid (by simp), by simp [Role.scope?], by simp⟩
  all_goals
    simp [Node.form, Form.children, Form.slots, Slot.children, Slot.mem_placed,
      ← Option.mem_def] at hc
  all_goals
    grind [Role.scope?, Inherits.same, Inherits.inLoop, Inherits.inSwitch, Inherits.functionBody,
      isFunction, isLoop, Node.form, Node.type, Form.type, → List.mem_of_getElem?]

-- Where jumps are legal there is what they leave.
structure Allows (options : ParseOptions) (tree : Node) (l : Location) (scope : JumpScope) : Prop where
  breaks    : scope.allowsBreak → tree.Encloses isLoopOrSwitch l
  continues : scope.allowsContinue → tree.Encloses isLoop l
  returns   : scope.allowsReturn → options.allowsReturn ∨ tree.around isFunction l ≠ []

namespace Node

variable {holds : Node → Bool}

theorem Encloses.child (h : tree.Encloses holds l) (hn : tree.at? l = some n) (hf : ¬n.isFunction) :
    tree.Encloses holds (l.child step) := by
  have ⟨p, hp, hout⟩ := h
  refine ⟨p, ?_, ?_⟩
  · rw [around_child]
    split
    · exact .tail _ hp
    · exact hp
  · rwa [around_child, hn, Option.any_some, if_neg hf]

theorem encloses_child (hn : tree.at? l = some n) (hh : holds n) (hf : ¬n.isFunction) :
    tree.Encloses holds (l.child step) := by
  refine ⟨l, ?_, fun f hf' => ?_⟩
  · rw [around_child, hn, Option.any_some, if_pos hh]
    exact .head _
  · rw [around_child, hn, Option.any_some, if_neg hf] at hf'
    exact (mem_around.mp hf').left

end Node

theorem Inherits.allows {options : ParseOptions} {scope? : Option JumpScope} {scope : JumpScope}
    (h : Inherits n scope? scope) (hn : tree.at? l = some n)
    (ha : ∀ s, scope? = some s → Allows options tree l s) :
    Allows options tree (l.child step) scope := by
  have hreturns : (options.allowsReturn ∨ tree.around isFunction l ≠ []) →
      options.allowsReturn ∨ tree.around isFunction (l.child step) ≠ [] := by
    refine Or.imp_right fun h => ?_
    rw [around_child]
    split
    · exact List.cons_ne_nil _ _
    · exact h
  cases h
  case same hf =>
    obtain ⟨hb, hc, hr⟩ := ha _ rfl
    exact ⟨fun h => (hb h).child hn hf, fun h => (hc h).child hn hf, fun h => hreturns (hr h)⟩
  case inLoop s hl =>
    have hf : ¬n.isFunction := by unfold isLoop at hl; split at hl <;> simp_all [isFunction]
    exact ⟨fun _ => encloses_child hn (by simp [isLoopOrSwitch, hl]) hf,
      fun _ => encloses_child hn hl hf, fun h => hreturns ((ha s rfl).returns h)⟩
  case inSwitch s hs =>
    have hf : ¬n.isFunction := by
      unfold isFunction
      split <;> simp_all [Node.type, Form.type]
    exact ⟨fun _ => encloses_child hn (by simp [isLoopOrSwitch, hs]) hf,
      fun h => ((ha s rfl).continues h).child hn hf, fun h => hreturns ((ha s rfl).returns h)⟩
  case functionBody hf =>
    refine ⟨(by cases ·), (by cases ·), fun _ => .inr ?_⟩
    rw [around_child, hn, Option.any_some, if_pos hf]
    exact List.cons_ne_nil _ _

-- What the role of a node says about where it stands.
structure Suits (options : ParseOptions) (tree : Node) (l : Location) (role : Role) : Prop where
  jumps      : ∀ scope, role.scope? = some scope → Allows options tree l scope
  loopTarget : role = .loopTarget → tree.IsLoopTarget l

namespace Fills

variable {options : ParseOptions}

theorem suits (h : Fills L (.program { allowsReturn := options.allowsReturn }) tree)
    (hn : tree.at? l = some n) : ∃ role, Fills L role n ∧ Suits options tree l role := by
  induction l using Location.child_induction generalizing n
  case hr =>
    cases hn
    exact ⟨_, h, fun scope hs => Option.some.inj hs ▸ ⟨nofun, nofun, .inl⟩, nofun⟩
  case hc l step ih =>
    rw [at?_child, Option.bind_eq_some_iff] at hn
    have ⟨m, hm, hc⟩ := hn
    have ⟨role, hfills, hsuits⟩ := ih hm
    have ⟨role', hfills', hin, hloop⟩ := hfills.inherits hc
    refine ⟨role', hfills', fun scope hs => (hin scope hs).allows hm hsuits.jumps, fun hr => ?_⟩
    have ⟨htype, hstep⟩ := hloop hr
    cases hf : m.form <;> simp only [Node.type, hf, Form.type, reduceCtorEq] at htype
    exact ⟨l, _, _, _, congrArg l.child hstep, by rw [formAt?, hm, Option.map_some, hf]⟩

-- A jump is legal where it stands.
theorem of_jump {allowed : JumpScope → Bool} (h : Fills L role n)
    (hn : n.form.jump? = some allowed) : ∃ scope, role.scope? = some scope ∧ allowed scope := by
  induction h
  case breakStatement ha _ _ | continueStatement ha _ _ | returnStatement ha _ _ =>
    cases hn
    exact ⟨_, rfl, ha⟩
  case declarationStatement hd _ =>
    cases hd
    cases hn
  case identifier ih | target ih | blockStatement ih | loopDeclaration ih | loopExpression ih
      | loopTarget ih => exact ih hn
  all_goals cases hn

theorem of_jumpAt {allowed : JumpScope → Bool} {form : Form Node}
    (h : Fills L (.program { allowsReturn := options.allowsReturn }) tree)
    (hl : tree.formAt? l = some form) (hf : form.jump? = some allowed) :
    ∃ scope, Allows options tree l scope ∧ allowed scope := by
  have ⟨n, hn, hform⟩ := Option.map_eq_some_iff.mp hl
  have ⟨role, hfills, hsuits⟩ := h.suits hn
  have ⟨scope, hs, ha⟩ := hfills.of_jump (hform ▸ hf)
  exact ⟨scope, hsuits.jumps scope hs, ha⟩

-- A declaration is left without values only where a loop gives them.
theorem of_variableDeclaration {declarations : List Node} {kind : VariableKind}
    (h : Fills L role n) (hn : n.form = .variableDeclaration declarations kind) :
    (∀ d ∈ declarations, Fills L (.declarator kind) d) ∨ role = .loopTarget := by
  induction h
  case identifier ih | target ih | blockStatement ih => simpa using ih hn
  case loopExpression ih | loopTarget ih | loopDeclaration ih | declarationStatement ih =>
    exact (ih hn).imp_right (by simp)
  case declaration hd _ =>
    cases hn
    exact .inl hd
  case loopVariable =>
    cases hn
    exact .inr rfl
  all_goals cases hn

theorem hasInit (h : Fills L (.declarator .constant) n) :
    ∃ id init, n.form = .variableDeclarator id (some init) := by
  cases h
  case declarator hi =>
    have ⟨init, hinit⟩ := Option.isSome_iff_exists.mp (hi rfl)
    exact ⟨_, init, congrArg _ hinit⟩

end Fills

-- What is parsed is legal, whichever tokens it is parsed from.
theorem isLegal_of_parse {options : ParseOptions} {tokens : List Token}
    (h : parse options tokens = .ok tree) : IsLegal options tree := by
  have hfills := fills_of_parse h
  refine ⟨fun l form hl => ?_, fun l declarations hl => ?_, fun l label hl => ?_,
    fun l label hl => ?_, fun l argument hl => ?_⟩
  · have ⟨n, hn, hform⟩ := Option.map_eq_some_iff.mp hl
    have ⟨_, h⟩ := hfills.at? hn
    exact hform ▸ h.isLegal
  · have ⟨n, hn, hform⟩ := Option.map_eq_some_iff.mp hl
    have ⟨role, hrole, hsuits⟩ := hfills.suits hn
    rcases hrole.of_variableDeclaration hform with hall | hr
    · exact .inl fun d hd => (hall d hd).hasInit
    · exact .inr (hsuits.loopTarget hr)
  · have ⟨_, ha, hs⟩ := hfills.of_jumpAt hl rfl
    exact ha.breaks hs
  · have ⟨_, ha, hs⟩ := hfills.of_jumpAt hl rfl
    exact ha.continues hs
  · have ⟨_, ha, hs⟩ := hfills.of_jumpAt hl rfl
    exact ha.returns hs

-- A constant without a value and jumps out of a loop, as they may be written.
theorem isLegal_of_parse_loop :
    ∃ tree, parse {} (Token.ofSource
        "function f(b) \x7b for (const a in b) \x7b if (a) break; continue \x7d return b \x7d"
        true) = .ok tree ∧
      IsLegal {} tree := by
  let source := "function f(b) \x7b for (const a in b) \x7b if (a) break; continue \x7d return b \x7d"
  have h : (parse {} (Token.ofSource source true)).toOption.isSome := by decide +kernel
  cases hp : parse {} (Token.ofSource source true)
  case error => simp [hp, Except.toOption] at h
  case ok tree => exact ⟨tree, rfl, isLegal_of_parse hp⟩

end ScriptTree
