import ScriptTree.Parse.Expression
import ScriptTree.Proofs.Node.Bare
import ScriptTree.Proofs.Parse.Follows

/-!
Blocks, functions and expressions, read once more where the semicolons are written.
-/

namespace ScriptTree

open Node Rule

namespace Round

variable {α β : Type}

-- Rounds that are followed by another one need a clear end.
def IsAgain : Round α β → Prop
  | again _ => True
  | finish _ => False

end Round

namespace Grammar

-- The rules that others call in a circle are followed by those of a grammar that goes as deep.
structure FollowedBy (g g' : Grammar) : Prop where
  limit      : g.limit ≤ g'.limit
  statement  : ∀ scope c, Follows .eats Clear bare (g.statement scope) (g'.statement scope) c
  expression : ∀ sequence joinsIn c,
    Follows .eats Loose bare (g.expression sequence joinsIn) (g'.expression sequence joinsIn) c
  primary    : ∀ c, Follows .eats Loose bare g.primary g'.primary c

variable {g g' : Grammar} {c : Cursor} {m : Move}

theorem bindingIdentifier_follows :
    Follows .eats Loose bare bindingIdentifier bindingIdentifier c := by
  refine Follows.eats_bind (Follows.expect (by simp)) fun t t' _ h => ?_
  exact .pure trivial (congrArg (bare ∘ identifierOf) h)

-- A node with what was read as its parts, whose span may differ.
theorem spanned {K : Node → Prop} {start start' : Nat} {form form' : Form Node}
    (hm : ∀ n, m.Stays (K n)) (h : form'.map bare = form.map bare) :
    Follows m K bare (do return .mk (← spanFrom start) form)
      (do return .mk (← spanFrom start') form') c :=
  .spanFrom fun _ _ => .pure (hm _) (by rw [bare_mk, bare_mk, h])

-- The end of a statement that has a terminator.
theorem terminated {start start' : Nat} {form form' : Form Node}
    (h : form'.map bare = form.map bare) :
    Follows .ends Clear bare (do terminator; return .mk (← spanFrom start) form)
      (do terminator; return .mk (← spanFrom start') form') c :=
  Follows.terminator.ends_bind fun _ _ _ _ => spanned (fun _ => trivial) h

variable (hg : g.FollowedBy g')
include hg

/-! ### Blocks and functions -/

theorem block_follows (scope : JumpScope) :
    Follows .eats Loose bare (g.block scope) (g'.block scope) c := by
  refine .start fun _ _ => .expecting (by simp) fun c => ?_
  refine Follows.eats_bind (e := List.map bare)
    (Follows.loop (m := .eats) (K := Round.IsAgain) (e := List.map bare) (fun body body' c hb => ?_)
      (fun _ _ => trivial) hg.limit rfl) fun body body' _ hb => ?_
  · refine .check_ite (by simp) (fun hk => ?_) fun _ => .isAtEnd_ite (fun _ => .unexpected) ?_
    · exact .skip_bind (by simp [hk]) fun _ => .pure trivial (by simp [Round.map, hb])
    · exact (hg.statement scope _).eats_bind_holds fun n n' _ hn =>
        .pure trivial (by simp [Round.map, hb, hn])
  · exact spanned (fun _ => trivial) (by simp [Form.map, hb])

omit hg in
theorem params_follows (h : g.limit ≤ g'.limit) :
    Follows .eats Loose (List.map bare) g.params g'.params c := by
  refine .expecting (by simp) fun c => .of_eats ?_
  refine Follows.loop (K := Loose) (e := List.map bare) (fun ns ns' c hns => ?_) (by simp) h rfl
  refine .accept_ite (by simp) (fun _ => .pure trivial (by simp [Round.map, hns])) fun _ => ?_
  refine bindingIdentifier_follows.eats_bind fun n n' _ hn => ?_
  refine .accept_ite (by simp) (fun _ => .pure trivial ?_) fun _ => .expecting (by simp) fun _ =>
    .pure trivial ?_ <;> simp [Round.map, hns, hn]

-- The parts of a function without spans.
def FunctionParts.bare (f : FunctionParts) : FunctionParts :=
  ⟨nowhere, f.id.map Node.bare, f.params.map Node.bare, f.body.bare, f.traits⟩

omit hg in
theorem FunctionParts.toExpression_of_bare {f f' : FunctionParts} (h : f'.bare = f.bare) :
    f'.toExpression.bare = f.toExpression.bare := by
  simp only [FunctionParts.bare, FunctionParts.mk.injEq] at h
  simp [toExpression, bare_mk, Form.map, h]

omit hg in
theorem FunctionParts.toDeclaration_of_bare {f f' : FunctionParts} (h : f'.bare = f.bare) :
    f'.toDeclaration.bare = f.toDeclaration.bare := by
  simp only [FunctionParts.bare, FunctionParts.mk.injEq] at h
  simp [toDeclaration, bare_mk, Form.map, h]

-- A function from its parameters on, and from the word `function` on.

def functionRest (g : Grammar) (start : Nat) (isAsync isGenerator : Bool) (id : Option Node) :
    Rule FunctionParts := do
  let params ← g.params
  let body ← g.block .functionBody
  return ⟨← spanFrom start, id, params, body, { isAsync, isGenerator }⟩

def functionFrom (g : Grammar) (start : Nat) (isAsync needsName : Bool) : Rule FunctionParts := do
  discard <| expect (.keyword .functionWord)
  let isGenerator ← accept (.operator .star)
  let id ←
    if ← check .identifier then some <$> bindingIdentifier
    else if needsName then unexpected
    else pure none
  g.functionRest start isAsync isGenerator id

theorem functionRest_follows (start start' : Nat) (isAsync isGenerator : Bool) {id id' : Option Node}
    (hid : id'.map bare = id.map bare) :
    Follows .ends Loose FunctionParts.bare (g.functionRest start isAsync isGenerator id)
      (g'.functionRest start' isAsync isGenerator id') c := by
  refine (params_follows hg.limit).eats_bind fun ps ps' _ hps => ?_
  refine (block_follows hg _).eats_bind fun body body' _ hb => .spanFrom fun _ _ => ?_
  exact .pure trivial (by simp [FunctionParts.bare, hid, hps, hb])

theorem functionFrom_follows (start start' : Nat) (isAsync needsName : Bool) :
    Follows .eats Loose FunctionParts.bare (g.functionFrom start isAsync needsName)
      (g'.functionFrom start' isAsync needsName) c := by
  refine .expecting (by simp) fun c => (Follows.accept (by simp)).stays_bind fun b b' c h => ?_
  obtain rfl : b' = b := h
  refine .check_ite (by simp) (fun _ => ?_) fun _ => ?_
  · refine Follows.map_bind (bindingIdentifier_follows.eats_bind fun id id' _ hid => ?_)
    exact functionRest_follows hg _ _ _ _ (congrArg some hid)
  · split
    · exact .fails fun _ h => by cases h
    · exact functionRest_follows hg _ _ _ _ rfl

omit hg in
theorem function_eq (g : Grammar) (isAsync needsName : Bool) :
    g.function isAsync needsName = (do
      let start ← start
      if isAsync then discard advance
      g.functionFrom start isAsync needsName) :=
  rfl

theorem function_follows {isAsync needsName : Bool}
    (hk : isAsync → c.current.kind ≠ .endOfInput) :
    Follows .eats Loose FunctionParts.bare (g.function isAsync needsName)
      (g'.function isAsync needsName) c := by
  rw [function_eq, function_eq]
  refine .start fun start start' => ?_
  dsimp only
  split
  case isTrue h =>
    exact .skip_bind (hk h) fun _ => (functionFrom_follows hg _ _ _ _).of_eats
  case isFalse => exact functionFrom_follows hg _ _ _ _

/-! ### Expressions -/

theorem parenthesized_follows : Follows .eats Loose bare g.parenthesized g'.parenthesized c :=
  .expecting (by simp) fun _ => (hg.expression _ _ _).eats_bind fun _ _ _ hn =>
    .expecting (by simp) fun _ => .pure trivial hn

theorem arguments_follows : Follows .eats Loose (List.map bare) g.arguments g'.arguments c := by
  refine .expecting (by simp) fun c => .of_eats ?_
  refine Follows.loop (K := Loose) (e := List.map bare) (fun ns ns' c hns => ?_) (fun _ => False.elim)
    hg.limit rfl
  refine .accept_ite (by simp) (fun _ => .pure trivial (by simp [Round.map, hns])) fun _ => ?_
  refine (hg.expression _ _ _).eats_bind fun n n' _ hn => ?_
  refine .accept_ite (by simp) (fun _ => .pure trivial ?_) fun _ => .expecting (by simp) fun _ =>
    .pure trivial ?_ <;> simp [Round.map, hns, hn]

omit hg in
theorem memberOf_follows {object object' member member' : Node} (isComputed : Bool)
    (ho : object'.bare = object.bare) (hn : member'.bare = member.bare) :
    Follows .ends Loose (Round.map bare (bare : Node → Node))
      (.again <$> memberOf object member isComputed)
      (.again <$> memberOf object' member' isComputed) c :=
  Follows.map (K := Loose) (spanned (fun _ => trivial) (by simp [Form.map, ho, hn]))
    (by simp [Round.map]) (by simp)

-- Looks for one access.
def access (g : Grammar) (object : Node) : Rule (Round Node Node) := do
  if ← accept (.operator .dot) then
    if (← current).isWord then
      .again <$> memberOf object (identifierOf (← advance)) false
    else unexpected
  else if ← accept (.operator .leftBracket) then
    let member ← g.expression true true
    discard <| expect (.operator .rightBracket)
    .again <$> memberOf object member true
  else return .finish object

def startsAccess (c : Cursor) : Prop :=
  c.current.kind = .operator .dot ∨ c.current.kind = .operator .leftBracket

theorem access_follows {object object' : Node} (ho : object'.bare = object.bare)
    (hm : startsAccess c ∨ m.Stays False) :
    Follows m Loose (Round.map bare bare) (g.access object) (g'.access object') c := by
  refine .accept_ite (by simp) (fun c => ?_) fun hdot => .accept_ite (by simp) (fun c => ?_)
    fun hbracket => ?_
  · refine .of_eats (.current_pins trivial ?_)
    split
    case isTrue hw =>
      refine Follows.eats_bind (.advance fun hk => ?_) fun t t' _ ht => memberOf_follows _ ho ?_
      · simp [Token.isWord, hk, TokenKind.isWord] at hw
      · exact congrArg (bare ∘ identifierOf) ht
    case isFalse => exact .unexpected
  · exact (hg.expression _ _ _).eats_bind fun _ _ _ hn => .expecting (by simp) fun _ =>
      memberOf_follows _ ho hn
  · exact .pure (hm.resolve_left fun h => h.elim hdot hbracket) (by simp [Round.map, ho])

theorem members_follows {object object' : Node} (ho : object'.bare = object.bare) :
    Follows .stays Loose bare (g.members object) (g'.members object') c :=
  Follows.loop (m := .stays) (K := Loose) (fun _ _ _ ho => access_follows hg ho (.inr trivial)) (by simp)
    hg.limit ho

theorem members_follows_of_access {object object' : Node} (ho : object'.bare = object.bare)
    (hk : startsAccess c) :
    Follows .eats Loose bare (g.members object) (g'.members object') c :=
  Follows.loop_of_first (access_follows hg ho (.inl hk))
    (fun _ _ _ ho => access_follows hg ho (.inr trivial)) hg.limit

theorem call_follows {callee callee' : Node} (hc : callee'.bare = callee.bare) :
    Follows .eats Loose bare (g.call callee) (g'.call callee') c :=
  (arguments_follows hg).eats_bind fun _ _ _ ha => spanned (fun _ => trivial)
    (by simp [Form.map, hc, ha])

omit hg in
theorem updated_follows {target target' : Node} (ht : target'.bare = target.bare) :
    Follows .eats Loose bare (updated target) (updated target') c := by
  refine .advance_bind (fun hk c' x h => ?_) fun c' => ?_
  · simp only [hk, TokenKind.operator?, Option.bind_none] at h
    split at h <;> cases h
  · rw [isAssignable_of_bare ht]
    (repeat' split)
    · exact .fails fun _ h => by cases h
    · exact spanned (fun _ => trivial) (by simp [Form.map, ht])
    · exact .fails fun _ h => by cases h

theorem assigned_follows {target target' : Node} (ht : target'.bare = target.bare) :
    Follows .eats Loose bare (g.assigned target) (g'.assigned target') c := by
  refine .advance_bind (fun hk c' x h => ?_) fun c' => ?_
  · simp only [hk, TokenKind.operator?] at h
    split at h <;> cases h
  · rw [isAssignable_of_bare ht]
    (repeat' split)
    · exact .fails fun _ h => by cases h
    · exact (hg.expression _ _ _).eats_bind fun _ _ _ hv =>
        spanned (fun _ => trivial) (by simp [Form.map, ht, hv])
    · exact .fails fun _ h => by cases h

-- Looks for one more expression of a sequence.
def nextInSequence (g : Grammar) (expressions : List Node) : Rule (Round (List Node) (List Node)) := do
  if ← accept (.operator .comma) then
    return .again (expressions ++ [← g.expression false true])
  else return .finish expressions

theorem nextInSequence_follows {ns ns' : List Node} (hns : ns'.map bare = ns.map bare)
    (hm : c.current.kind = .operator .comma ∨ m.Stays False) :
    Follows m Loose (Round.map (List.map bare) (List.map bare)) (g.nextInSequence ns)
      (g'.nextInSequence ns') c := by
  refine .accept_ite (by simp) (fun _ => ?_) fun hk => .pure (hm.resolve_left hk) ?_
  · exact (hg.expression _ _ _).eats_bind fun _ _ _ hn =>
      .pure trivial (by simp [Round.map, hns, hn])
  · simp [Round.map, hns]

theorem sequenced_follows {first first' : Node} (hf : first'.bare = first.bare)
    (hk : c.current.kind = .operator .comma) :
    Follows .eats Loose bare (g.sequenced first) (g'.sequenced first') c := by
  have hloop : Follows .eats Loose (List.map bare) (loop g.limit g.nextInSequence [first])
      (loop g'.limit g'.nextInSequence [first']) c :=
    Follows.loop_of_first (nextInSequence_follows hg (by simp [hf]) (.inl hk))
      (fun _ _ _ hns => nextInSequence_follows hg hns (.inr trivial)) hg.limit
  exact hloop.eats_bind fun _ _ _ hns => spanned (fun _ => trivial) (by simp [Form.map, hns])

theorem branched_follows {test test' : Node} (ht : test'.bare = test.bare) :
    Follows .eats Loose bare (g.branched test) (g'.branched test') c :=
  (hg.expression _ _ _).eats_bind fun _ _ _ hc => .expecting (by simp) fun _ =>
    (hg.expression _ _ _).eats_bind fun _ _ _ ha =>
      spanned (fun _ => trivial) (by simp [Form.map, ht, hc, ha])

-- Takes in one thing that follows an operand, as the current token says, which may stand behind a line
-- break.
def follow (g : Grammar) (allows : Followers) (node : Node) (seen : Token × Bool) :
    Rule (Round Node Node) :=
  if seen.1.kind == .operator .dot || seen.1.kind == .operator .leftBracket then
    .again <$> g.members node
  else if seen.1.kind == .operator .leftParen then .again <$> g.call node
  else if seen.1.marks.update && !seen.2 then .again <$> updated node
  else if allows.assignment && seen.1.marks.assignment then .again <$> g.assigned node
  else if allows.sequence && seen.1.kind == .operator .comma then .again <$> g.sequenced node
  else if allows.conditional && seen.1.kind == .operator .question then
    discard advance >>= fun _ => .again <$> g.branched node
  else return .finish node

omit hg in
theorem follow_of_isSemicolon {allows : Followers} {node : Node} {seen : Token × Bool}
    (h : seen.1.IsSemicolon) : g.follow allows node seen = pure (.finish node) := by
  have hmarks : seen.1.marks.update = false ∧ seen.1.marks.assignment = false := by
    rw [h.marks]
    decide
  simp [follow, h.kind, hmarks]

-- Tokens are consumed, or nothing follows.
theorem follow_follows (allows : Followers) (isAfterLineBreak : Bool) {node node' : Node}
    (hn : node'.bare = node.bare) :
    Follows .eats Loose (Round.map bare bare) (g.follow allows node (c.current, isAfterLineBreak))
        (g'.follow allows node' (c.current, isAfterLineBreak)) c ∨
      g.follow allows node (c.current, isAfterLineBreak) = pure (.finish node) ∧
        g'.follow allows node' (c.current, isAfterLineBreak) = pure (.finish node') := by
  have again {r r' : Rule Node} {c} (h : Follows .eats Loose bare r r' c) :
      Follows .eats Loose (Round.map bare bare) (.again <$> r) (.again <$> r') c :=
    h.map (fun h => by simp [Round.map, h]) (by simp)
  unfold follow
  split
  case isTrue h => exact .inl (again (members_follows_of_access hg hn (by simpa [startsAccess] using h)))
  split
  · exact .inl (again (call_follows hg hn))
  split
  · exact .inl (again (updated_follows hn))
  split
  · exact .inl (again (assigned_follows hg hn))
  split
  case isTrue h => exact .inl (again (sequenced_follows hg hn (by simp_all)))
  split
  case isTrue h =>
    exact .inl (.skip_bind (by simp_all) fun _ => (again (branched_follows hg hn)).of_eats)
  case isFalse => exact .inr ⟨rfl, rfl⟩

theorem followed_follows (allows : Followers) {operand operand' : Node}
    (ho : operand'.bare = operand.bare) :
    Follows .stays Loose bare (g.followed allows operand) (g'.followed allows operand') c := by
  refine Follows.loop (m := .stays) (K := Loose) (e := bare) (fun n n' c hn => ?_) (fun _ => False.elim)
    hg.limit ho
  have hrun (g : Grammar) n c : (do
      let token ← current
      if token.kind == .operator .dot || token.kind == .operator .leftBracket then
        .again <$> g.members n
      else if token.kind == .operator .leftParen then
        .again <$> g.call n
      else if token.marks.update && !(← isAfterLineBreak) then
        .again <$> updated n
      else if allows.assignment && token.marks.assignment then
        .again <$> g.assigned n
      else if allows.sequence && token.kind == .operator .comma then
        .again <$> g.sequenced n
      else if allows.conditional && token.kind == .operator .question then
        discard advance
        .again <$> g.branched n
      else return .finish n : Rule (Round Node Node)).run c =
        (g.follow allows n (c.current, c.isAfterLineBreak)).run c := by
    unfold follow
    rw [Follows.run_read (x := current) fun _ => rfl]
    split
    · rfl
    split
    · rfl
    rw [Follows.run_read (x := isAfterLineBreak) fun _ => rfl]
  refine Follows.seen (s := fun c => (c.current, c.isAfterLineBreak)) (f := g.follow allows n)
    (hrun g n c) (hrun g' n') (fun h => by simp [h.current, h.isAfterLineBreak]) ?_
  refine (follow_follows hg allows _ hn).imp_right fun ⟨h, h'⟩ => ?_
  have hfinish : Follows .stays Loose (Round.map bare (bare : Node → Node)) (pure (.finish n))
      (pure (.finish n')) c :=
    .pure trivial (by simp [Round.map, hn])
  rw [h, h']
  refine ⟨hfinish, fun {d} hd => ?_⟩
  rw [follow_of_isSemicolon hd]
  exact hfinish

theorem operand_follows : Follows .eats Loose bare g.operand g'.operand c :=
  (hg.primary _).eats_bind fun _ _ _ hn => (followed_follows hg _ hn).of_moves Move.Holds.reaches

theorem prefixUpdate_follows (operator : UpdateOperator) (hk : c.current.kind ≠ .endOfInput) :
    Follows .eats Loose bare (g.prefixUpdate operator) (g'.prefixUpdate operator) c := by
  refine (Follows.advance hk).eats_bind fun op op' _ _ => (operand_follows hg).eats_bind fun n n' _ hn => ?_
  rw [isAssignable_of_bare hn]
  split
  · exact spanned (fun _ => trivial) (by simp [Form.map, hn])
  · exact .fails fun _ h => by cases h

theorem unary_follows (operator : UnaryOperator) (hk : c.current.kind ≠ .endOfInput) :
    Follows .eats Loose bare (g.unary operator) (g'.unary operator) c :=
  (Follows.advance hk).eats_bind fun _ _ _ _ => (operand_follows hg).eats_bind fun _ _ _ hn =>
    spanned (fun _ => trivial) (by simp [Form.map, hn])

theorem construction_follows : Follows .eats Loose bare g.construction g'.construction c := by
  refine .start fun start start' => .expecting (by simp) fun _ => (hg.primary _).eats_bind
    fun n n' _ hn => (members_follows hg hn).stays_bind fun callee callee' _ hc => ?_
  have rest {ns ns' : List Node} {c} (hns : ns'.map bare = ns.map bare) :
      Follows .ends Loose bare (do return .mk (← spanFrom start) (.newExpression callee ns))
        (do return .mk (← spanFrom start') (.newExpression callee' ns')) c :=
    spanned (fun _ => trivial) (by simp [Form.map, hc, hns])
  exact .check_ite (by simp) (fun _ => (arguments_follows hg).eats_bind fun _ _ _ hns => rest hns)
    fun _ => rest rfl

theorem array_follows : Follows .eats Loose bare g.array g'.array c := by
  refine .start fun _ _ => .expecting (by simp) fun _ => ?_
  refine Follows.eats_bind (e := List.map (Option.map bare)) (Follows.loop (m := .eats) (K := Loose)
    (e := List.map (Option.map bare)) (fun ns ns' c hns => ?_) (fun _ => False.elim) hg.limit rfl)
    fun _ _ _ hns => spanned (fun _ => trivial) (by simp [Form.map, hns])
  refine .accept_ite (by simp) (fun _ => .pure trivial (by simp [Round.map, hns])) fun _ =>
    .isAtEnd_ite (fun _ => .unexpected) (.accept_ite (by simp) (fun _ => .pure trivial ?_)
      fun _ => ?_)
  · simp [Round.map, hns]
  · refine (hg.expression _ _ _).eats_bind fun n n' _ hn => ?_
    refine .accept_ite (by simp) (fun _ => .pure trivial ?_) fun _ => .expecting (by simp) fun _ =>
      .pure trivial ?_ <;> simp [Round.map, hns, hn]

omit hg in
theorem literal_follows : Follows .eats Loose bare literal literal c := by
  refine .current_pins trivial ?_
  split
  case h_1 kind hk =>
    refine (Follows.advance fun he => ?_).eats_bind fun t t' _ (ht : t' = t) => .pure trivial ?_
    · simp [literalKind?, he] at hk
    · simp [ht, bare_mk]
  case h_2 => exact .unexpected

omit hg in
theorem propertyKey_follows : Follows .eats Loose bare propertyKey propertyKey c := by
  refine .current_pins trivial ?_
  split
  · exact literal_follows
  · split
    case isTrue hw =>
      refine (Follows.advance fun hk => ?_).map (fun ht => congrArg (bare ∘ identifierOf) ht) (by simp)
      simp [Token.isWord, hk, TokenKind.isWord] at hw
    case isFalse => exact .unexpected

theorem property_follows : Follows .eats Loose bare g.property g'.property c :=
  propertyKey_follows.eats_bind fun _ _ _ hk => .expecting (by simp) fun _ =>
    (hg.expression _ _ _).eats_bind fun _ _ _ hv =>
      spanned (fun _ => trivial) (by simp [Form.map, hk, hv])

theorem object_follows : Follows .eats Loose bare g.object g'.object c := by
  refine .start fun _ _ => .expecting (by simp) fun _ => ?_
  refine Follows.eats_bind (e := List.map bare) (Follows.loop (m := .eats) (K := Loose)
    (e := List.map bare) (fun ns ns' c hns => ?_) (fun _ => False.elim) hg.limit rfl)
    fun _ _ _ hns => spanned (fun _ => trivial) (by simp [Form.map, hns])
  refine .accept_ite (by simp) (fun _ => .pure trivial (by simp [Round.map, hns])) fun _ =>
    .isAtEnd_ite (fun _ => .unexpected) ((property_follows hg).eats_bind fun n n' _ hn => ?_)
  refine .accept_ite (by simp) (fun _ => .pure trivial ?_) fun _ => .expecting (by simp) fun _ =>
    .check_ite (by simp) (fun _ => .unexpected) fun _ => .pure trivial ?_ <;> simp [Round.map, hns, hn]

omit hg in
theorem startsAsyncFunction_of_level {semicolon : Token → Token} {places : List Nat} {d : Cursor}
    (hs : ∀ t, (semicolon t).IsSemicolon) (hc : c.Rests) (h : Cursor.Level semicolon places c d)
    (hd : startsAsyncFunction d) : startsAsyncFunction c := by
  simp only [startsAsyncFunction, Bool.and_eq_true, beq_iff_eq, h.current] at hd ⊢
  rcases h.following hs hc with hf | ⟨_, hf⟩
  · exact hf ▸ hd
  · simp [hf.kind] at hd

-- A function may be asynchronous where an identifier stands.
theorem asyncFunction_follows {K : Node → Prop} {toNode : FunctionParts → Node} {needsName : Bool}
    {z z' : Rule Node} (hk : c.current.kind = .identifier)
    (hnode : ∀ {f f' : FunctionParts}, f'.bare = f.bare → (toNode f').bare = (toNode f).bare)
    (hz : Follows .eats K bare z z' c) :
    Follows .eats K bare
      (do if startsAsyncFunction (← get) then toNode <$> g.function true needsName else z)
      (do if startsAsyncFunction (← get) then toNode <$> g'.function true needsName else z') c := by
  have hne : c.current.kind ≠ .endOfInput := by simp [hk]
  refine .peek_ite (Follows.run_get_ite _ _ _ c) (fun _ => Follows.run_get_ite _ _ _ _) trivial
    startsAsyncFunction_of_level ?_ (fun _ => ?_) hz
  · intro semicolon places d a c' hs hc hl hrun hset hb
    -- The word `function` is consumed too, so no semicolon is written before it.
    have hclear : c.advance.IsClear places := by
      rw [StateT.run_map] at hrun
      rcases hrun' : (g.function true needsName).run c with _ | ⟨f, c''⟩ <;> rw [hrun'] at hrun
      · cases hrun
      · cases hrun
        have h := functionFrom_follows hg c.current.span.start 0 true needsName hc.advance hrun'
        exact Cursor.Eats.isClear h.moves hset
    have hplaces := (hc.isClear_advance hne).mp hclear
    have hf := (hl.following hs hc).resolve_right fun h => hplaces h.left
    simpa only [startsAsyncFunction, hl.current, hf] using hb
  · exact (function_follows hg fun _ => hne).map hnode (by simp)

theorem primaryRule_follows : Follows .eats Loose bare g.primaryRule g'.primaryRule c := by
  refine .current_pins trivial ?_
  split
  case h_1 hk => exact prefixUpdate_follows hg _ (by simp [hk])
  case h_2 hk => exact prefixUpdate_follows hg _ (by simp [hk])
  case h_3 hk =>
    refine asyncFunction_follows hg hk FunctionParts.toExpression_of_bare ?_
    exact (Follows.advance (by simp [hk])).map (fun ht => congrArg (bare ∘ identifierOf) ht) (by simp)
  case h_4 hk =>
    exact (Follows.advance (by simp [hk])).eats_bind fun _ _ _ _ => .pure trivial (by simp [bare_mk])
  case h_5 => exact (function_follows hg (by simp)).map FunctionParts.toExpression_of_bare (by simp)
  case h_6 => exact construction_follows hg
  case h_7 => exact parenthesized_follows hg
  case h_8 => exact array_follows hg
  case h_9 => exact object_follows hg
  case h_10 =>
    split
    case h_1 hop =>
      refine unary_follows hg _ fun hk => ?_
      simp [hk, unaryOperator?] at hop
    case h_2 => exact literal_follows

/-! ### Runs of operands -/

namespace OperandRun

omit hg

-- A run of operands without spans.
def bare (run : OperandRun) : OperandRun :=
  ⟨run.pending.map fun (left, operator) => (left.bare, operator), run.last.bare⟩

theorem join_bare (left right : Node) (operator : Operator) :
    (join left operator right).bare = join left.bare operator right.bare := by
  rw [join, join, bare_mk, bare_span, bare_span]
  rfl

theorem fold_bare (takes : Operator → Bool) (pending : List (Node × Operator)) (last : Node) :
    (fold takes pending last).bare =
      fold takes (pending.map fun (left, operator) => (left.bare, operator)) last.bare := by
  induction pending generalizing last
  case nil => rfl
  case cons p pending ih =>
    simp only [fold, List.map_cons]
    split
    · rw [ih, join_bare]
    · rfl

variable {run run' : OperandRun}

theorem fold_of_bare (takes : Operator → Bool) (h : run'.bare = run.bare) :
    (fold takes run'.pending run'.last).bare = (fold takes run.pending run.last).bare := by
  rw [fold_bare, fold_bare]
  exact congrArg (fun run : OperandRun => fold takes run.pending run.last) h

theorem last_of_bare (h : run'.bare = run.bare) : run'.last.bare = run.last.bare :=
  congrArg OperandRun.last h

theorem push_of_bare {right right' : Node} (h : run'.bare = run.bare)
    (hr : right'.bare = right.bare) (operator : Operator) (level : Nat) :
    (run'.push operator level right').bare = (run.push operator level right).bare := by
  have hf := fold_of_bare (fun op => op.level.any (level ≤ ·)) h
  have hp := congrArg OperandRun.pending hf
  simp only [bare] at hp
  simp [push, bare, hp, last_of_bare hf, hr]

theorem toNode_of_bare (h : run'.bare = run.bare) : run'.toNode.bare = run.toNode.bare :=
  last_of_bare (fold_of_bare _ h)

end OperandRun

-- Looks for one more operator and its right operand.
def nextOperand (g : Grammar) (joinsIn : Bool) (run : OperandRun) :
    Rule (Round OperandRun OperandRun) := do
  match joiner? joinsIn (← current) with
  | some (operator, level) =>
    discard advance
    let right ← g.operand
    return .again (OperandRun.push run operator level right)
  | none => return .finish run

omit hg in
theorem kind_ne_of_joiner? {joinsIn : Bool} {t : Token} {joiner : Operator × Nat}
    (h : joiner? joinsIn t = some joiner) : t.kind ≠ .endOfInput := by
  intro hk
  simp [joiner?, hk] at h

omit hg in
theorem of_joiner? {joinsIn : Bool} {t : Token} {operator : Operator} {level : Nat}
    (h : joiner? joinsIn t = some (operator, level)) :
    (t.marks.binary ∧ isNoJoiner operator = false ∧ t.marks.level = some level) ∧
      (t.kind = .operator operator ∨ t.kind = .keyword .inWord ∧ operator = .inside ∨
        t.kind = .keyword .instanceofWord ∧ operator = .instanceOf) := by
  have hfound {found : Operator} (h : (if t.marks.binary && !isNoJoiner found then
      t.marks.level.bind fun level => some (found, level) else none) = some (operator, level)) :
      (t.marks.binary ∧ isNoJoiner operator = false ∧ t.marks.level = some level) ∧ found = operator := by
    split at h
    case isFalse => cases h
    case isTrue hjoins =>
      obtain ⟨level', hlevel, h⟩ := Option.bind_eq_some_iff.mp h
      cases h
      simp only [Bool.and_eq_true, Bool.not_eq_true'] at hjoins
      exact ⟨⟨hjoins.1, hjoins.2, hlevel⟩, rfl⟩
  unfold joiner? at h
  split at h
  case h_1 hk =>
    obtain ⟨hjoins, rfl⟩ := hfound h
    exact ⟨hjoins, .inl hk⟩
  case h_2 hk =>
    split at h
    case isFalse => cases h
    case isTrue =>
      obtain ⟨hjoins, rfl⟩ := hfound h
      exact ⟨hjoins, .inr (.inl ⟨hk, rfl⟩)⟩
  case h_3 hk =>
    obtain ⟨hjoins, rfl⟩ := hfound h
    exact ⟨hjoins, .inr (.inr ⟨hk, rfl⟩)⟩
  case h_4 => cases h

omit hg in
theorem joiner?_of_isSemicolon {joinsIn : Bool} {t : Token} (h : t.IsSemicolon) :
    joiner? joinsIn t = none := by
  have hmarks : t.marks.level = none := by
    rw [h.marks]
    rfl
  simp [joiner?, h.kind, hmarks]

theorem nextOperand_follows {joinsIn : Bool} {run run' : OperandRun} (hrun : run'.bare = run.bare)
    (hm : (joiner? joinsIn c.current).isSome ∨ m.Stays False) :
    Follows m Loose (Round.map OperandRun.bare OperandRun.bare) (g.nextOperand joinsIn run)
      (g'.nextOperand joinsIn run') c := by
  refine .current ?_
  cases hj : joiner? joinsIn c.current
  case some p =>
    obtain ⟨operator, level⟩ := p
    refine .inl (.skip_bind (fun hk => ?_) fun _ => ?_)
    · simp [joiner?, hk] at hj
    · exact (operand_follows hg).eats_bind fun _ _ _ hr =>
        .pure trivial (by simp [Round.map, OperandRun.push_of_bare hrun hr])
  case none =>
    have hfinish : Follows m Loose (Round.map OperandRun.bare OperandRun.bare)
        (pure (Round.finish run)) (pure (Round.finish run')) c :=
      .pure (hm.resolve_left (by simp [hj])) (by simp [Round.map, hrun])
    exact .inr ⟨hfinish, fun hd => by simpa [joiner?_of_isSemicolon hd] using hfinish⟩

theorem expressionRule_follows (sequence joinsIn : Bool) :
    Follows .eats Loose bare (g.expressionRule sequence joinsIn)
      (g'.expressionRule sequence joinsIn) c := by
  refine (hg.primary _).eats_bind fun n n' _ hn =>
    (followed_follows hg _ hn).stays_bind fun first first' c hf => .current ?_
  cases hj : joiner? joinsIn c.current
  case none =>
    have hfirst : Follows .ends Loose Node.bare (pure first) (pure first') c := .pure trivial hf
    exact .inr ⟨by simpa using hfirst, fun hd => by simpa [joiner?_of_isSemicolon hd] using hfirst⟩
  case some p =>
    have hloop : Follows .eats Loose OperandRun.bare
        (loop g.limit (g.nextOperand joinsIn) (OperandRun.mk [] first))
        (loop g'.limit (g'.nextOperand joinsIn) (OperandRun.mk [] first')) c :=
      Follows.loop_of_first (nextOperand_follows hg (by simp [OperandRun.bare, hf]) (.inl (by simp [hj])))
        (fun _ _ _ h => nextOperand_follows hg h (.inr trivial)) hg.limit
    refine .inl (hloop.eats_bind fun run run' _ hrun => ?_)
    exact (followed_follows hg _ (OperandRun.toNode_of_bare hrun)).of_moves Move.Holds.reaches

end Grammar
end ScriptTree
