import Mathlib.Logic.Relator
import ScriptTree.Proofs.Parse.Legality
import ScriptTree.Proofs.Print.Resembles

/-!
What two writers have in common, when the same tree is printed with both, or trees that look alike.

A printer asks a writer for nothing but its options and the last mark that it has written. So a relation
between writers that agrees on these, and that every single step of a writer keeps, is kept by whole
trees.
-/

namespace ScriptTree

open Character Relator

-- A piece that is not made of spaces alone, unless it is empty.
def IsVisible (piece : String) : Prop :=
  piece.toList.all (· == ' ') → piece = ""

instance : DecidablePred IsVisible := fun piece =>
  inferInstanceAs (Decidable (piece.toList.all (· == ' ') → piece = ""))

namespace Form

variable {α : Type}

-- The text of the construct that is written as it is.
def ownText? : Form α → Option String
  | sourceCode source => some source
  | form              => form.text?

def isMember : Form α → Bool
  | memberExpression .. => true
  | _                   => false

end Form

namespace Writer

-- A relation between writers that lasts while pieces are written that fit. Members of objects may be
-- among what is written if `hasMembers`.
structure IsKept (fits : String → Prop) (hasMembers : Prop) (R : Writer → Writer → Prop) : Prop where
  visible {piece} : IsVisible piece → fits piece
  write {piece w v} : fits piece → R w v → R (w.write piece) (v.write piece)
  space {w v} : R w v → R w.space v.space
  optionalSpace {w v} : R w v → R w.optionalSpace v.optionalSpace
  newline {w v} : R w v → R w.newline v.newline
  indent {w v} : R w v → R w.indent v.indent
  dedent {w v} : R w v → R w.dedent v.dedent
  lastMark? {w v} : R w v → w.lastMark? = v.lastMark?
  encloses {w v} : R w v → w.options.encloses = v.options.encloses
  memberStyle {w v} : hasMembers → R w v → w.options.memberStyle = v.options.memberStyle

-- The relation lasts while both writers write the same.
def Keeps (R : Writer → Writer → Prop) (f : Writer → Writer) : Prop :=
  ∀ ⦃w v⦄, R w v → R (f w) (f v)

namespace IsKept

variable {fits : String → Prop} {hasMembers : Prop} {R : Writer → Writer → Prop} {w v : Writer}
  {f f' g g' i i' : Writer → Writer}

theorem mark (hR : IsKept fits hasMembers R) (piece : String) (hp : IsVisible piece) (h : R w v) :
    R (w.write piece) (v.write piece) :=
  hR.write (hR.visible hp) h

theorem endStatement (hR : IsKept fits hasMembers R) (h : R w v) : R w.endStatement v.endStatement :=
  hR.newline (hR.mark _ (by decide) h)

theorem openBlock (hR : IsKept fits hasMembers R) (h : R w v) : R w.openBlock v.openBlock :=
  hR.indent (hR.mark _ (by decide) h)

theorem closeBlock (hR : IsKept fits hasMembers R) (hasContent : Bool) (h : R w v) :
    R (w.closeBlock hasContent) (v.closeBlock hasContent) := by
  unfold Writer.closeBlock
  cases hasContent
  case true => exact hR.mark _ (by decide) (hR.newline (hR.dedent h))
  case false => exact hR.mark _ (by decide) (hR.dedent h)

theorem infixOperator (hR : IsKept fits hasMembers R) (spelling : String) (hs : IsVisible spelling)
    (h : R w v) : R (w.infixOperator spelling) (v.infixOperator spelling) := by
  unfold Writer.infixOperator
  split
  case isTrue => exact hR.space (hR.mark _ hs (hR.space h))
  case isFalse => exact hR.optionalSpace (hR.mark _ hs (hR.optionalSpace h))

theorem literal (hR : IsKept fits hasMembers R) (kind : LiteralKind) {raw : String} (hraw : fits raw)
    (h : R w v) : R (w.literal kind raw) (v.literal kind raw) := by
  unfold Writer.literal
  rw [hR.lastMark? h]
  dsimp only
  split
  case isTrue => exact hR.mark _ (by decide) (hR.write hraw (hR.mark _ (by decide) h))
  case isFalse => exact hR.write hraw h

theorem head (hR : IsKept fits hasMembers R) (word : String) (hw : IsVisible word) (hf : (R ⇒ R) f f')
    (h : R w v) : R (w.head word f) (v.head word f') :=
  hR.optionalSpace (hR.mark _ (by decide) (hf (hR.mark _ (by decide) (hR.optionalSpace (hR.mark _ hw h)))))

-- What is written of a function behind its word.
theorem functionRest (hR : IsKept fits hasMembers R) (isGenerator hasId : Bool) (hi : (R ⇒ R) i i')
    (hf : (R ⇒ R) f f') (hg : (R ⇒ R) g g') :
    (R ⇒ R)
      (fun w =>
        let w := if isGenerator then w.write "*" else w
        let w := if hasId then i w.optionalSpace else w
        g ((f (w.write "(")).write ")").optionalSpace)
      (fun v =>
        let v := if isGenerator then v.write "*" else v
        let v := if hasId then i' v.optionalSpace else v
        g' ((f' (v.write "(")).write ")").optionalSpace) := by
  intro w v h
  have hstar : R (if isGenerator then w.write "*" else w) (if isGenerator then v.write "*" else v) := by
    split
    case isTrue => exact hR.mark _ (by decide) h
    case isFalse => exact h
  have hid {w v} (h : R w v) : R (if hasId then i w.optionalSpace else w)
      (if hasId then i' v.optionalSpace else v) := by
    split
    case isTrue => exact hi (hR.optionalSpace h)
    case isFalse => exact h
  exact hg (hR.optionalSpace (hR.mark _ (by decide) (hf (hR.mark _ (by decide) (hid hstar)))))

theorem function (hR : IsKept fits hasMembers R) (traits : FunctionTraits) (hasId : Bool)
    (hi : (R ⇒ R) i i') (hf : (R ⇒ R) f f') (hg : (R ⇒ R) g g') (h : R w v) :
    R (w.function traits hasId i f g) (v.function traits hasId i' f' g') := by
  have hasync : R (if traits.isAsync then (w.write "async").space else w)
      (if traits.isAsync then (v.write "async").space else v) := by
    split
    case isTrue => exact hR.space (hR.mark _ (by decide) h)
    case isFalse => exact h
  exact hR.functionRest traits.isGenerator hasId hi hf hg (hR.mark "function" (by decide) hasync)

end IsKept
end Writer

open Writer

section

variable {fits : String → Prop} {hasMembers : Prop} {R : Writer → Writer → Prop} {f : Node → Node}
  {p : Place}

theorem emitOption_map {child : Option Node} (h : ∀ n ∈ child, (R ⇒ R) (n.emit p) ((f n).emit p)) :
    (R ⇒ R) (emitOption p child) (emitOption p (child.map f)) := by
  cases child
  case none => exact fun _ _ h => h
  case some n => exact h n rfl

theorem emitItems_map (hR : IsKept fits hasMembers R) {ns : List Node} (isFirst : Bool)
    (h : ∀ n ∈ ns, (R ⇒ R) (n.emit p) ((f n).emit p)) :
    (R ⇒ R) (emitItems p isFirst ns) (emitItems p isFirst (ns.map f)) := by
  induction ns generalizing isFirst
  case nil => exact fun _ _ h => h
  case cons n ns ih =>
    intro w v hwv
    refine ih false (fun n hn => h n (.tail _ hn)) (h n (.head _) ?_)
    cases isFirst
    case true => exact hwv
    case false => exact hR.optionalSpace (hR.mark _ (by decide) hwv)

theorem emitElements_map (hR : IsKept fits hasMembers R) {es : List (Option Node)} (isFirst : Bool)
    (h : ∀ n, some n ∈ es → (R ⇒ R) (n.emit p) ((f n).emit p)) :
    (R ⇒ R) (emitElements p isFirst es) (emitElements p isFirst (es.map (·.map f))) := by
  induction es generalizing isFirst
  case nil => exact fun _ _ h => h
  case cons e es ih =>
    intro w v hwv
    refine ih false (fun n hn => h n (.tail _ hn)) (emitOption_map (fun n hn => h n ?_) ?_)
    · exact hn ▸ .head _
    · cases isFirst
      case true => exact hwv
      case false => exact hR.optionalSpace (hR.mark _ (by decide) hwv)

theorem emitStatements_map (hR : IsKept fits hasMembers R) {ns : List Node} {isBeforeIn : Bool}
    (h : ∀ n ∈ ns, (R ⇒ R) (n.emit { isBeforeIn }) ((f n).emit { isBeforeIn })) :
    (R ⇒ R) (emitStatements isBeforeIn ns) (emitStatements isBeforeIn (ns.map f)) := by
  induction ns
  case nil => exact fun _ _ h => h
  case cons n ns ih =>
    exact fun w v hwv => ih (fun n hn => h n (.tail _ hn)) (h n (.head _) (hR.newline hwv))

theorem emitJump_map (hR : IsKept fits hasMembers R) {word : String} (hw : IsVisible word)
    {label : Option Node} {isBeforeIn : Bool}
    (h : ∀ n ∈ label, (R ⇒ R) (n.emit { isBeforeIn }) ((f n).emit { isBeforeIn })) :
    (R ⇒ R) (emitJump isBeforeIn word label) (emitJump isBeforeIn word (label.map f)) := by
  intro w v hwv
  cases label
  case none => exact hR.endStatement (hR.mark _ hw hwv)
  case some n => exact hR.endStatement (h n rfl (hR.space (hR.mark _ hw hwv)))

-- The same tree is printed with both.
theorem emitOption_keeps {child : Option Node} (h : ∀ n ∈ child, Keeps R (n.emit p)) :
    Keeps R (emitOption p child) := by
  have hchild := emitOption_map (f := id) h
  rwa [Option.map_id] at hchild

theorem emitItems_keeps (hR : IsKept fits hasMembers R) {ns : List Node} (isFirst : Bool)
    (h : ∀ n ∈ ns, Keeps R (n.emit p)) : Keeps R (emitItems p isFirst ns) := by
  have hitems := emitItems_map hR (f := id) isFirst h
  rwa [List.map_id] at hitems

theorem emitElements_keeps (hR : IsKept fits hasMembers R) {es : List (Option Node)} (isFirst : Bool)
    (h : ∀ n, some n ∈ es → Keeps R (n.emit p)) : Keeps R (emitElements p isFirst es) := by
  have helements := emitElements_map hR (f := id) isFirst h
  simp only [Option.map_id] at helements
  rwa [List.map_id] at helements

theorem Operator.isVisible (op : Operator) : IsVisible op.spelling := by
  cases op <;> decide

theorem UnaryOperator.isVisible (op : UnaryOperator) : IsVisible op.spelling := by
  cases op <;> decide

theorem UpdateOperator.isVisible (op : UpdateOperator) : IsVisible op.spelling := by
  cases op <;> decide

theorem VariableKind.isVisible (kind : VariableKind) : IsVisible kind.spelling := by
  cases kind <;> decide

theorem dotName?_isVisible {n : Node} {name : String} (h : dotName? n = some name) : IsVisible name := by
  intro hspaces
  unfold dotName? at h
  split at h
  case h_2 => cases h
  split at h
  case h_2 => cases h
  split at h
  case h_2 => cases h
  dsimp only at h
  split at h
  case isFalse => cases h
  case isTrue hname =>
    cases h
    rw [String.toList_ofList] at hspaces
    simp only [Bool.and_eq_true, Option.any_eq_true, beq_iff_eq] at hname
    obtain ⟨⟨-, c, hc, hletter⟩, -⟩ := hname
    have hspace := List.all_eq_true.mp hspaces c (List.mem_of_head? hc)
    rw [beq_iff_eq.mp hspace] at hletter
    exact absurd hletter (by decide +kernel)

-- A part that may be missing, with an optional space in front.
theorem part_map (hR : IsKept fits hasMembers R) {part : Option Node}
    (h : ∀ n ∈ part, (R ⇒ R) (n.emit p) ((f n).emit p)) :
    (R ⇒ R) (fun w => if part.isSome then emitOption p part w.optionalSpace else w)
      (fun v => if part.isSome then emitOption p (part.map f) v.optionalSpace else v) := by
  intro w v hwv
  dsimp only
  split
  case isTrue => exact emitOption_map h (hR.optionalSpace hwv)
  case isFalse => exact hwv

theorem member_keeps (hR : IsKept fits hasMembers R) {object member : Node} {isComputed isOptional : Bool}
    (hmembers : hasMembers) (hobject : ∀ p, Keeps R (object.emit p)) (hmember : ∀ p, Keeps R (member.emit p))
    (hname : ∀ name ∈ member.identifierName?, fits name) (isBeforeIn isHead : Bool) :
    Keeps R (emitForm isBeforeIn isHead (.memberExpression object member isComputed isOptional)) := by
  intro w v hwv
  have hw := hobject { least := Precedence.call, isEnclosed := isNumberLiteral object, isBeforeIn } hwv
  unfold emitForm
  dsimp only
  generalize object.emit _ w = w, object.emit _ v = v at hw
  rw [hR.memberStyle hmembers hw]
  split
  case h_1 hname => exact hR.mark _ (dotName?_isVisible hname) (hR.mark _ (by decide) hw)
  case h_2 name _ hidentifier =>
    exact hR.mark _ (by decide) (hR.write (hname name hidentifier) (hR.mark _ (by decide) hw))
  case h_3 => exact hR.mark _ (by decide) (hmember _ (hR.mark _ (by decide) hw))
  case h_4 => exact hmember _ (hR.mark _ (by decide) hw)

-- One construct and the same with other children, if these look alike and the relation lasts while each of
-- them is printed. A member of an object is left out, as the options say how it is printed.
theorem Form.emit_map (hR : IsKept fits hasMembers R) (hf : ∀ n, (f n).Resembles n) {form : Form Node}
    (hfits : ∀ text ∈ form.ownText?, fits text) (hmember : ¬form.isMember)
    (h : ∀ n ∈ form.nodes, ∀ p, (R ⇒ R) (n.emit p) ((f n).emit p)) (isBeforeIn isHead : Bool) :
    (R ⇒ R) (emitForm isBeforeIn isHead form) (emitForm isBeforeIn isHead (form.map f)) := by
  simp only [nodes_eq] at h
  intro w v hwv
  cases form <;> simp [Form.slots, ← Option.mem_def, or_imp, forall_and] at h <;>
    simp only [Form.map, emitForm, Option.isSome_map, List.isEmpty_map]
  case program => exact emitStatements_map hR (fun n hn => h n hn _) hwv
  case blockStatement =>
    exact hR.closeBlock _ (emitStatements_map hR (fun n hn => h n hn _) (hR.openBlock hwv))
  case emptyStatement => exact hR.endStatement hwv
  case expressionStatement =>
    rw [hR.encloses hwv, (hf _).startsLikeStatement]
    exact hR.endStatement (h _ hwv)
  case variableDeclaration kind =>
    have hitems := emitItems_map hR (p := { isBeforeIn }) true (fun n hn => h n hn _)
      (hR.space (hR.mark _ kind.isVisible hwv))
    cases isHead
    case true => exact hitems
    case false => exact hR.endStatement hitems
  case variableDeclarator id init =>
    have hid := h.1 { isBeforeIn } hwv
    split
    case isTrue => exact emitOption_map (fun n hn => h.2 n hn _) (hR.infixOperator _ (by decide) hid)
    case isFalse => exact hid
  case ifStatement test consequent alternate =>
    have htest := hR.head "if" (by decide) (h.1 { isBeforeIn }) hwv
    rw [(hf _).endsWithOpenIf]
    generalize w.head _ _ = w, v.head _ _ = v at htest
    have hthen : R
        (if alternate.isSome && consequent.endsWithOpenIf then
          (consequent.emit { isBeforeIn } w.openBlock.newline).closeBlock true
        else consequent.emit { isBeforeIn } w)
        (if alternate.isSome && consequent.endsWithOpenIf then
          ((f consequent).emit { isBeforeIn } v.openBlock.newline).closeBlock true
        else (f consequent).emit { isBeforeIn } v) := by
      split
      case isTrue => exact hR.closeBlock true (h.2.1 _ (hR.newline (hR.openBlock htest)))
      case isFalse => exact h.2.1 _ htest
    split
    case isTrue =>
      exact emitOption_map (fun n hn => h.2.2 n hn _)
        (hR.optionalSpace (hR.mark _ (by decide) (hR.optionalSpace hthen)))
    case isFalse => exact hthen
  case whileStatement => exact h.2 _ (hR.head _ (by decide) (h.1 _) hwv)
  case doWhileStatement =>
    have hbody := h.1 { isBeforeIn } (hR.optionalSpace (hR.mark "do" (by decide) hwv))
    exact hR.endStatement (hR.head _ (by decide) (h.2 _) (hR.optionalSpace hbody))
  case forStatement =>
    have hinit := emitOption_map (p := { isBeforeIn := true, isHead := true }) (fun n hn => h.1 n hn _)
      (hR.mark "(" (by decide) (hR.optionalSpace (hR.mark "for" (by decide) hwv)))
    have htest := part_map hR (p := { isBeforeIn }) (fun n hn => h.2.1 n hn _)
      (hR.mark ";" (by decide) hinit)
    have hupdate := part_map hR (p := { isBeforeIn }) (fun n hn => h.2.2.1 n hn _)
      (hR.mark ";" (by decide) htest)
    exact h.2.2.2 _ (hR.optionalSpace (hR.mark _ (by decide) hupdate))
  case forInStatement =>
    have hleft := h.1 { least := Precedence.call, isBeforeIn := true, isHead := true }
      (hR.mark "(" (by decide) (hR.optionalSpace (hR.mark "for" (by decide) hwv)))
    have hright := h.2.1 { isBeforeIn } (hR.infixOperator "in" (by decide) hleft)
    exact h.2.2 _ (hR.optionalSpace (hR.mark _ (by decide) hright))
  case breakStatement => exact emitJump_map hR (by decide) (fun n hn => h n hn _) hwv
  case continueStatement => exact emitJump_map hR (by decide) (fun n hn => h n hn _) hwv
  case returnStatement =>
    exact hR.endStatement (part_map hR (fun n hn => h n hn _) (hR.mark _ (by decide) hwv))
  case throwStatement => exact hR.endStatement (h _ (hR.optionalSpace (hR.mark _ (by decide) hwv)))
  case tryStatement block handler finalizer =>
    have hblock := h.1 { isBeforeIn } (hR.optionalSpace (hR.mark "try" (by decide) hwv))
    have hhandler := part_map hR (p := { isBeforeIn }) (fun n hn => h.2.1 n hn _) hblock
    dsimp only at hhandler
    split
    case isTrue =>
      exact emitOption_map (fun n hn => h.2.2 n hn _)
        (hR.optionalSpace (hR.mark _ (by decide) (hR.optionalSpace hhandler)))
    case isFalse => exact hhandler
  case catchClause => exact h.2 _ (hR.head _ (by decide) (h.1 _) hwv)
  case labeledStatement => exact h.2 _ (hR.optionalSpace (hR.mark _ (by decide) (h.1 _ hwv)))
  case debuggerStatement => exact hR.endStatement (hR.mark _ (by decide) hwv)
  case switchStatement =>
    exact hR.closeBlock _ (emitStatements_map hR (fun n hn => h.2 n hn _)
      (hR.openBlock (hR.head _ (by decide) (h.1 _) hwv)))
  case switchCase test consequent =>
    have htest : R
        (if test.isSome then emitOption { isBeforeIn } test (w.write "case").optionalSpace
          else w.write "default")
        (if test.isSome then emitOption { isBeforeIn } (test.map f) (v.write "case").optionalSpace
          else v.write "default") := by
      split
      case isTrue =>
        exact emitOption_map (fun n hn => h.1 n hn _) (hR.optionalSpace (hR.mark _ (by decide) hwv))
      case isFalse => exact hR.mark _ (by decide) hwv
    exact hR.dedent (emitStatements_map hR (fun n hn => h.2 n hn _) (hR.indent (hR.mark _ (by decide) htest)))
  case withStatement => exact h.2 _ (hR.head _ (by decide) (h.1 _) hwv)
  case functionDeclaration | functionExpression =>
    exact hR.function _ _ (emitOption_map fun n hn => h.1 n hn _)
      (emitItems_map hR true fun n hn => h.2.1 n hn _) (h.2.2 _) hwv
  case identifier | sourceCode => exact hR.write (hfits _ rfl) hwv
  case thisExpression => exact hR.mark "this" (by decide) hwv
  case literal => exact hR.literal _ (hfits _ rfl) hwv
  case arrayExpression elements =>
    have helements := emitElements_map hR (p := { least := Precedence.assignment, isBeforeIn }) true
      (fun n hn => h n (List.reduceOption_mem_iff.mpr hn) _) (hR.mark "[" (by decide) hwv)
    have hlast : (elements.map (·.map f)).getLast?.any Option.isNone =
        elements.getLast?.any Option.isNone := by
      cases hl : elements.getLast? <;> simp [hl]
    rw [hlast]
    split
    case isTrue => exact hR.mark "]" (by decide) (hR.mark "," (by decide) helements)
    case isFalse => exact hR.mark "]" (by decide) helements
  case objectExpression =>
    exact hR.mark "\x7d" (by decide)
      (emitItems_map hR true (fun n hn => h n hn _) (hR.mark "\x7b" (by decide) hwv))
  case property key value isComputed isShorthand isMethod =>
    have hkey : R
        (if isComputed then
          (key.emit { least := Precedence.assignment, isBeforeIn } (w.write "[")).write "]"
        else key.emit { isBeforeIn } w)
        (if isComputed then
          ((f key).emit { least := Precedence.assignment, isBeforeIn } (v.write "[")).write "]"
        else (f key).emit { isBeforeIn } v) := by
      split
      case isTrue => exact hR.mark _ (by decide) (h.1 _ (hR.mark _ (by decide) hwv))
      case isFalse => exact h.1 _ hwv
    split
    case isTrue => exact hkey
    case isFalse => exact h.2 _ (hR.optionalSpace (hR.mark _ (by decide) hkey))
  case sequenceExpression => exact emitItems_map hR true (fun n hn => h n hn _) hwv
  case assignmentExpression op _ _ => exact h.2 _ (hR.infixOperator _ op.isVisible (h.1 _ hwv))
  case conditionalExpression =>
    exact h.2.2 _ (hR.infixOperator _ (by decide) (h.2.1 _ (hR.infixOperator _ (by decide) (h.1 _ hwv))))
  case binaryExpression _ op _ =>
    rw [(hf _).endsWithBrace]
    exact h.2 _ (hR.infixOperator _ op.isVisible (h.1 _ hwv))
  case unaryExpression op _ _ => exact h _ (hR.mark _ op.isVisible hwv)
  case updateExpression op isPrefix argument =>
    cases isPrefix
    case true => exact h _ (hR.mark _ op.isVisible hwv)
    case false => exact hR.mark _ op.isVisible (h _ hwv)
  case callExpression =>
    exact hR.mark ")" (by decide) (emitItems_map hR true (fun n hn => h.2 n hn _)
      (hR.mark "(" (by decide) (h.1 _ hwv)))
  case newExpression =>
    rw [(hf _).isPlainMemberChain]
    exact hR.mark ")" (by decide) (emitItems_map hR true (fun n hn => h.2 n hn _)
      (hR.mark "(" (by decide) (h.1 _ (hR.space (hR.mark "new" (by decide) hwv)))))
  case memberExpression => exact absurd rfl hmember

-- One construct that is printed with both, if the relation lasts while each of its children is.
theorem Form.emit_keeps (hR : IsKept fits hasMembers R) {form : Form Node}
    (hfits : ∀ text ∈ form.ownText?, fits text)
    (hmembers : form.isMember → hasMembers ∧ ∀ n ∈ form.nodes, ∀ name ∈ n.identifierName?, fits name)
    (h : ∀ n ∈ form.nodes, ∀ p, Keeps R (n.emit p)) (isBeforeIn isHead : Bool) :
    Keeps R (emitForm isBeforeIn isHead form) := by
  by_cases hmember : form.isMember
  case pos =>
    obtain ⟨hhas, hnames⟩ := hmembers hmember
    cases form <;> cases hmember
    simp only [nodes_eq, Form.slots] at h hnames
    simp at h
    exact member_keeps hR hhas h.1 h.2 (hnames _ (by simp)) isBeforeIn isHead
  case neg =>
    have hform := emit_map hR (f := id) Node.Resembles.refl hfits hmember h isBeforeIn isHead
    rwa [Form.map_id] at hform

-- The parentheses around a node are those around one that looks like it.
theorem Node.emit_map (hR : IsKept fits hasMembers R) {form form' : Form Node} {span span' : Span}
    (hp : ∀ p : Place, p.encloses form' = p.encloses form)
    (h : ∀ isBeforeIn isHead, (R ⇒ R) (emitForm isBeforeIn isHead form) (emitForm isBeforeIn isHead form'))
    (p : Place) : (R ⇒ R) ((Node.mk span form).emit p) ((Node.mk span' form').emit p) := by
  intro w v hwv
  rw [Node.emit, Node.emit, hp]
  split
  case isTrue => exact hR.mark ")" (by decide) (h _ _ (hR.mark "(" (by decide) hwv))
  case isFalse => exact h _ _ hwv

-- A whole tree, if all that it holds fits.
theorem Node.emit_keeps (hR : IsKept fits hasMembers R) {n : Node}
    (hfits : ∀ l form text, n.formAt? l = some form → form.ownText? = some text → fits text)
    (hmembers : ∀ l form, n.formAt? l = some form → form.isMember → hasMembers) (p : Place) :
    Keeps R (n.emit p) := by
  induction n using Node.induct generalizing p
  case h n ih =>
    have hchild {c : Node} (hc : c ∈ n.form.nodes) : (∀ p, Keeps R (c.emit p)) ∧
        ∀ text, c.form.ownText? = some text → fits text := by
      obtain ⟨⟨step, c⟩, hstep, rfl⟩ := List.mem_map.mp hc
      have hstep := Node.mem_children.mp hstep
      have hat (l : Location) (form : Form Node) (hl : c.formAt? l = some form) :
          n.formAt? (step :: l) = some form := by
        rwa [Node.formAt?, Node.at?, hstep]
      exact ⟨ih step c hstep (fun l form text hl => hfits _ form text (hat l form hl))
        fun l form hl => hmembers _ form (hat l form hl), fun text => hfits _ _ text (hat [] _ rfl)⟩
    have hform := Form.emit_keeps hR (hfits [] n.form · rfl)
      (fun hm => ⟨hmembers [] n.form rfl hm, fun c hc name hname => (hchild hc).2 name ?_⟩)
      (fun c hc => (hchild hc).1)
    · obtain ⟨span, form⟩ := n
      exact Node.emit_map hR (fun _ => rfl) hform p
    · unfold Node.identifierName? at hname
      split at hname
      case h_1 hidentifier => rw [hidentifier]; exact hname
      case h_2 => cases hname

end

end ScriptTree
