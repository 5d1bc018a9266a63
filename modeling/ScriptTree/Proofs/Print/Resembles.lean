import ScriptTree.Node.Fold
import ScriptTree.Print
import ScriptTree.Proofs.Node.Nesting
import ScriptTree.Proofs.Parse.Role

/-!
Nodes that look alike from outside.

Whatever is around a node asks little of it: how tight it holds together, and what it looks like at its two
ends. A change of a tree that leaves this of each node alone changes nothing around it.
-/

namespace ScriptTree

namespace Node

-- Whatever is asked of the one node has the same answer for the other.
structure Resembles (n m : Node) : Prop where
  type                 : n.type = m.type
  startsLikeStatement  : n.startsLikeStatement = m.startsLikeStatement
  endsWithBrace        : n.endsWithBrace = m.endsWithBrace
  isPlainMemberChain   : n.isPlainMemberChain = m.isPlainMemberChain
  endsWithOpenIf       : n.endsWithOpenIf = m.endsWithOpenIf
  endsWithTerminator   : n.endsWithTerminator = m.endsWithTerminator
  isDefaultCase        : n.isDefaultCase = m.isDefaultCase
  isAssignable         : n.isAssignable = m.isAssignable
  isNumberLiteral      : isNumberLiteral n = isNumberLiteral m
  dotName?             : dotName? n = dotName? m
  identifierName?      : n.identifierName? = m.identifierName?
  encloses (p : Place) : p.encloses n.form = p.encloses m.form

theorem Resembles.refl (n : Node) : n.Resembles n :=
  ⟨rfl, rfl, rfl, rfl, rfl, rfl, rfl, rfl, rfl, rfl, rfl, fun _ => rfl⟩

variable {f : Node → Node} {form : Form Node} {span : Span}

section

variable (h : ∀ c ∈ form.nodes, (f c).Resembles c)
include h

theorem startsLikeStatement_map :
    (mk span (form.map f)).startsLikeStatement = (mk span form).startsLikeStatement := by
  cases form
  case sequenceExpression expressions =>
    cases expressions
    case nil => rfl
    case cons n ns => exact (h n (by simp [Form.slots])).startsLikeStatement
  case updateExpression isPrefix argument =>
    exact congrArg (!isPrefix && ·) (h argument (by simp [Form.slots])).startsLikeStatement
  all_goals first | rfl | exact (h _ (by simp [Form.slots])).startsLikeStatement

omit h in
theorem lastEndsWithBrace_map {ns : List Node} (h : ∀ n ∈ ns, (f n).Resembles n) :
    lastEndsWithBrace (ns.map f) = lastEndsWithBrace ns := by
  induction ns
  case nil => rfl
  case cons n ns ih =>
    cases ns
    case nil => exact (h n (.head _)).endsWithBrace
    case cons => exact ih fun n hn => h n (.tail _ hn)

theorem endsWithBrace_map : (mk span (form.map f)).endsWithBrace = (mk span form).endsWithBrace := by
  cases form
  case sequenceExpression => exact lastEndsWithBrace_map fun n hn => h n (by simpa [Form.slots] using hn)
  all_goals first | rfl | exact (h _ (by simp [Form.slots])).endsWithBrace

theorem isPlainMemberChain_map :
    (mk span (form.map f)).isPlainMemberChain = (mk span form).isPlainMemberChain := by
  cases form
  all_goals first | rfl | exact (h _ (by simp [Form.slots])).isPlainMemberChain

theorem endsWithOpenIf_map : (mk span (form.map f)).endsWithOpenIf = (mk span form).endsWithOpenIf := by
  cases form
  case ifStatement alternate =>
    cases alternate
    case none => rfl
    case some n => exact (h n (by simp [Form.slots])).endsWithOpenIf
  all_goals first | rfl | exact (h _ (by simp [Form.slots])).endsWithOpenIf

theorem endsWithTerminator_map :
    (mk span (form.map f)).endsWithTerminator = (mk span form).endsWithTerminator := by
  cases form
  case ifStatement consequent alternate =>
    cases alternate
    case none => exact (h consequent (by simp [Form.slots])).endsWithTerminator
    case some n => exact (h n (by simp [Form.slots])).endsWithTerminator
  all_goals first | rfl | exact (h _ (by simp [Form.slots])).endsWithTerminator

-- A node resembles the one that has other children, if these resemble its own.
theorem Resembles.map (span : Span) : (Node.mk span (form.map f)).Resembles (.mk span form) where
  type := by cases form <;> rfl
  startsLikeStatement := startsLikeStatement_map h
  endsWithBrace := endsWithBrace_map h
  isPlainMemberChain := isPlainMemberChain_map h
  endsWithOpenIf := endsWithOpenIf_map h
  endsWithTerminator := endsWithTerminator_map h
  isDefaultCase := by
    cases form
    case switchCase test _ => cases test <;> rfl
    all_goals rfl
  isAssignable := by cases form <;> rfl
  isNumberLiteral := by cases form <;> rfl
  dotName? := by cases form <;> rfl
  identifierName? := by cases form <;> rfl
  encloses p := by
    cases form
    case binaryExpression op _ => cases op <;> rfl
    all_goals rfl

end
end Node

open Node

theorem Separate.map {f : Node → Node} {body : List Node} (h : Separate body) (hf : ∀ n, (f n).Resembles n) :
    Separate (body.map f) := by
  unfold Separate at *
  simpa only [List.isChain_map, (hf _).endsWithTerminator, (hf _).type] using h

end ScriptTree
