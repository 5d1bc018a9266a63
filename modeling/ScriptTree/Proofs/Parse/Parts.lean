import ScriptTree.Proofs.Node.Children
import ScriptTree.Proofs.Parse.Role

/-!
The parts of a script: every node inside of it plays some role.
-/

namespace ScriptTree

theorem Slot.map_snd_placed {α : Type} (field : String) (i : Nat) (cs : List (Option α)) :
    (Slot.placed field i cs).map Prod.snd = cs.filterMap id := by
  induction cs generalizing i
  case nil => rfl
  case cons o cs ih => cases o <;> simp [Slot.placed, ih]

namespace Fills

variable {L : Token → Prop} {role : Role} {tree n c : Node} {step : Step} {l : Location}

theorem of_mem (h : Fills L role n) (hc : c ∈ n.form.children.map Prod.snd) :
    ∃ role', Fills L role' c := by
  induction h
  case identifier ih | target ih | declarationStatement ih | blockStatement ih
      | loopDeclaration ih | loopExpression ih | loopTarget ih => exact ih hc
  case loopVariable hid _ =>
    simp [Node.form, Form.children, Form.slots, Slot.children, Slot.map_snd_placed] at hc
    exact hc ▸ ⟨.declarator .var, .declarator (by simp) hid (by simp)⟩
  all_goals
    simp [Node.form, Form.children, Form.slots, Slot.children, Slot.map_snd_placed,
      ← Option.mem_def] at hc
  all_goals grind

theorem child (h : Fills L role n) (hc : n.child? step = some c) : ∃ role', Fills L role' c :=
  h.of_mem (List.mem_map.mpr ⟨_, Node.mem_children.mpr hc, rfl⟩)

theorem at? (h : Fills L role tree) (hn : tree.at? l = some n) : ∃ role', Fills L role' n := by
  induction l generalizing role tree
  case nil => exact ⟨role, Option.some.inj hn ▸ h⟩
  case cons step l ih =>
    have ⟨c, hc, hn⟩ := Option.bind_eq_some_iff.mp hn
    have ⟨_, h⟩ := h.child hc
    exact ih h hn

theorem type_of_name (h : Fills L .name n) : n.type = .identifier := by
  cases h
  rfl

theorem isBlock_of_block {scope : JumpScope} (h : Fills L (.block scope) n) : n.isBlock := by
  cases h
  rfl

-- A function has its names and its body, and nothing else.
theorem of_isFunction (h : Fills L role n) (hf : n.isFunction) (hc : n.child? step = some c) :
    c.isBlock ∨ (step.field = "id" ∨ step.field = "params") ∧ c.type = .identifier := by
  rw [← Node.mem_children] at hc
  induction h
  case identifier ih | target ih | declarationStatement ih | blockStatement ih
      | loopDeclaration ih | loopExpression ih | loopTarget ih => exact ih hf hc
  case functionExpression hid hparams hbody _ _ _ =>
    simp [Node.form, Form.children, Form.slots, Slot.children, Slot.mem_placed] at hc
    rcases hc with ⟨rfl, rfl⟩ | ⟨hs, j, -, hj⟩ | ⟨-, rfl⟩
    · exact .inr ⟨.inl rfl, (hid c rfl).type_of_name⟩
    · exact .inr ⟨.inr hs, (hparams c (List.mem_of_getElem? hj)).type_of_name⟩
    · exact .inl hbody.isBlock_of_block
  case functionDeclaration hid hparams hbody _ _ _ =>
    simp [Node.form, Form.children, Form.slots, Slot.children, Slot.mem_placed] at hc
    rcases hc with ⟨rfl, rfl⟩ | ⟨hs, j, -, hj⟩ | ⟨-, rfl⟩
    · exact .inr ⟨.inl rfl, hid.type_of_name⟩
    · exact .inr ⟨.inr hs, (hparams c (List.mem_of_getElem? hj)).type_of_name⟩
    · exact .inl hbody.isBlock_of_block
  all_goals cases hf

end Fills
end ScriptTree
