import Mathlib.Data.List.Induction
import ScriptTree.Proofs.Node.Lens
import ScriptTree.Walk.Visitor

/-!
The places that a place of a tree lies in.
-/

namespace ScriptTree

namespace Location

@[simp]
theorem lineage_nil : lineage [] = [[]] :=
  rfl

@[simp]
theorem lineage_child (l : Location) (step : Step) :
    (l.child step).lineage = l.child step :: l.lineage := by
  have hlength : (l.child step).length = l.length + 1 := List.length_append
  rw [lineage, lineage, List.range_succ_eq_map, List.map_cons, List.map_map, hlength]
  refine congrArg₂ _ (List.take_of_length_le (by omega)) (List.map_congr_left fun up hup => ?_)
  have hup := List.mem_range.mp hup
  show (l ++ [step]).take (l.length + 1 - (up + 1)) = _
  rw [List.take_append_of_le_length (by omega), Nat.add_sub_add_right]

-- Every place is the root or the place of a child.
theorem child_induction {holds : Location → Prop} (hr : holds [])
    (hc : ∀ l step, holds l → holds (l.child step)) (l : Location) : holds l :=
  List.reverseRecOn l hr hc

theorem parent?_child (l : Location) (step : Step) : (l.child step).parent? = some l := by
  simp [parent?, child]

theorem append_child (l m : Location) (step : Step) : l ++ m.child step = (l ++ m).child step :=
  (List.append_assoc ..).symm

end Location

namespace Node

variable {holds : Node → Bool} {tree n : Node} {l m : Location}

-- The places around another one at which there is a node of some kind, innermost first.
def around (holds : Node → Bool) (tree : Node) (l : Location) : List Location :=
  l.lineage.tail.filter fun m => (tree.at? m).any holds

def parentAt? (tree : Node) (l : Location) : Option Node :=
  l.parent?.bind tree.at?

theorem parentAt?_child (tree : Node) (l : Location) (step : Step) :
    tree.parentAt? (l.child step) = tree.at? l := by
  rw [parentAt?, Location.parent?_child, Option.bind_some]

@[simp]
theorem around_nil : tree.around holds [] = [] :=
  rfl

theorem around_child (step : Step) : tree.around holds (l.child step) =
    if (tree.at? l).any holds then l :: tree.around holds l else tree.around holds l := by
  simp only [around, Location.lineage_child, List.tail_cons]
  have : l.lineage = l :: l.lineage.tail := by
    induction l using Location.child_induction <;> simp
  rw [this, List.filter_cons]
  rfl

theorem around_append (h : tree.at? l = some n) (m : Location) :
    tree.around holds (l ++ m) = (n.around holds m).map (l ++ ·) ++ tree.around holds l := by
  induction m using Location.child_induction
  case hr => simp
  case hc m step ih =>
    rw [Location.append_child, around_child, around_child, at?_append, h, ih]
    show (if (n.at? m).any holds then _ else _) = _
    split <;> simp

theorem around_cons {c : Node} {step : Step} (h : n.child? step = some c) (m : Location) :
    n.around holds (step :: m) =
      (c.around holds m).map (step :: ·) ++ (if holds n then [[]] else []) := by
  have hat : n.at? [step] = some c := by simp [at?, h]
  rw [show step :: m = [step] ++ m from rfl, around_append hat]
  congr 1
  exact around_child (l := []) step

theorem mem_around {m : Location} :
    m ∈ tree.around holds l ↔ m <+: l ∧ m ≠ l ∧ ∃ n, tree.at? m = some n ∧ holds n := by
  have hany : (∃ n, tree.at? m = some n ∧ holds n) ↔ (tree.at? m).any holds := by
    simp [Option.any_eq_true]
  rw [hany]
  induction l using Location.child_induction
  case hr => simp +contextual
  case hc l step ih =>
    have hp : m <+: l.child step ∧ m ≠ l.child step ↔ m <+: l := by
      rw [Location.child, List.prefix_concat_iff]
      constructor
      · rintro ⟨rfl | h, hne⟩
        · exact absurd rfl hne
        · exact h
      · refine fun h => ⟨.inr h, fun he => ?_⟩
        have := (he ▸ h).length_le
        rw [List.length_append, List.length_singleton] at this
        omega
    rw [← and_assoc, hp, around_child]
    split <;> rename_i h <;> grind

-- Around a place are the innermost one around it and what that one lies in.
theorem around_of_head? {p : Location} (h : (tree.around holds l).head? = some p) :
    tree.around holds l = p :: tree.around holds p := by
  induction l using Location.child_induction
  case hr => cases h
  case hc l step ih =>
    rw [around_child] at h ⊢
    split at h
    case isTrue hl =>
      cases h
      rw [if_pos hl]
    case isFalse hl =>
      rw [if_neg hl]
      exact ih h

theorem isPrefix_of_head?_around {p : Location} (h : (tree.around holds l).head? = some p)
    (hm : m ∈ tree.around holds l) : m <+: p := by
  rw [around_of_head? h, List.mem_cons] at hm
  rcases hm with rfl | hm
  · exact List.prefix_rfl
  · exact (mem_around.mp hm).left

end Node
end ScriptTree
