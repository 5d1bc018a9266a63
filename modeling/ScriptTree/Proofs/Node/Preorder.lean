import Mathlib.Data.List.Flatten
import ScriptTree.Proofs.Node.Children
import ScriptTree.Proofs.Node.Lens

/-!
The places of a tree in pre-order: each before those below it, and those in the order of the children.
-/

namespace ScriptTree

namespace Location

-- A place lies in one child of another place at most.
theorem step_eq_of_isPrefix {l m : Location} {s t : Step} (hs : l.child s <+: m)
    (ht : l.child t <+: m) : s = t := by
  have := List.prefix_of_prefix_length_le hs ht (by simp [child])
  simpa [child] using this

theorem not_child_isPrefix (l : Location) (step : Step) : ¬l.child step <+: l := by
  intro h
  have := h.length_le
  rw [child, List.length_append, List.length_singleton] at this
  exact Nat.not_succ_le_self _ this

end Location

namespace Node

-- The places of a node that is at `l` and of all that is below it.
def preorder : Node → (l : Location) → List Location :=
  fold fun _ form l => l :: form.children.flatMap fun (step, inner) => inner (l.child step)

variable {n c : Node} {l m : Location}

theorem preorder_eq (n : Node) (l : Location) : n.preorder l =
    l :: n.form.children.flatMap fun (step, c) => c.preorder (l.child step) := by
  rw [preorder, fold_eq]
  simp only [Form.children_map, List.flatMap_map]
  rfl

theorem mem_preorder : m ∈ n.preorder l ↔ ∃ k, m = l ++ k ∧ (n.at? k).isSome := by
  induction n using induct generalizing l
  case h n ih =>
    rw [preorder_eq, List.mem_cons, List.mem_flatMap]
    constructor
    · rintro (rfl | ⟨⟨step, c⟩, hc, hm⟩)
      · exact ⟨[], by simp, rfl⟩
      · have hc := mem_children.mp hc
        obtain ⟨k, rfl, hk⟩ := (ih step c hc).mp hm
        exact ⟨step :: k, by simp [Location.child], by simp [at?, hc, hk]⟩
    · rintro ⟨k, rfl, hk⟩
      cases k
      case nil => exact .inl (List.append_nil l)
      case cons step k =>
        obtain ⟨x, hx⟩ := Option.isSome_iff_exists.mp hk
        obtain ⟨c, hc, hx⟩ := Option.bind_eq_some_iff.mp hx
        refine .inr ⟨(step, c), mem_children.mpr hc, (ih step c hc).mpr ⟨k, ?_, by simp [hx]⟩⟩
        simp [Location.child]

theorem isPrefix_of_mem_preorder (h : m ∈ n.preorder l) : l <+: m := by
  obtain ⟨k, rfl, _⟩ := mem_preorder.mp h
  exact List.prefix_append l k

theorem nodup_preorder (n : Node) (l : Location) : (n.preorder l).Nodup := by
  induction n using induct generalizing l
  case h n ih =>
    rw [preorder_eq]
    refine List.nodup_cons.mpr ⟨fun h => ?_, List.nodup_flatMap.mpr ⟨?_, ?_⟩⟩
    · obtain ⟨⟨step, c⟩, _, h⟩ := List.mem_flatMap.mp h
      exact l.not_child_isPrefix step (isPrefix_of_mem_preorder h)
    · rintro ⟨step, c⟩ hc
      exact ih step c (mem_children.mp hc) _
    · refine (List.pairwise_map.mp n.form.nodup_children).imp ?_
      rintro ⟨step, c⟩ ⟨step', c'⟩ hne m h h'
      exact hne (Location.step_eq_of_isPrefix (isPrefix_of_mem_preorder h)
        (isPrefix_of_mem_preorder h'))

-- Places of a tree come in the same order among those of a larger tree that it is a part of.
theorem preorder_sublist_of_at? (h : n.at? m = some c) :
    (c.preorder (l ++ m)).Sublist (n.preorder l) := by
  induction m generalizing n l
  case nil =>
    cases h
    rw [List.append_nil]
  case cons step m ih =>
    obtain ⟨d, hd, h⟩ := Option.bind_eq_some_iff.mp h
    rw [preorder_eq n, List.append_cons l step m]
    refine (ih (l := l.child step) h).trans (.cons l ?_)
    exact List.sublist_flatten_of_mem (List.mem_map_of_mem (mem_children.mpr hd))

theorem children_sublist_preorder (n : Node) (l : Location) :
    (n.form.children.map fun (step, _) => l.child step).Sublist (n.preorder l) := by
  rw [preorder_eq, List.map_eq_flatMap]
  refine .cons l (List.Sublist.flatMap_right _ fun ⟨step, c⟩ _ => ?_)
  show [l.child step].Sublist (c.preorder (l.child step))
  rw [preorder_eq]
  exact (List.nil_sublist _).cons_cons _

-- The places are numbered in their order.
theorem pairwise_idxOf_preorder (n : Node) (l : Location) :
    (n.preorder l).Pairwise fun p q => (n.preorder l).idxOf p < (n.preorder l).idxOf q := by
  rw [List.pairwise_iff_getElem]
  intro i j hi hj hij
  rwa [(nodup_preorder n l).idxOf_getElem, (nodup_preorder n l).idxOf_getElem]

end Node
end ScriptTree
