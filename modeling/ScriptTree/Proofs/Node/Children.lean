import Mathlib.Data.List.Nodup
import ScriptTree.Node.Fold
import ScriptTree.Node.Location

/-!
The list of a node's children has each child once, at the step that reaches it.
-/

namespace ScriptTree

namespace Slot

variable {α β γ : Type}

theorem mem_placed {field : String} {i : Nat} {cs : List (Option α)} {step : Step} {c : α} :
    (step, c) ∈ placed field i cs ↔
      step.field = field ∧ ∃ j, step.index = some (i + j) ∧ cs[j]? = some (some c) := by
  induction cs generalizing i
  case nil => simp [placed]
  case cons o cs ih =>
    have hshift : (∃ j, step.index = some (i + j) ∧ (o :: cs)[j]? = some (some c)) ↔
        step.index = some i ∧ o = some c ∨
          ∃ j, step.index = some (i + 1 + j) ∧ cs[j]? = some (some c) := by
      rw [← Nat.or_exists_add_one]
      simp [Nat.add_comm, Nat.add_left_comm]
    cases o <;> simp only [placed, List.mem_cons, ih, hshift]
    case none => simp
    case some d =>
      cases step
      simp only [Prod.mk.injEq, Step.mk.injEq, Option.some.injEq]
      grind

theorem mem_children {s : Slot α β} {field : String} {step : Step} {c : α} :
    (step, c) ∈ s.children field ↔ step.field = field ∧ s.child? step.index = some c := by
  rcases step with ⟨f, i⟩
  cases s <;> cases i <;>
    simp [children, child?, mem_placed, eq_comm]
  all_goals grind

-- A child is reached by its place in a list, and without one elsewhere.
theorem index_of_child? {s : Slot α β} {i : Option Nat} {c : α} (h : s.child? i = some c) :
    match s.length? with
    | some length => ∃ j < length, i = some j
    | none        => i = none := by
  cases s <;> cases i <;> simp [child?, length?] at h ⊢
  case list => exact (List.getElem?_eq_some_iff.mp h).1
  case sparse => exact (List.getElem?_eq_some_iff.mp (Option.join_eq_some_iff.mp h)).1

theorem nodup_placed (field : String) (i : Nat) (cs : List (Option α)) :
    ((placed field i cs).map Prod.fst).Nodup := by
  induction cs generalizing i
  case nil => simp [placed]
  case cons o cs ih =>
    cases o
    case none => exact ih _
    case some c =>
      refine List.nodup_cons.mpr ⟨?_, ih _⟩
      simp only [List.mem_map, Prod.exists, exists_and_right, exists_eq_right, mem_placed, not_exists]
      rintro d ⟨-, j, hj, -⟩
      have := Option.some.inj hj
      omega

theorem nodup_children (s : Slot α β) (field : String) :
    ((s.children field).map Prod.fst).Nodup := by
  cases s
  case required => simp [children]
  case optional content put => cases content <;> simp [children]
  case list => exact nodup_placed ..
  case sparse => exact nodup_placed ..

theorem children_within (f : β → γ) (s : Slot α β) (field : String) :
    (s.within f).children field = s.children field := by
  cases s <;> rfl

theorem placed_map (f : α → γ) (field : String) (i : Nat) (cs : List (Option α)) :
    placed field i (cs.map (·.map f)) = (placed field i cs).map (Prod.map id f) := by
  induction cs generalizing i
  case nil => rfl
  case cons o cs ih => cases o <;> simp [placed, ih]

end Slot

namespace Form

variable {α β : Type}

theorem nodup_fields (t : NodeType) : t.fields.Nodup := by
  cases t <;> decide

-- Of the entries of a table with distinct names each is found by its name.
theorem lookup_eq_some {γ : Type} {entries : List (String × γ)} (h : (entries.map Prod.fst).Nodup)
    {field : String} {x : γ} : entries.lookup field = some x ↔ (field, x) ∈ entries := by
  induction entries
  case nil => simp
  case cons entry entries ih =>
    have ⟨hn, hd⟩ := List.nodup_cons.mp h
    rcases entry with ⟨f, y⟩
    by_cases hf : field = f
    · subst hf
      have : (field, x) ∉ entries := fun hx => hn (List.mem_map.mpr ⟨_, hx, rfl⟩)
      simp [this, eq_comm]
    · simp [List.lookup_cons, beq_false_of_ne hf, hf, ih hd]

theorem mem_children {f : Form α} {step : Step} {c : α} :
    (step, c) ∈ f.children ↔ ∃ s, f.slots.lookup step.field = some s ∧ s.child? step.index = some c := by
  have hd : (f.slots.map Prod.fst).Nodup := f.slots_map_fst ▸ nodup_fields _
  simp only [children, List.mem_flatMap, Slot.mem_children, Prod.exists, lookup_eq_some hd]
  constructor
  · rintro ⟨field, s, hs, rfl, hc⟩
    exact ⟨s, hs, hc⟩
  · rintro ⟨s, hs, hc⟩
    exact ⟨_, s, hs, rfl, hc⟩

theorem nodup_children (f : Form α) : (f.children.map Prod.fst).Nodup := by
  rw [children, List.map_flatMap, List.nodup_flatMap]
  refine ⟨fun entry _ => Slot.nodup_children .., ?_⟩
  have hd : (f.slots.map Prod.fst).Nodup := f.slots_map_fst ▸ nodup_fields _
  refine (List.pairwise_map.mp hd).imp fun hne step h₁ h₂ => hne ?_
  have ⟨_, h₁, hs₁⟩ := List.mem_map.mp h₁
  have ⟨_, h₂, hs₂⟩ := List.mem_map.mp h₂
  rw [← (Slot.mem_children.mp h₁).left, ← (Slot.mem_children.mp h₂).left, hs₁, hs₂]

theorem children_map (f : α → β) (form : Form α) :
    (form.map f).children = form.children.map (Prod.map id f) := by
  have hlist field (i : Nat) (cs : List α) : Slot.placed field i ((cs.map f).map some) =
      (Slot.placed field i (cs.map some)).map (Prod.map id f) := by
    rw [← Slot.placed_map, List.map_map, List.map_map]
    rfl
  have hoption (step : Step) (o : Option α) : (o.map f).toList.map (step, ·) =
      (o.toList.map (step, ·)).map (Prod.map id f) := by
    cases o <;> rfl
  cases form <;>
    simp only [children, slots, map, Slot.children, List.flatMap_cons, List.flatMap_nil,
      List.append_nil, List.map_append, List.map_cons, List.map_nil, hlist, hoption,
      Slot.placed_map] <;> rfl

end Form

namespace Node

theorem slot?_of_mem_slots {n : Node} {field : String} {slot : Slot Node (Form Node)}
    (h : (field, slot) ∈ n.form.slots) : n.slot? field = some (slot.within (.mk n.span)) := by
  have hnodup : (n.form.slots.map Prod.fst).Nodup := n.form.slots_map_fst ▸ Form.nodup_fields _
  rw [slot?, (Form.lookup_eq_some hnodup).mpr h]
  rfl

theorem mem_children {n c : Node} {step : Step} :
    (step, c) ∈ n.form.children ↔ n.child? step = some c := by
  have hw (s : Slot Node (Form Node)) i : (s.within (mk n.span)).child? i = s.child? i := by
    cases s <;> cases i <;> rfl
  rw [Form.mem_children]
  cases hs : n.form.slots.lookup step.field <;> simp [child?, slot?, hs, hw]

-- A child is in a field of the node.
theorem field_mem_of_child? {n c : Node} {step : Step} (h : n.child? step = some c) :
    step.field ∈ n.type.fields := by
  have ⟨s, hs, _⟩ := Form.mem_children.mp (mem_children.mpr h)
  have hd : (n.form.slots.map Prod.fst).Nodup := n.form.slots_map_fst ▸ Form.nodup_fields _
  rw [type, ← n.form.slots_map_fst]
  exact List.mem_map_of_mem (f := Prod.fst) ((Form.lookup_eq_some hd).mp hs)

-- How many nodes there are, at most, one inside the other.
def height : Node → Nat :=
  fold fun _ form => (form.children.map Prod.snd).foldr max 0 + 1

theorem height_pos (n : Node) : 0 < n.height := by
  rw [height, fold_eq]
  exact Nat.succ_pos _

theorem height_lt_of_child? {n c : Node} {step : Step} (h : n.child? step = some c) :
    c.height < n.height := by
  have hmax (xs : List Nat) x (hx : x ∈ xs) : x ≤ xs.foldr max 0 := by
    induction xs
    case nil => simp at hx
    case cons y xs ih => grind
  have hmem : c.height ∈ ((n.form.map height).children.map Prod.snd) := by
    rw [Form.children_map, List.map_map]
    exact List.mem_map.mpr ⟨(step, c), mem_children.mpr h, rfl⟩
  rw [show n.height = _ from fold_eq _ n]
  exact Nat.lt_succ_of_le (hmax _ _ hmem)

-- To show something of all nodes it is enough to show it of each one from its children.
theorem induct {holds : Node → Prop} (h : ∀ n, (∀ step c, n.child? step = some c → holds c) → holds n)
    (n : Node) : holds n := by
  induction hn : n.height using Nat.strongRecOn generalizing n
  case ind k ih =>
    subst hn
    exact h n fun step c hc => ih _ (height_lt_of_child? hc) c rfl

end Node
end ScriptTree
