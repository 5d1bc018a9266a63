import Mathlib.Data.List.InsertIdx
import ScriptTree.Node.Location

/-!
Reading, replacing and removing children fit together, for one step and for a whole location.
-/

namespace ScriptTree

namespace Slot

variable {α β γ : Type}

-- The same field with other content.
inductive Refilled : Slot α β → β → Slot α β → Prop
  | required {x put} (y : α) : Refilled (.required x put) (put y) (.required y put)
  | optional {x put} (y : Option α) : Refilled (.optional x put) (put y) (.optional y put)
  | list {xs put} (ys : List α) : Refilled (.list xs put) (put ys) (.list ys put)
  | sparse {xs put} (ys : List (Option α)) : Refilled (.sparse xs put) (put ys) (.sparse ys put)

-- What comes of putting back the content that is there.
def restored : Slot α β → β
  | required content put => put content
  | optional content put => put content
  | list content put => put content
  | sparse content put => put content

theorem restored_within (f : β → γ) (s : Slot α β) : (s.within f).restored = f s.restored := by
  cases s <;> rfl

theorem Refilled.of_within {f : β → γ} {s : Slot α β} {c : γ} {t : Slot α γ}
    (h : (s.within f).Refilled c t) : ∃ b t', c = f b ∧ t = t'.within f ∧ s.Refilled b t' := by
  cases s <;> cases h
  case required y => exact ⟨_, _, rfl, rfl, .required y⟩
  case optional y => exact ⟨_, _, rfl, rfl, .optional y⟩
  case list ys => exact ⟨_, _, rfl, rfl, .list ys⟩
  case sparse ys => exact ⟨_, _, rfl, rfl, .sparse ys⟩

-- A field in which a child was replaced cannot be told from the one before at that place, except by
-- the child.
theorem setChild?_eq_some {s : Slot α β} {y : α} {i : Option Nat} {b : β}
    (h : s.setChild? y i = some b) :
    ∃ t, s.Refilled b t ∧ t.child? i = some y ∧ (∀ z, t.setChild? z i = s.setChild? z i) ∧
      t.removeChild? i = s.removeChild? i := by
  cases s <;> cases i <;> simp only [setChild?, reduceCtorEq] at h
  case required.none put =>
    cases h
    exact ⟨_, .required y, rfl, fun _ => rfl, rfl⟩
  case optional.none x put =>
    cases x <;> cases h
    exact ⟨_, .optional (some y), rfl, fun _ => rfl, rfl⟩
  case list.some xs put i =>
    split at h <;> cases h
    refine ⟨_, .list (xs.set i y), ?_, fun z => ?_, ?_⟩ <;> simp_all [child?, setChild?, removeChild?, List.eraseIdx_set_eq]
  case sparse.some xs put i =>
    split at h <;> cases h
    have hi : i < xs.length := by grind
    refine ⟨_, .sparse (xs.set i (some y)), ?_, fun z => ?_, ?_⟩ <;>
      simp_all [child?, setChild?, removeChild?, List.eraseIdx_set_eq]

theorem setChild?_isSome {s : Slot α β} {x : α} {i : Option Nat} (h : s.child? i = some x) (y : α) :
    ∃ b, s.setChild? y i = some b := by
  cases s <;> cases i <;> simp only [child?, reduceCtorEq] at h <;> subst_vars <;>
    simp_all [setChild?]
  case list.some xs put i => grind

theorem setChild?_self {s : Slot α β} {x : α} {i : Option Nat} (h : s.child? i = some x) :
    s.setChild? x i = some s.restored := by
  cases s <;> cases i <;> simp only [child?, reduceCtorEq] at h <;>
    simp_all [setChild?, restored]
  case list.some xs put i =>
    have ⟨hi, hx⟩ := List.getElem?_eq_some_iff.mp h
    exact ⟨hi, by rw [← hx, List.set_getElem_self]⟩
  case sparse.some xs put i =>
    have ⟨hi, hx⟩ := List.getElem?_eq_some_iff.mp (Option.join_eq_some_iff.mp h)
    rw [← hx, List.set_getElem_self]

theorem removeChild?_isSome {s : Slot α β} {x : α} {i : Option Nat} (h : s.child? i = some x)
    (hr : s.isRequired = false) : ∃ b, s.removeChild? i = some b := by
  cases s <;> cases i <;> simp only [child?, isRequired, reduceCtorEq] at h hr <;>
    simp_all [removeChild?]
  case list.some xs put i => grind
  case sparse.some xs put i => grind

-- The list fields that come of one by putting other places into it.
inductive Places : Slot α β → List (Option α) → β → Prop
  | list {xs put} (ys : List α) : Places (.list xs put) (ys.map some) (put ys)
  | sparse {xs put} (ys : List (Option α)) : Places (.sparse xs put) ys (put ys)

-- The places of a field; a child that is no part of a list has the only one.
def content : Slot α β → List (Option α)
  | required content _ => [some content]
  | optional content _ => [content]
  | list content _ => content.map some
  | sparse content _ => content

theorem places_content {s : Slot α β} {n : Nat} (h : s.length? = some n) :
    s.Places s.content s.restored := by
  cases s <;> cases h
  case list => exact .list _
  case sparse => exact .sparse _

theorem length?_eq_content_length {s : Slot α β} {n : Nat} (h : s.length? = some n) :
    n = s.content.length := by
  cases s <;> cases h <;> simp [content]

-- A list field is read, replaced and shortened place by place.
theorem Places.refilled {s : Slot α β} {cs : List (Option α)} {b : β} (h : s.Places cs b) :
    ∃ t, s.Refilled b t ∧ (∀ i, t.child? (some i) = cs[i]?.join) ∧
      (∀ i y c, t.setChild? y (some i) = some c → s.Places (cs.set i (some y)) c) ∧
      (∀ i c, t.removeChild? (some i) = some c → s.Places (cs.eraseIdx i) c) := by
  cases h
  case list xs put ys =>
    refine ⟨_, .list ys, fun i => ?_, fun i y c hc => ?_, fun i c hc => ?_⟩
    · cases h : ys[i]? <;> simp [child?, h]
    · simp only [setChild?, Option.ite_none_right_eq_some, Option.some.injEq] at hc
      have h : (Slot.list xs put).Places _ _ := .list (ys.set i y)
      simp_all
    · simp only [removeChild?, Option.ite_none_right_eq_some, Option.some.injEq] at hc
      have h : (Slot.list xs put).Places _ _ := .list (ys.eraseIdx i)
      simp_all [List.eraseIdx_map]
  case sparse xs put =>
    refine ⟨_, .sparse cs, fun i => rfl, fun i y c hc => ?_, fun i c hc => ?_⟩
    · simp only [setChild?, Option.ite_none_right_eq_some, Option.some.injEq] at hc
      exact hc.2 ▸ .sparse _
    · simp only [removeChild?, Option.ite_none_right_eq_some, Option.some.injEq] at hc
      exact hc.2 ▸ .sparse _

end Slot

namespace Form

variable {α : Type}

-- What comes of putting other content in a field has that content there, and is of the same type.
theorem lookup_of_refilled {f f' : Form α} {field : String} {s t : Slot α (Form α)}
    (hs : f.slots.lookup field = some s) (hr : s.Refilled f' t) :
    f'.slots.lookup field = some t ∧ f'.type = f.type := by
  cases f <;> simp only [slots, List.lookup_cons, List.lookup_nil, reduceCtorEq] at hs <;>
    (repeat' split at hs) <;> (try contradiction) <;>
    (cases hs; cases hr; simp_all [slots, List.lookup_cons, type])

theorem restored_of_lookup {f : Form α} {field : String} {s : Slot α (Form α)}
    (hs : f.slots.lookup field = some s) : s.restored = f := by
  cases f <;> simp only [slots, List.lookup_cons, List.lookup_nil, reduceCtorEq] at hs <;>
    (repeat' split at hs) <;> (try contradiction) <;> (cases hs; rfl)

end Form

namespace Node

theorem slot?_eq_some {n : Node} {field : String} {s : Slot Node Node} (h : n.slot? field = some s) :
    ∃ t, n.form.slots.lookup field = some t ∧ s = t.within (mk n.span) := by
  have ⟨t, ht, hs⟩ := Option.map_eq_some_iff.mp h
  exact ⟨t, ht, hs.symm⟩

theorem slot?_of_refilled {n n' : Node} {field : String} {s t : Slot Node Node}
    (hs : n.slot? field = some s) (hr : s.Refilled n' t) :
    n'.slot? field = some t ∧ n'.type = n.type := by
  have ⟨s', h, hs'⟩ := slot?_eq_some hs
  subst hs'
  have ⟨f, t', hf, ht, hr'⟩ := hr.of_within
  subst hf ht
  have ⟨ht, hf⟩ := Form.lookup_of_refilled h hr'
  exact ⟨by simp [slot?, form, span, ht], hf⟩

theorem restored_of_slot? {n : Node} {field : String} {s : Slot Node Node}
    (h : n.slot? field = some s) : s.restored = n := by
  have ⟨t, ht, hs⟩ := slot?_eq_some h
  rw [hs, Slot.restored_within, Form.restored_of_lookup ht]
  cases n
  rfl

theorem slot?_isSome {n : Node} {field : String} (h : field ∈ n.type.fields) :
    ∃ s, n.slot? field = some s := by
  have ⟨entry, he, hf⟩ := List.mem_map.mp ((Form.slots_map_fst n.form).symm ▸ h)
  cases hl : n.form.slots.lookup field
  case none =>
    have := List.lookup_eq_none_iff.mp hl entry he
    simp [hf] at this
  case some t => exact ⟨_, by rw [slot?, hl]; rfl⟩

-- A node in which a child was replaced cannot be told from the one before at that step, except by the
-- child.
theorem setChild?_eq_some {n n' y : Node} {step : Step} (h : n.setChild? step y = some n') :
    n'.child? step = some y ∧ (∀ z, n'.setChild? step z = n.setChild? step z) ∧
      n'.removeChild? step = n.removeChild? step := by
  have ⟨s, hs, hc⟩ := Option.bind_eq_some_iff.mp h
  have ⟨t, hr, hy, hz, hm⟩ := Slot.setChild?_eq_some hc
  have ht := (slot?_of_refilled hs hr).left
  simp [child?, setChild?, removeChild?, hs, ht, hy, hz, hm]

theorem setChild?_isSome {n x : Node} {step : Step} (h : n.child? step = some x) (y : Node) :
    ∃ n', n.setChild? step y = some n' := by
  have ⟨s, hs, hc⟩ := Option.bind_eq_some_iff.mp h
  simpa [setChild?, hs] using Slot.setChild?_isSome hc y

theorem setChild?_self {n x : Node} {step : Step} (h : n.child? step = some x) :
    n.setChild? step x = some n := by
  have ⟨s, hs, hc⟩ := Option.bind_eq_some_iff.mp h
  simp [setChild?, hs, Slot.setChild?_self hc, restored_of_slot? hs]

theorem removeChild?_isSome {n x : Node} {step : Step} (h : n.child? step = some x)
    (hr : ¬(n.slot? step.field).any (·.isRequired)) : ∃ n', n.removeChild? step = some n' := by
  have ⟨s, hs, hc⟩ := Option.bind_eq_some_iff.mp h
  simp only [hs, Option.any_some, Bool.not_eq_true] at hr
  simpa [removeChild?, hs] using Slot.removeChild?_isSome hc hr

/-! ### Locations -/

theorem at?_append (n : Node) (l m : Location) :
    n.at? (l ++ m) = (n.at? l).bind (·.at? m) := by
  induction l generalizing n
  case nil => rfl
  case cons step l ih =>
    cases h : n.child? step <;> simp [at?, h, ih]

theorem at?_child (n : Node) (l : Location) (step : Step) :
    n.at? (l.child step) = (n.at? l).bind (·.child? step) := by
  rw [Location.child, at?_append]
  congr
  funext m
  cases h : m.child? step <;> simp [at?, h]

theorem modifyAt?_append (change : Node → Option Node) (n : Node) (l m : Location) :
    n.modifyAt? change (l ++ m) = n.modifyAt? (·.modifyAt? change m) l := by
  induction l generalizing n
  case nil => rfl
  case cons step l ih => simp [modifyAt?, ih]

-- A change at a place is to read what is there, and to put there what comes of it.
theorem modifyAt?_eq (change : Node → Option Node) (n : Node) (l : Location) :
    n.modifyAt? change l = (n.at? l).bind fun x => (change x).bind (n.setAt? l) := by
  induction l generalizing n
  case nil => cases h : change n <;> simp [modifyAt?, at?, setAt?, h]
  case cons step l ih =>
    cases hc : n.child? step
    case none => simp [modifyAt?, at?, hc]
    case some c =>
      cases hx : c.at? l
      case none => simp [modifyAt?, at?, hc, ih, hx]
      case some x => cases hy : change x <;> simp [modifyAt?, at?, setAt?, hc, ih, hx, hy]

theorem setAt?_cons {n c : Node} {step : Step} (h : n.child? step = some c) (l : Location)
    (x : Node) : n.setAt? (step :: l) x = (c.setAt? l x).bind (n.setChild? step) := by
  simp [setAt?, modifyAt?, h]

theorem setAt?_isSome {n x : Node} {l : Location} (h : n.at? l = some x) (y : Node) :
    ∃ n', n.setAt? l y = some n' := by
  induction l generalizing n
  case nil => exact ⟨y, rfl⟩
  case cons step l ih =>
    have ⟨c, hc, hx⟩ := Option.bind_eq_some_iff.mp h
    have ⟨c', hc'⟩ := ih hx
    simpa [setAt?_cons hc, hc'] using setChild?_isSome hc c'

theorem setAt?_self {n x : Node} {l : Location} (h : n.at? l = some x) :
    n.setAt? l x = some n := by
  induction l generalizing n
  case nil => cases h; rfl
  case cons step l ih =>
    have ⟨c, hc, hx⟩ := Option.bind_eq_some_iff.mp h
    simp [setAt?_cons hc, ih hx, setChild?_self hc]

theorem child?_of_setAt?_cons {n n' y : Node} {step : Step} {l : Location}
    (h : n.setAt? (step :: l) y = some n') :
    ∃ c c', n.child? step = some c ∧ c.setAt? l y = some c' ∧ n.setChild? step c' = some n' := by
  cases hc : n.child? step
  case none => simp [setAt?, modifyAt?, hc] at h
  case some c =>
    have ⟨c', hc', hn⟩ := Option.bind_eq_some_iff.mp (setAt?_cons hc l y ▸ h)
    exact ⟨c, c', rfl, hc', hn⟩

theorem at?_of_setAt? {n n' y : Node} {l : Location} (h : n.setAt? l y = some n') :
    n'.at? l = some y := by
  induction l generalizing n n'
  case nil => exact h.symm
  case cons step l ih =>
    have ⟨c, c', hc, hc', hn⟩ := child?_of_setAt?_cons h
    simp [at?, (setChild?_eq_some hn).left, ih hc']

theorem at?_of_setAt?_eq_some {n n' y : Node} {l : Location} (h : n.setAt? l y = some n') :
    ∃ x, n.at? l = some x := by
  rw [setAt?, modifyAt?_eq] at h
  have ⟨x, hx, _⟩ := Option.bind_eq_some_iff.mp h
  exact ⟨x, hx⟩

-- What is put at a place twice is as if it had been put there once.
theorem setAt?_of_setAt? {n n' y : Node} {l : Location} (h : n.setAt? l y = some n') (z : Node) :
    n'.setAt? l z = n.setAt? l z := by
  induction l generalizing n n'
  case nil => rfl
  case cons step l ih =>
    have ⟨c, c', hc, hc', hn⟩ := child?_of_setAt?_cons h
    have ⟨hn', hs, _⟩ := setChild?_eq_some hn
    rw [setAt?_cons hc, setAt?_cons hn', ih hc']
    exact congrArg _ (funext hs)

-- Putting something into a child of a place is putting the changed parent at the place.
theorem setAt?_child {n p c : Node} {l : Location} {step : Step} (hp : n.at? l = some p)
    (hc : p.child? step = some c) (x : Node) :
    n.setAt? (l.child step) x = (p.setChild? step x).bind (n.setAt? l) := by
  rw [Location.child, setAt?, modifyAt?_append, modifyAt?_eq, hp]
  simp [modifyAt?, hc]

theorem at?_isSome_of_child {n : Node} {l : Location} {step : Step}
    (h : (n.at? (l.child step)).isSome) : (n.at? l).isSome := by
  rw [at?_child] at h
  cases hl : n.at? l <;> simp_all

-- Takes the node at a place out of its parent.
def removeAt? (n : Node) (l : Location) : Option Node := do
  let step ← l.getLast?
  n.modifyAt? (·.removeChild? step) l.dropLast

theorem removeAt?_child {n p : Node} {l : Location} {step : Step} (hp : n.at? l = some p) :
    n.removeAt? (l.child step) = (p.removeChild? step).bind (n.setAt? l) := by
  simp [removeAt?, Location.child, modifyAt?_eq, hp]

-- To remove a node that was replaced is to remove the node itself.
theorem removeAt?_of_setAt? {n n' y : Node} {l : Location} (h : n.setAt? l y = some n') :
    n'.removeAt? l = n.removeAt? l := by
  have ⟨x, hx⟩ := at?_of_setAt?_eq_some h
  rcases l.eq_nil_or_concat with rfl | ⟨p, step, rfl⟩
  case inl => rfl
  case inr =>
    rw [List.concat_eq_append] at *
    have ⟨q, hq, hc⟩ := Option.bind_eq_some_iff.mp (at?_child n p step ▸ hx)
    have ⟨q', hq', hn⟩ := Option.bind_eq_some_iff.mp (setAt?_child hq hc y ▸ h)
    have hr := (setChild?_eq_some hq').right.right
    rw [← Location.child, removeAt?_child (at?_of_setAt? hn), removeAt?_child hq, hr]
    exact congrArg _ (funext (setAt?_of_setAt? hn))

end Node
end ScriptTree
