import ScriptTree.Proofs.Node.Children
import ScriptTree.Proofs.Walk.Visited

/-!
What the steps of a walk do to its state, as long as visitors leave walking to the walk.
-/

namespace ScriptTree

namespace Visit

-- A visit but for its scope, which may be filled in by what happens below it.
def bare (v : Visit) : Visit :=
  { v with scope := none }

theorem location_of_bare {v w : Visit} (h : v.bare = w.bare) : v.location = w.location := by
  show v.bare.location = w.bare.location
  rw [h]

theorem isRemoved_of_bare {v w : Visit} (h : v.bare = w.bare) : v.isRemoved = w.isRemoved := by
  show v.bare.isRemoved = w.bare.isRemoved
  rw [h]

end Visit

-- The same visits but for the scopes.
def Agree (vs ws : List Visit) : Prop :=
  vs.map Visit.bare = ws.map Visit.bare

namespace Agree

theorem refl (vs : List Visit) : Agree vs vs :=
  rfl

theorem trans {us vs ws : List Visit} (h₁ : Agree us vs) (h₂ : Agree vs ws) : Agree us ws :=
  Eq.trans h₁ h₂

theorem cons_left {v : Visit} {vs ws : List Visit} (h : Agree (v :: vs) ws) :
    ∃ w ws', ws = w :: ws' ∧ w.bare = v.bare ∧ Agree vs ws' := by
  cases ws <;> simp [Agree] at h
  case cons w ws => exact ⟨w, ws, rfl, h.left.symm, h.right⟩

theorem cons {v w : Visit} {vs ws : List Visit} (hv : v.bare = w.bare) (h : Agree vs ws) :
    Agree (v :: vs) (w :: ws) := by
  simp [Agree, hv, show vs.map Visit.bare = _ from h]

theorem tail {vs ws : List Visit} (h : Agree vs ws) : Agree vs.tail ws.tail := by
  simpa [Agree, List.map_tail] using congrArg List.tail h

end Agree

-- The visits are at places that are there.
def Resolve (tree : Node) (visits : List Visit) : Prop :=
  ∀ v ∈ visits, (tree.at? v.location).isSome

theorem Resolve.agree {tree : Node} {vs ws : List Visit} (h : Resolve tree vs) (ha : Agree vs ws) :
    Resolve tree ws := by
  intro w hw
  have ⟨v, hv, hb⟩ := List.mem_map.mp (ha ▸ List.mem_map_of_mem (f := Visit.bare) hw)
  exact Visit.location_of_bare hb ▸ h v hv

-- The visits around a place: one for each place that it lies in, the nearest first.
inductive Above : Location → List Visit → Prop
  | root : Above .root []
  | child {l step v vs} : v.location = l → Above l vs → Above (l.child step) (v :: vs)

namespace Above

theorem agree {l : Location} {vs ws : List Visit} (h : Above l vs) (ha : Agree vs ws) :
    Above l ws := by
  induction h generalizing ws
  case root => cases ws <;> simp [Agree] at ha; exact root
  case child hv h ih =>
    have ⟨w, ws', hw, hb, ha'⟩ := ha.cons_left
    subst hw
    exact child ((Visit.location_of_bare hb).trans hv) (ih ha')

theorem resolves {l : Location} {vs : List Visit} {tree : Node} (h : Above l vs)
    (hl : (tree.at? l).isSome) : Resolve tree vs := by
  induction h
  case root => simp [Resolve]
  case child hv h ih =>
    have hl := Node.at?_isSome_of_child hl
    simpa [Resolve, hv, hl] using ih hl

theorem resolves_cons {v : Visit} {vs : List Visit} {tree : Node} (h : Above v.location vs)
    (hv : (tree.at? v.location).isSome) : Resolve tree (v :: vs) :=
  List.forall_mem_cons.mpr ⟨hv, h.resolves hv⟩

end Above

namespace WalkM

variable {σ α β : Type}

@[simp]
theorem run_visit (s : WalkState σ) :
    (visit : WalkM σ Visit).run.run s = (.ok (s.visits.head?.getD { location := .root }), s) :=
  rfl

@[simp]
theorem run_modifyVisit (change : Visit → Visit) (s : WalkState σ) :
    (modifyVisit change).run.run s =
      (.ok (), { s with visits := s.visits.modifyHead change }) :=
  rfl

theorem run_nodeAt {s : WalkState σ} {l : Location} {n : Node} (h : s.tree.at? l = some n) :
    (nodeAt l).run.run s = (.ok n, s) := by
  simp only [nodeAt, run_bind, run_get, h]
  rfl

theorem run_node {s : WalkState σ} (h : Resolve s.tree s.visits) (up : Nat) :
    (node up).run.run s = (.ok (s.visits[up]?.bind fun v => s.tree.at? v.location), s) := by
  simp only [node, run_bind, run_get]
  cases hv : s.visits[up]?
  case none => rfl
  case some v =>
    have ⟨n, hn⟩ := Option.isSome_iff_exists.mp (h v (List.mem_of_getElem? hv))
    simp only [Option.bind_some, hn]
    show ((do return some (← nodeAt v.location)) : WalkM σ _).run.run s = _
    rw [run_bind, run_nodeAt hn]
    rfl

-- Asking for a scope leaves everything as it is but the scopes.
theorem run_scopeOf {visits : List Visit} {s : WalkState σ} (h : Resolve s.tree visits) :
    ∃ id visits' scopes, (scopeOf visits).run.run s = (.ok (id, visits'), { s with scopes }) ∧
      Agree visits visits' := by
  induction visits
  case nil => exact ⟨none, [], s.scopes, rfl, .refl _⟩
  case cons v outer ih =>
    have ho : Resolve s.tree outer := fun w hw => h w (.tail _ hw)
    have ⟨around, outer', scopes, ih, ha⟩ := ih ho
    have ⟨n, hn⟩ := Option.isSome_iff_exists.mp (h v (.head _))
    unfold scopeOf
    split
    · exact ⟨_, _, s.scopes, rfl, .refl _⟩
    · simp only [run_bind, run_nodeAt hn, ih]
      split
      · exact ⟨_, _, _, rfl, .cons rfl ha⟩
      · cases outer'
        case nil => exact ⟨_, _, _, rfl, .cons rfl ha⟩
        case cons o outer' =>
          have ⟨n', hn'⟩ := Option.isSome_iff_exists.mp (ho.agree ha o (.head _))
          simp only [run_bind, run_nodeAt (s := { s with scopes }) hn']
          exact ⟨_, _, _, rfl, .cons rfl ha⟩

theorem run_scope {s : WalkState σ} (h : Resolve s.tree s.visits) :
    ∃ id visits scopes, scope.run.run s = (.ok id, { s with scopes, visits }) ∧
      Agree s.visits visits := by
  have ⟨id, visits, scopes, hr, ha⟩ := run_scopeOf h
  refine ⟨id, visits, scopes, ?_, ha⟩
  simp only [scope, run_bind, run_get, hr]
  rfl

-- A node may be removed if it is there, has a parent and is in a field that can do without it.
theorem run_remove {s : WalkState σ} {v : Visit} {above : List Visit} {n : Node}
    (hv : s.visits = v :: above) (ha : Above v.location above)
    (hn : s.tree.at? v.location = some n) :
    (∃ f, remove.run.run s = (.error (.fault f), s) ∧ f.IsMisuse) ∨
      remove.run.run s = (.ok (), { s with visits := { v with isRemoved := true } :: above }) ∧
      (s.tree.removeAt? v.location).isSome := by
  have hr : Resolve s.tree s.visits := hv ▸ ha.resolves_cons (by simp [hn])
  simp only [remove, run_bind, run_visit, hv, List.head?_cons, Option.getD_some]
  by_cases hp : v.isReplaced
  · exact .inl ⟨.removedAfterReplacing, by simp [hp], trivial⟩
  rw [if_neg hp, run_bind, run_node hr]
  generalize hl : v.location = l at ha hn
  cases ha
  case root =>
    exact .inl ⟨.removedRoot, by simp [Location.root], trivial⟩
  case child p step w above hw ha =>
    obtain ⟨q, hq, hc⟩ := Option.bind_eq_some_iff.mp (Node.at?_child _ p step ▸ hn)
    simp only [hv, Location.child, List.getLast?_concat, List.getElem?_cons_succ,
      List.getElem?_cons_zero, Option.bind_some, hw, hq]
    split
    · exact .inl ⟨.removedRequired .., rfl, trivial⟩
    · rename_i hs
      obtain ⟨q', hq'⟩ := Node.removeChild?_isSome hc hs
      obtain ⟨t, ht⟩ := Node.setAt?_isSome hq q'
      have hm : s.tree.removeAt? (p.child step) = some t := by
        simp [Node.removeAt?_child hq, hq', ht]
      refine .inr ⟨?_, Option.isSome_iff_exists.mpr ⟨t, hm⟩⟩
      rw [run_modifyVisit, hv]
      cases v
      cases hl
      rfl

theorem run_replace {s : WalkState σ} {v : Visit} {above : List Visit} {n : Node}
    (hv : s.visits = v :: above) (hn : s.tree.at? v.location = some n) (m : Node) :
    (∃ f, (replace m).run.run s = (.error (.fault f), s) ∧ f.IsMisuse) ∨
      ∃ tree, s.tree.setAt? v.location m = some tree ∧
        (replace m).run.run s =
          (.ok (), { s with tree, visits := { v with isReplaced := true } :: above }) := by
  simp only [replace, run_bind, run_visit, hv, List.head?_cons, Option.getD_some]
  by_cases hr : v.isRemoved
  · exact .inl ⟨.replacedAfterRemoving, by simp [hr], trivial⟩
  have ⟨tree, ht⟩ := Node.setAt?_isSome hn m
  refine .inr ⟨tree, ht, ?_⟩
  simp only [if_neg hr, run_bind, run_modifyVisit, run_get, run_modify, hv, List.modifyHead_cons, ht]

theorem run_commit {s : WalkState σ} {v : Visit} {above : List Visit} (hv : s.visits = v :: above)
    (hr : v.isRemoved → (s.tree.removeAt? v.location).isSome) :
    if v.isRemoved then
      ∃ tree, s.tree.removeAt? v.location = some tree ∧
        commit.run.run s = (.ok true, { s with tree })
    else commit.run.run s = (.ok false, s) := by
  simp only [commit, run_bind, run_visit, hv, List.head?_cons, Option.getD_some]
  split
  case isFalse h =>
    simp only [h]
    rfl
  case isTrue h =>
    have ⟨tree, ht⟩ := Option.isSome_iff_exists.mp (hr h)
    have ⟨step, hs, hm⟩ := Option.bind_eq_some_iff.mp ht
    have hp : ¬(s.tree.at? v.location.dropLast).isNone := by
      cases hp : s.tree.at? v.location.dropLast <;> simp_all [Node.modifyAt?_eq]
    refine ⟨tree, ht, ?_⟩
    simp only [h, hs, run_bind, run_get]
    rw [if_neg hp]
    simp only [hm, run_bind, run_modify, run_pure, hv]

theorem run_commit_of_kept {s : WalkState σ} {v : Visit} {above : List Visit}
    (hv : s.visits = v :: above) (hr : v.isRemoved = false) : commit.run.run s = (.ok false, s) := by
  have h := run_commit hv fun h => by simp [hr] at h
  rwa [if_neg (by simp [hr])] at h

theorem run_discard (x : WalkM σ α) (s : WalkState σ) :
    (discard x).run.run s =
      match x.run.run s with
      | (.ok _, s') => (.ok (), s')
      | (.error stop, s') => (.error stop, s') :=
  run_bind x (fun _ => pure ()) s

section Children

variable {descend : Descent σ} {visitor : Visitor σ} {l : Location} {n : Node} {s : WalkState σ}
variable {steady : WalkState σ → Prop}

theorem run_visitChild_of_none {step : Step} (hn : s.tree.at? l = some n) (hc : n.child? step = none) :
    (visitChild descend visitor l step).run.run s = (.ok false, s) := by
  simp only [visitChild, run_bind, run_nodeAt hn, hc]
  rfl

theorem run_visitChild_of_some {step : Step} {c : Node} (hn : s.tree.at? l = some n)
    (hc : n.child? step = some c) :
    (visitChild descend visitor l step).run.run s = (descend visitor (l.child step)).run.run s := by
  simp only [visitChild, run_bind, run_nodeAt hn, hc]
  rfl

-- The visits of some children, one after the other.
def visitEach (descend : Descent σ) (visitor : Visitor σ) (l : Location) :
    (children : List (Step × Node)) → WalkM σ Unit
  | [] => return ()
  | (step, _) :: children => do
    discard (descend visitor (l.child step))
    visitEach descend visitor l children

theorem run_visitEach_cons {step : Step} {isRemoved : Bool} {s' : WalkState σ} (c : Node)
    (ps : List (Step × Node))
    (h : (descend visitor (l.child step)).run.run s = (.ok isRemoved, s')) :
    (visitEach descend visitor l ((step, c) :: ps)).run.run s =
      (visitEach descend visitor l ps).run.run s' := by
  rw [visitEach, run_bind, run_discard, h]

theorem visitEach_append (ps qs : List (Step × Node)) : visitEach descend visitor l (ps ++ qs) = (do
    visitEach descend visitor l ps
    visitEach descend visitor l qs) := by
  induction ps
  case nil => rfl
  case cons p ps ih => rw [List.cons_append, visitEach, visitEach, ih, bind_assoc]

-- While the visits below a node leave it as it is, walking its children is to visit them in their order.
variable (hn : ∀ s, steady s → s.tree.at? l = some n)
variable (hd : ∀ step c s, n.child? step = some c → steady s →
  ∃ s', (descend visitor (l.child step)).run.run s = (.ok false, s') ∧ steady s')

include hd in
theorem run_visitEach_steady {ps : List (Step × Node)} (hps : ∀ p ∈ ps, n.child? p.1 = some p.2)
    (hs : steady s) : ∃ s', (visitEach descend visitor l ps).run.run s = (.ok (), s') ∧ steady s' := by
  induction ps generalizing s
  case nil => exact ⟨s, rfl, hs⟩
  case cons p ps ih =>
    obtain ⟨hp, hps⟩ := List.forall_mem_cons.mp hps
    obtain ⟨s₁, hrun, hs₁⟩ := hd _ _ s hp hs
    obtain ⟨s₂, hrun₂, hs₂⟩ := ih hps hs₁
    exact ⟨s₂, (run_visitEach_cons p.2 ps hrun).trans hrun₂, hs₂⟩

include hn hd

theorem run_visitList_steady {field : String} {cs : List (Option Node)} {index : Nat}
    (hcs : ∀ j, n.child? ⟨field, some (index + j)⟩ = cs[j]?.join) (hs : steady s) :
    (visitList descend visitor l field cs.length index).run.run s =
      (visitEach descend visitor l (Slot.placed field index cs)).run.run s := by
  induction cs generalizing index s
  case nil => rfl
  case cons c cs ih =>
    have hc : n.child? ⟨field, some index⟩ = c := by simpa using hcs 0
    have hcs' j : n.child? ⟨field, some (index + 1 + j)⟩ = cs[j]?.join := by
      simpa [Nat.add_assoc, Nat.add_comm 1] using hcs (j + 1)
    rw [List.length_cons, visitList, run_bind]
    cases c
    case none =>
      rw [run_visitChild_of_none (hn s hs) hc]
      exact ih hcs' hs
    case some c =>
      obtain ⟨s', hrun, hs'⟩ := hd _ c s hc hs
      rw [run_visitChild_of_some (hn s hs) hc, hrun, Slot.placed, run_visitEach_cons c _ hrun]
      exact ih hcs' hs'

theorem run_visitField_steady {field : String} {slot : Slot Node Node} (hslot : n.slot? field = some slot)
    (hs : steady s) :
    (visitField descend visitor l field).run.run s =
      (visitEach descend visitor l (slot.children field)).run.run s := by
  have hchild i : n.child? ⟨field, i⟩ = slot.child? i := by simp [Node.child?, hslot]
  have hsingle (h : slot.children field = (slot.child? none).toList.map (⟨field, none⟩, ·)) :
      (discard (visitChild descend visitor l ⟨field, none⟩)).run.run s =
        (visitEach descend visitor l (slot.children field)).run.run s := by
    rw [run_discard, h]
    cases hc : slot.child? none
    case none =>
      rw [run_visitChild_of_none (hn s hs) ((hchild none).trans hc)]
      rfl
    case some c =>
      have hc := (hchild none).trans hc
      obtain ⟨s', hrun, _⟩ := hd _ c s hc hs
      rw [run_visitChild_of_some (hn s hs) hc, hrun, Option.toList_some, List.map_singleton,
        run_visitEach_cons c [] hrun]
      rfl
  simp only [visitField, run_bind, run_nodeAt (hn s hs), hslot, Option.bind_some]
  cases slot
  case required => exact hsingle rfl
  case optional => exact hsingle rfl
  case list content put =>
    have hcs j : n.child? ⟨field, some (0 + j)⟩ = (content.map some)[j]?.join := by
      rw [hchild, Nat.zero_add]
      cases hj : content[j]? <;> simp [Slot.child?, hj]
    have h := run_visitList_steady hn hd hcs hs
    rw [List.length_map] at h
    exact h
  case sparse content put =>
    have hcs j : n.child? ⟨field, some (0 + j)⟩ = content[j]?.join := by
      rw [hchild, Nat.zero_add]
      rfl
    exact run_visitList_steady hn hd hcs hs

theorem run_visitChildren_steady (hs : steady s) :
    (visitChildren descend visitor l).run.run s =
      (visitEach descend visitor l n.form.children).run.run s := by
  have hentries (entries : List (String × Slot Node (Form Node)))
      (h : ∀ entry ∈ entries, entry ∈ n.form.slots) {s : WalkState σ} (hs : steady s) :
      ((entries.map Prod.fst).forM (visitField descend visitor l)).run.run s =
        (visitEach descend visitor l (entries.flatMap fun e => e.2.children e.1)).run.run s := by
    induction entries generalizing s
    case nil => rfl
    case cons entry entries ih =>
      obtain ⟨hentry, hentries⟩ := List.forall_mem_cons.mp h
      have hchildren p (hp : p ∈ entry.2.children entry.1) : n.child? p.1 = some p.2 :=
        Node.mem_children.mp (List.mem_flatMap.mpr ⟨entry, hentry, hp⟩)
      obtain ⟨s', hrun, hs'⟩ := run_visitEach_steady hd hchildren hs
      have hfield := run_visitField_steady hn hd (Node.slot?_of_mem_slots hentry) hs
      rw [Slot.children_within, hrun] at hfield
      simp only [List.map_cons, List.forM, run_bind, hfield, List.flatMap_cons, visitEach_append, hrun]
      exact ih hentries hs'
  have hfields : n.type.fields = n.form.slots.map Prod.fst := n.form.slots_map_fst.symm
  simp only [visitChildren, run_bind, run_nodeAt (hn s hs), hfields]
  exact hentries _ (fun _ h => h) hs

end Children

-- A part of a walk of a recorded visitor: either it comes to its end, as `done` says of its value, of
-- what it records and of the state then, or it stops, as `cut` says of the reason and the record.
def Leads (x : WalkM (σ × List Event) α) (s : WalkState (σ × List Event))
    (done : α → List Event → WalkState (σ × List Event) → Prop)
    (cut : WalkStop → List Event → Prop) : Prop :=
  ∃ log, (x.run.run s).2.own.2 = s.own.2 ++ log ∧
    match x.run.run s with
    | (.ok a, s') => done a log s'
    | (.error stop, _) => cut stop log

namespace Leads

variable {x : WalkM (σ × List Event) α} {f : α → WalkM (σ × List Event) β}
variable {s : WalkState (σ × List Event)}
variable {done : α → List Event → WalkState (σ × List Event) → Prop}
variable {done' : β → List Event → WalkState (σ × List Event) → Prop}
variable {cut cut' : WalkStop → List Event → Prop}

theorem of_run {a : α} {s' : WalkState (σ × List Event)} (h : x.run.run s = (.ok a, s'))
    (ho : s'.own.2 = s.own.2) (hd : done a [] s') : Leads x s done cut :=
  ⟨[], by simp [h, ho], by simpa [h] using hd⟩

theorem congr {y : WalkM (σ × List Event) α} (hy : Leads y s done cut)
    (h : x.run.run s = y.run.run s) : Leads x s done cut := by
  rwa [Leads, h]

theorem bind (hx : Leads x s done cut)
    (hf : ∀ a log s', done a log s' →
      Leads (f a) s' (fun b log' => done' b (log ++ log')) (fun stop log' => cut' stop (log ++ log')))
    (hc : ∀ stop log, cut stop log → cut' stop log) : Leads (x >>= f) s done' cut' := by
  have ⟨log, ho, hx⟩ := hx
  rw [Leads, run_bind]
  rcases h : x.run.run s with ⟨stop | a, s'⟩ <;> simp only [h] at ho hx ⊢
  case error => exact ⟨log, ho, hc _ _ hx⟩
  case ok =>
    have ⟨log', ho', hf⟩ := hf a log s' hx
    exact ⟨log ++ log', by rw [ho', ho, List.append_assoc], hf⟩

theorem mono {done' : α → List Event → WalkState (σ × List Event) → Prop}
    (hx : Leads x s done cut) (hd : ∀ a log s', done a log s' → done' a log s')
    (hc : ∀ stop log, cut stop log → cut' stop log) : Leads x s done' cut' := by
  have ⟨log, ho, hx⟩ := hx
  refine ⟨log, ho, ?_⟩
  rcases h : x.run.run s with ⟨stop | a, s'⟩ <;> simp only [h] at hx ⊢
  case error => exact hc _ _ hx
  case ok => exact hd _ _ _ hx

end Leads
end WalkM
end ScriptTree
