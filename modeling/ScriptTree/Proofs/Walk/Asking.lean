import ScriptTree.Proofs.Walk.Contract

/-!
Asking for scopes makes no difference to a walk. Two visitors, of which the second asks for scopes in
more places than the first and makes nothing of the answers, are asked the same questions about the same
nodes, are allowed the same and leave the same tree.

A scope is built here from the nodes of its block. That the walk which gathers them, inside of the walk
that is under way, comes to its end and leaves everything around it alone is `Scopes.build_eq_collected`.
-/

namespace ScriptTree

open WalkM

variable {σ α β : Type}

-- The second act is the first one with more questions: it may ask for the scope and look around at any
-- point, before and after every directive, but what it does about the node does not depend on that. Nor
-- does either make anything of a scope that it was told.
inductive Act.Asking : Act σ → Act σ → Prop
  | done : Asking .done .done
  | getState {f g} : (∀ s, Asking (f s) (g s)) → Asking (.getState f) (.getState g)
  | setState {s a b} : Asking a b → Asking (.setState s a) (.setState s b)
  | visit {f g} : (∀ v w, v.bare = w.bare → Asking (f v) (g w)) → Asking (.visit f) (.visit g)
  | node {up f g} : (∀ n, Asking (f n) (g n)) → Asking (.node up f) (.node up g)
  | root {f g} : (∀ n, Asking (f n) (g n)) → Asking (.root f) (.root g)
  | skip {a b} : Asking a b → Asking (.skip a) (.skip b)
  | remove {a b} : Asking a b → Asking (.remove a) (.remove b)
  | replace {n a b} : Asking a b → Asking (.replace n a) (.replace n b)
  | scope {f g} : (∀ id id', Asking (f id) (g id')) → Asking (.scope f) (.scope g)
  | askedScope {a g} : (∀ id, Asking a (g id)) → Asking a (.scope g)
  | askedState {a g} : (∀ s, Asking a (g s)) → Asking a (.getState g)
  | askedVisit {a g} : (∀ v, Asking a (g v)) → Asking a (.visit g)
  | askedNode {a up g} : (∀ n, Asking a (g n)) → Asking a (.node up g)

def Visitor.Asking (visitor visitor' : Visitor σ) : Prop :=
  ∀ moment l, (visitor moment l).Asking (visitor' moment l)

theorem Act.Asking.recorded {a b : Act σ} (h : a.Asking b) : a.recorded.Asking b.recorded := by
  induction h
  case done => exact .done
  case getState ih => exact .getState fun s => ih s.1
  case setState ih => exact .getState fun s => .setState ih
  case visit ih => exact .visit ih
  case node ih => exact .node ih
  case root ih => exact .root ih
  case skip ih => exact .skip (.getState fun _ => .setState ih)
  case remove ih => exact .remove (.getState fun _ => .setState ih)
  case replace ih => exact .replace (.getState fun _ => .setState ih)
  case scope ih => exact .scope ih
  case askedScope ih => exact .askedScope ih
  case askedState ih => exact .askedState fun s => ih s.1
  case askedVisit ih => exact .askedVisit ih
  case askedNode ih => exact .askedNode ih

theorem Visitor.Asking.recorded {visitor visitor' : Visitor σ} (h : visitor.Asking visitor') :
    visitor.recorded.Asking visitor'.recorded :=
  fun moment l => .root fun _ => .getState fun _ => .setState (h moment l).recorded

-- Two states of walks that differ in nothing but their scopes.
structure WalkState.Alike (s t : WalkState σ) : Prop where
  tree   : t.tree = s.tree
  own    : t.own = s.own
  visits : Agree s.visits t.visits

theorem WalkState.Alike.resolve {s t : WalkState σ} (h : s.Alike t) (hr : Resolve s.tree s.visits) :
    Resolve t.tree t.visits :=
  h.tree ▸ hr.agree h.visits

namespace WalkM

-- Two parts of walks, each from its state, that come to their ends together, as `ends` says of both
-- values and states, or stop together for the same reason and with the same tree and state of their own.
def Matches (x : WalkM σ α) (y : WalkM σ β) (s t : WalkState σ)
    (ends : α → β → WalkState σ → WalkState σ → Prop) : Prop :=
  match x.run.run s, y.run.run t with
  | (.ok a, s'), (.ok b, t') => ends a b s' t'
  | (.error stop, s'), (.error stop', t') => stop' = stop ∧ t'.tree = s'.tree ∧ t'.own = s'.own
  | _, _ => False

namespace Matches

variable {α' β' : Type} {x : WalkM σ α} {y : WalkM σ β} {s t : WalkState σ}
variable {ends : α → β → WalkState σ → WalkState σ → Prop}

theorem of_run {a : α} {b : β} {s' t' : WalkState σ} (hx : x.run.run s = (.ok a, s'))
    (hy : y.run.run t = (.ok b, t')) (h : ends a b s' t') : Matches x y s t ends := by
  rwa [Matches, hx, hy]

theorem fail (h : s.Alike t) (fault : WalkFault) :
    Matches (WalkM.fail fault) (WalkM.fail fault) s t ends :=
  ⟨rfl, h.tree, h.own⟩

theorem get {f : WalkState σ → WalkM σ α} {g : WalkState σ → WalkM σ β}
    (h : Matches (f s) (g t) s t ends) : Matches (get >>= f) (get >>= g) s t ends :=
  h

theorem bind {f : α → WalkM σ α'} {g : β → WalkM σ β'}
    {ends' : α' → β' → WalkState σ → WalkState σ → Prop} (h : Matches x y s t ends)
    (hf : ∀ a b s' t', ends a b s' t' → Matches (f a) (g b) s' t' ends') :
    Matches (x >>= f) (y >>= g) s t ends' := by
  rw [Matches] at h
  rw [Matches, run_bind, run_bind]
  rcases hx : x.run.run s with ⟨_ | a, s'⟩ <;> rcases hy : y.run.run t with ⟨_ | b, t'⟩ <;>
    simp only [hx, hy] at h
  case error.error => exact h
  case ok.ok => exact hf a b s' t' h

end Matches

section

variable {s t : WalkState σ} (ht : s.Alike t)
include ht

variable (hr : Resolve s.tree s.visits)
include hr

omit hr

end

-- A visit of a place that is there. If its node is to be removed, it can be.
structure Visiting (l : Location) (above : List Visit) (s : WalkState σ) : Prop where
  isSome : (s.tree.at? l).isSome
  visits : ∃ v above', s.visits = v :: above' ∧ v.location = l ∧ Agree above above' ∧
             (v.isRemoved → (s.tree.removeAt? l).isSome)

namespace Visiting

variable {l : Location} {above : List Visit} {s t : WalkState σ}

theorem resolve (h : Visiting l above s) (ha : Above l above) : Resolve s.tree s.visits := by
  obtain ⟨v, above', hv, rfl, hab, _⟩ := h.visits
  exact hv ▸ (ha.agree hab).resolves_cons h.isSome

theorem of_agree {visits : List Visit} {scopes : Scopes} (h : Visiting l above s)
    (ha : Agree s.visits visits) : Visiting l above { s with visits, scopes } := by
  obtain ⟨v, above', hv, hl, hab, hr⟩ := h.visits
  obtain ⟨w, ws, hw, hb, ha⟩ := (hv ▸ ha).cons_left
  refine ⟨h.isSome, w, ws, hw, (Visit.location_of_bare hb).trans hl, hab.trans ha, ?_⟩
  rwa [Visit.isRemoved_of_bare hb]

theorem skip (h : Visiting l above s) : Visiting l above
    { s with visits := s.visits.modifyHead ({ · with isSkipped := true }) } := by
  obtain ⟨v, above', hv, hl, hab, hr⟩ := h.visits
  exact ⟨h.isSome, { v with isSkipped := true }, above', by simp [hv], hl, hab, hr⟩

variable (ha : Above l above) (h : Visiting l above s) {s' : WalkState σ}
include h

theorem replace {n : Node} (hr : (replace n).run.run s = (.ok (), s')) : Visiting l above s' := by
  obtain ⟨v, above', hv, rfl, hab, hm⟩ := h.visits
  obtain ⟨x, hx⟩ := Option.isSome_iff_exists.mp h.isSome
  rcases run_replace hv hx n with ⟨f, he, _⟩ | ⟨tree, ht, ho⟩
  case inl => cases he.symm.trans hr
  case inr =>
    cases ho.symm.trans hr
    exact ⟨by simp [Node.at?_of_setAt? ht], _, above', rfl, rfl, hab,
      fun hi => (Node.removeAt?_of_setAt? ht).symm ▸ hm hi⟩

include ha

theorem remove (hr : remove.run.run s = (.ok (), s')) : Visiting l above s' := by
  obtain ⟨v, above', hv, rfl, hab, _⟩ := h.visits
  obtain ⟨x, hx⟩ := Option.isSome_iff_exists.mp h.isSome
  rcases run_remove hv (ha.agree hab) hx with ⟨f, he, _⟩ | ⟨ho, hm⟩
  case inl => cases he.symm.trans hr
  case inr =>
    cases ho.symm.trans hr
    exact ⟨h.isSome, _, above', rfl, rfl, hab, fun _ => hm⟩

theorem scope {id : Option ScopeId} (hr : scope.run.run s = (.ok id, s')) : Visiting l above s' := by
  obtain ⟨id, visits, scopes, ho, hab⟩ := run_scope (h.resolve ha)
  cases ho.symm.trans hr
  exact h.of_agree hab

end Visiting

section

variable {l : Location} {above : List Visit} {s t : WalkState σ}

end

-- Two walks below the visits `visits`, all of which are at places that are there.
structure Ongoing (visits : List Visit) (s t : WalkState σ) : Prop where
  alike   : s.Alike t
  visits  : Agree visits s.visits
  resolve : Resolve s.tree s.visits

-- Descents that match at every place that is there.
def Descent.Matches (descend descend' : Descent σ) (visitor visitor' : Visitor σ) : Prop :=
  ∀ {l visits s t}, Above l visits → Ongoing visits s t → (s.tree.at? l).isSome →
    WalkM.Matches (descend visitor l) (descend' visitor' l) s t fun b c s' t' =>
      c = b ∧ Ongoing visits s' t'

section

variable {descend descend' : Descent σ} {visitor visitor' : Visitor σ}
variable (hd : descend.Matches descend' visitor visitor')
variable {l : Location} {v : Visit} {above : List Visit} {s t : WalkState σ}
variable (hl : v.location = l) (ha : Above l above) (hk : Ongoing (v :: above) s t)

include hd hl ha hk

end

section

variable {l : Location} {visits : List Visit} {s t : WalkState σ}

end
end WalkM

end ScriptTree
