import ScriptTree.Proofs.Walk.Contract

/-!
Walks inside of walks. On a visit, a field of the node may be walked, and the node itself may be visited
anew by another visitor, a guest. As long as no guest removes the node that it was called to, every visit
that is not over is at a place that is there, and none takes out another node than its own.
-/

namespace ScriptTree

open WalkM

variable {σ α β : Type}

-- An act at `l` whose guests, and theirs, leave the node there that they are called to. It may remove its
-- own node if it is no guest itself, which is what `mayRemove` says.
def Act.IsPolite (l : Location) (mayRemove : Prop) : Act σ → Prop
  | .done => True
  | .getState next => ∀ s, (next s).IsPolite l mayRemove
  | .setState _ next => next.IsPolite l mayRemove
  | .visit next => ∀ v, (next v).IsPolite l mayRemove
  | .node _ next => ∀ n, (next n).IsPolite l mayRemove
  | .root next => ∀ n, (next n).IsPolite l mayRemove
  | .skip next => next.IsPolite l mayRemove
  | .remove next => mayRemove ∧ next.IsPolite l mayRemove
  | .replace _ next => next.IsPolite l mayRemove
  | .traverse _ next => next.IsPolite l mayRemove
  | .subtree visitor next =>
    (∀ moment m, (visitor moment m).IsPolite m (m ≠ l)) ∧ next.IsPolite l mayRemove
  | .scope next => ∀ id, (next id).IsPolite l mayRemove
  | .scopes next => ∀ ss, (next ss).IsPolite l mayRemove

-- A visitor that removes nodes only at the places at which it may.
def Visitor.IsPolite (mayRemove : Location → Prop) (visitor : Visitor σ) : Prop :=
  ∀ moment l, (visitor moment l).IsPolite l (mayRemove l)

-- The reasons to stop that do not lie with the walk.
def WalkStop.IsExpected : WalkStop → Prop
  | .fault f => f.IsMisuse
  | .exhausted => True

namespace WalkM

-- A part of a walk that comes to its end as `ends` says, or stops for a reason that is not its own.
def Runs (x : WalkM σ α) (s : WalkState σ) (ends : α → WalkState σ → Prop) : Prop :=
  match x.run.run s with
  | (.ok a, s') => ends a s'
  | (.error stop, _) => stop.IsExpected

namespace Runs

variable {x : WalkM σ α} {f : α → WalkM σ β} {s s' : WalkState σ} {a : α}
variable {ends ends' : α → WalkState σ → Prop}

theorem of_run (hx : x.run.run s = (.ok a, s')) (h : ends a s') : Runs x s ends := by
  rwa [Runs, hx]

theorem of_misuse {fault : WalkFault} (hx : x.run.run s = (.error (.fault fault), s'))
    (h : fault.IsMisuse) : Runs x s ends := by
  rwa [Runs, hx]

theorem bind {ends' : β → WalkState σ → Prop} (h : Runs x s ends)
    (hf : ∀ a s', ends a s' → Runs (f a) s' ends') : Runs (x >>= f) s ends' := by
  rw [Runs] at h
  rw [Runs, run_bind]
  rcases hx : x.run.run s with ⟨_ | a, s'⟩ <;> simp only [hx] at h ⊢
  case error => exact h
  case ok => exact hf a s' h

theorem mono (h : Runs x s ends) (he : ∀ a s', ends a s' → ends' a s') : Runs x s ends' := by
  rw [Runs] at h ⊢
  rcases hx : x.run.run s with ⟨_ | a, s'⟩ <;> simp only [hx] at h ⊢
  case error => exact h
  case ok => exact he a s' h

theorem bind_run {ends' : β → WalkState σ → Prop} (hx : x.run.run s = (.ok a, s'))
    (h : Runs (f a) s' ends') : Runs (x >>= f) s ends' := by
  rwa [Runs, run_bind, hx]

end Runs

-- Nothing has changed but what is at a place or below, and there still is something.
structure Confined (l : Location) (s s' : WalkState σ) : Prop where
  visits : Agree s.visits s'.visits
  tree   : ∃ n, s.tree.setAt? l n = some s'.tree

namespace Confined

variable {l : Location} {s s₁ s₂ : WalkState σ}

theorem refl (h : (s.tree.at? l).isSome) : Confined l s s := by
  obtain ⟨n, hn⟩ := Option.isSome_iff_exists.mp h
  exact ⟨.refl _, n, Node.setAt?_self hn⟩

theorem trans (h₁ : Confined l s s₁) (h₂ : Confined l s₁ s₂) : Confined l s s₂ := by
  obtain ⟨n₁, ht₁⟩ := h₁.tree
  obtain ⟨n₂, ht₂⟩ := h₂.tree
  exact ⟨h₁.visits.trans h₂.visits, n₂, Node.setAt?_of_setAt? ht₁ n₂ ▸ ht₂⟩

theorem isSome (h : Confined l s s₁) : (s₁.tree.at? l).isSome := by
  obtain ⟨n, ht⟩ := h.tree
  simp [Node.at?_of_setAt? ht]

end Confined

-- A descent that leaves everything around the place it is sent to as it is. It takes out the node there
-- only if its visitor may remove it.
def Descent.Settles (descend : Descent σ) : Prop :=
  ∀ {mayRemove visitor l s}, Visitor.IsPolite mayRemove visitor →
    (∀ m, l <+: m → m ≠ l → mayRemove m) → Above l s.visits → (s.tree.at? l).isSome →
    Runs (descend visitor l) s fun isRemoved s' => Agree s.visits s'.visits ∧
      (isRemoved → mayRemove l) ∧
      ∃ fate : Fate, fate.Settles (s.tree.setAt? l) (s.tree.removeAt? l) isRemoved s'.tree

section

variable {descend : Descent σ} {mayRemove : Location → Prop} {visitor : Visitor σ} {l : Location}
variable {s : WalkState σ}
variable (hd : descend.Settles) (hv : visitor.IsPolite mayRemove)
variable (hm : ∀ m, l <+: m → m ≠ l → mayRemove m)
variable (ha : ∀ step, Above (l.child step) s.visits) (hl : (s.tree.at? l).isSome)
include hd hv hm ha hl

theorem visitChild_confined (step : Step) :
    Runs (visitChild descend visitor l step) s fun _ s' => Confined l s s' := by
  obtain ⟨p, hp⟩ := Option.isSome_iff_exists.mp hl
  refine .bind_run (run_nodeAt hp) ?_
  cases hx : p.child? step
  case none => exact .of_run rfl (.refl hl)
  case some x =>
    have hbelow m (h : l.child step <+: m) (_ : m ≠ l.child step) : mayRemove m := by
      refine hm m ((List.prefix_append _ _).trans h) ?_
      rintro rfl
      exact absurd h.length_le (by simp [Location.child])
    have hat : (s.tree.at? (l.child step)).isSome := by simp [Node.at?_child, hp, hx]
    refine (hd hv hbelow (ha step) hat).mono fun _ s' h => ?_
    obtain ⟨hag, -, fate, hs⟩ := h
    obtain ⟨p', -, ht⟩ := hs.child hp hx
    exact ⟨hag, p', ht⟩

theorem visitList_confined (field : String) (remaining index : Nat) :
    Runs (visitList descend visitor l field remaining index) s fun _ s' => Confined l s s' := by
  induction remaining generalizing index s
  case zero => exact .of_run rfl (.refl hl)
  case succ remaining ih =>
    refine (visitChild_confined hd hv hm ha hl _).bind fun _ s' h => ?_
    exact (ih (fun step => (ha step).agree h.visits) h.isSome _).mono fun _ _ h' => h.trans h'

theorem visitField_confined (field : String) :
    Runs (visitField descend visitor l field) s fun _ s' => Confined l s s' := by
  obtain ⟨p, hp⟩ := Option.isSome_iff_exists.mp hl
  refine .bind_run (run_nodeAt hp) ?_
  split
  · exact visitList_confined hd hv hm ha hl field _ _
  · exact (visitChild_confined hd hv hm ha hl _).bind fun _ _ h => .of_run rfl h

theorem visitChildren_confined :
    Runs (visitChildren descend visitor l) s fun _ s' => Confined l s s' := by
  obtain ⟨p, hp⟩ := Option.isSome_iff_exists.mp hl
  refine .bind_run (run_nodeAt hp) ?_
  generalize p.type.fields = fields
  clear hp
  induction fields generalizing s
  case nil => exact .of_run rfl (.refl hl)
  case cons field fields ih =>
    refine (visitField_confined hd hv hm ha hl field).bind fun _ s' h => ?_
    exact (ih (fun step => (ha step).agree h.visits) h.isSome).mono fun _ _ h' => h.trans h'

end

-- How things stand while an answer is carried out on a visit of `l`, `start` being the tree from when
-- the visit began.
structure Attended (start : Node) (l : Location) (above : List Visit) (mayRemove : Prop)
    (s : WalkState σ) : Prop where
  tree   : ∃ n, start.setAt? l n = some s.tree
  visits : ∃ v above', s.visits = v :: above' ∧ v.location = l ∧ Agree above above' ∧
             (v.isRemoved → mayRemove ∧ (start.removeAt? l).isSome)

namespace Attended

variable {start : Node} {l : Location} {above : List Visit} {mayRemove : Prop} {s s' : WalkState σ}

theorem isSome (h : Attended start l above mayRemove s) : (s.tree.at? l).isSome := by
  obtain ⟨n, ht⟩ := h.tree
  simp [Node.at?_of_setAt? ht]

theorem resolve (h : Attended start l above mayRemove s) (ha : Above l above) :
    Resolve s.tree s.visits := by
  obtain ⟨v, above', hv, rfl, hab, _⟩ := h.visits
  exact hv ▸ (ha.agree hab).resolves_cons h.isSome

theorem confined (h : Attended start l above mayRemove s) (hc : Confined l s s') :
    Attended start l above mayRemove s' := by
  obtain ⟨n, ht⟩ := h.tree
  obtain ⟨n', ht'⟩ := hc.tree
  obtain ⟨v, above', hv, hl, hab, hr⟩ := h.visits
  obtain ⟨w, ws, hw, hb, hws⟩ := (hv ▸ hc.visits).cons_left
  refine ⟨⟨n', Node.setAt?_of_setAt? ht n' ▸ ht'⟩, w, ws, hw,
    (Visit.location_of_bare hb).trans hl, hab.trans hws, ?_⟩
  rwa [Visit.isRemoved_of_bare hb]

end Attended

section

variable {start : Node} {l : Location} {above : List Visit} {mayRemove : Prop} {s : WalkState σ}
variable (ha : Above l above) (hs : Attended start l above mayRemove s)
include ha hs

theorem remove_attended (hm : mayRemove) :
    Runs remove s fun _ s' => Attended start l above mayRemove s' := by
  obtain ⟨v, above', hv, rfl, hab, _⟩ := hs.visits
  obtain ⟨x, hx⟩ := Option.isSome_iff_exists.mp hs.isSome
  obtain ⟨n, ht⟩ := hs.tree
  rcases run_remove hv (ha.agree hab) hx with ⟨f, he, hf⟩ | ⟨ho, hr⟩
  case inl => exact .of_misuse he hf
  case inr =>
    rw [Node.removeAt?_of_setAt? ht] at hr
    exact .of_run ho ⟨hs.tree, _, above', rfl, rfl, hab, fun _ => ⟨hm, hr⟩⟩

omit ha in
theorem replace_attended (m : Node) :
    Runs (replace m) s fun _ s' => Attended start l above mayRemove s' := by
  obtain ⟨v, above', hv, rfl, hab, hr⟩ := hs.visits
  obtain ⟨x, hx⟩ := Option.isSome_iff_exists.mp hs.isSome
  obtain ⟨n, ht⟩ := hs.tree
  rcases run_replace hv hx m with ⟨f, he, hf⟩ | ⟨tree', ht', ho⟩
  case inl => exact .of_misuse he hf
  case inr =>
    exact .of_run ho ⟨⟨m, Node.setAt?_of_setAt? ht m ▸ ht'⟩, _, above', rfl, rfl, hab, hr⟩

-- Walks of a field, which the visitor asks for itself.
theorem visitStep_attended {descend : Descent σ} {may : Location → Prop} {visitor : Visitor σ}
    (hd : descend.Settles) (hv : visitor.IsPolite may) (hm : ∀ m, l <+: m → m ≠ l → may m)
    (step : Step) :
    Runs (visitStep descend visitor step) s fun _ s' => Attended start l above mayRemove s' := by
  obtain ⟨v, above', hvs, rfl, hab, _⟩ := hs.visits
  obtain ⟨x, hx⟩ := Option.isSome_iff_exists.mp hs.isSome
  have habove step : Above (v.location.child step) s.visits := hvs ▸ .child rfl (ha.agree hab)
  have hhead : s.visits.head?.getD { location := .root } = v := by simp [hvs]
  refine .bind_run (run_visit s) ?_
  rw [hhead]
  refine .bind_run (run_nodeAt hx) ?_
  split
  · split
    · exact (visitChild_confined hd hv hm habove hs.isSome step).bind fun _ _ h =>
        .of_run rfl (hs.confined h)
    · exact (visitField_confined hd hv hm habove hs.isSome step.field).mono fun _ _ h => hs.confined h
  · exact .of_run rfl hs

-- A guest leaves its host's visit as it was.
theorem visitAgain_attended {descend : Descent σ} {visitor : Visitor σ} (hd : descend.Settles)
    (hv : visitor.IsPolite (· ≠ l)) :
    Runs (visitAgain descend visitor) s fun _ s' => Attended start l above mayRemove s' := by
  obtain ⟨v, above', hvs, rfl, hab, _⟩ := hs.visits
  have hhead : s.visits.head?.getD { location := .root } = v := by simp [hvs]
  refine .bind_run (run_visit s) ?_
  rw [hhead]
  refine .bind_run (run_modify _ s) ?_
  simp only [hvs, List.tail_cons]
  have hguest : Runs (descend visitor v.location) { s with visits := above' } _ :=
    hd hv (fun _ _ h => h) (ha.agree hab) hs.isSome
  refine Runs.bind (hguest.bind fun isRemoved s' h => .of_run rfl ?_) fun _ s' h => .of_run rfl h
  obtain ⟨hag, hkept, fate, hfate⟩ := h
  -- The guest was told not to remove the node, so it was not.
  cases fate <;> cases isRemoved <;> simp only [Fate.Settles] at hfate
  case kept.false n => exact hs.confined ⟨hvs ▸ .cons rfl hag, n, hfate⟩
  case removed.true => exact absurd rfl (hkept rfl)

theorem perform_attended {traverse : Step → WalkM σ Unit} {subtree : Visitor σ → WalkM σ Unit}
    (htraverse : ∀ {s}, Attended start l above mayRemove s → ∀ step,
      Runs (traverse step) s fun _ s' => Attended start l above mayRemove s')
    (hsubtree : ∀ {s visitor}, Attended start l above mayRemove s → Visitor.IsPolite (· ≠ l) visitor →
      Runs (subtree visitor) s fun _ s' => Attended start l above mayRemove s')
    {act : Act σ} (h : act.IsPolite l mayRemove) :
    Runs (perform traverse subtree act) s fun _ s' => Attended start l above mayRemove s' := by
  induction act generalizing s
  case done => exact .of_run rfl hs
  case getState ih => exact ih _ hs (h _)
  case setState next ih => exact ih (s := { s with own := _ }) ⟨hs.tree, hs.visits⟩ h
  case visit ih => exact ih _ hs (h _)
  case root ih => exact ih _ hs (h _)
  case scopes ih => exact ih _ hs (h _)
  case node up next ih => exact .bind_run (run_node (hs.resolve ha) up) (ih _ hs (h _))
  case skip next ih =>
    refine .bind_run (run_modifyVisit _ s) (ih ⟨hs.tree, ?_⟩ h)
    obtain ⟨v, above', hv, hl, hab, hr⟩ := hs.visits
    exact ⟨{ v with isSkipped := true }, above', by simp [hv], hl, hab, hr⟩
  case remove next ih => exact (remove_attended ha hs h.1).bind fun _ _ hs => ih hs h.2
  case replace n next ih => exact (replace_attended hs n).bind fun _ _ hs => ih hs h
  case traverse step next ih => exact (htraverse hs step).bind fun _ _ hs => ih hs h
  case subtree visitor next ih => exact (hsubtree hs h.1).bind fun _ _ hs => ih hs h.2
  case scope next ih =>
    obtain ⟨id, visits, scopes, hr, hag⟩ := run_scope (hs.resolve ha)
    exact .bind_run hr (ih id (hs.confined ⟨hag, (Confined.refl hs.isSome).tree⟩) (h id))

omit hs in
theorem ask_attended {descend : Descent σ} {may : Location → Prop} {visitor : Visitor σ}
    (hs : Attended start l above (may l) s) (hd : descend.Settles) (hv : visitor.IsPolite may)
    (hm : ∀ m, l <+: m → m ≠ l → may m) (moment : Moment) :
    Runs (ask descend visitor moment) s fun _ s' => Attended start l above (may l) s' := by
  obtain ⟨v, above', hvs, rfl, _⟩ := hs.visits
  have hhead : s.visits.head?.getD { location := .root } = v := by simp [hvs]
  refine .bind_run (run_visit s) ?_
  rw [hhead]
  exact perform_attended ha hs (fun hs step => visitStep_attended ha hs hd hv hm step)
    (fun hs hg => visitAgain_attended ha hs hd hg) (hv moment _)

-- The end of a visit.
theorem commit_settles :
    Runs (do
        let isRemoved ← commit
        modify fun s => { s with visits := s.visits.tail }
        return isRemoved) s
      fun isRemoved s' => Agree above s'.visits ∧ (isRemoved → mayRemove) ∧
        ∃ fate : Fate, fate.Settles (start.setAt? l) (start.removeAt? l) isRemoved s'.tree := by
  obtain ⟨v, above', hv, rfl, hab, hr⟩ := hs.visits
  obtain ⟨n, ht⟩ := hs.tree
  have hm := Node.removeAt?_of_setAt? ht
  have h := run_commit hv fun hi => hm ▸ (hr hi).2
  split at h
  case isTrue hi =>
    obtain ⟨tree', ht', h⟩ := h
    refine .bind_run h (.of_run rfl ⟨?_, fun _ => (hr hi).1, .removed, ?_⟩)
    · simpa [hv] using hab
    · exact hm ▸ ht'
  case isFalse =>
    refine .bind_run h (.of_run rfl ⟨?_, nofun, .kept n, ht⟩)
    simpa [hv] using hab

end

theorem visitNode_settles {descend : Descent σ} (hd : descend.Settles) :
    Descent.Settles (visitNode descend) := by
  intro may visitor l s hv hm ha hl
  obtain ⟨x, hx⟩ := Option.isSome_iff_exists.mp hl
  have hs₁ : Attended s.tree l s.visits (may l) { s with visits := { location := l } :: s.visits } :=
    ⟨⟨x, Node.setAt?_self hx⟩, { location := l }, s.visits, rfl, rfl, .refl _, nofun⟩
  refine .bind_run (run_modify _ s) ((ask_attended ha hs₁ hd hv hm .enter).bind fun _ s₂ hs₂ => ?_)
  refine .bind_run (run_visit s₂) ?_
  generalize s₂.visits.head?.getD { location := .root } = v
  by_cases hsk : v.isSkipped <;> simp only [hsk, Bool.not_true, Bool.not_false, ↓reduceIte,
    Bool.false_eq_true]
  case pos => exact commit_settles ha hs₂
  by_cases hrm : v.isRemoved <;> simp only [hrm, Bool.not_true, Bool.not_false, ↓reduceIte,
    Bool.false_eq_true]
  case pos => exact (ask_attended ha hs₂ hd hv hm .exit).bind fun _ _ hs₃ => commit_settles ha hs₃
  case neg =>
    have hbelow step : Above (Location.child l step) s₂.visits := by
      obtain ⟨w, above, hw, hwl, hab, _⟩ := hs₂.visits
      exact hw ▸ .child hwl (ha.agree hab)
    refine (visitChildren_confined hd hv hm hbelow hs₂.isSome).bind fun _ s₃ hc => ?_
    exact (ask_attended ha (hs₂.confined hc) hd hv hm .exit).bind fun _ _ hs₄ => commit_settles ha hs₄

theorem visitWithin_settles (depth : Nat) : Descent.Settles (visitWithin (σ := σ) depth) := by
  induction depth
  case zero => exact fun _ _ _ _ => trivial
  case succ depth ih => exact visitNode_settles ih

end WalkM

-- What a visit can do, with whatever walks inside of it, if all guests are polite. A visit takes out the
-- node at its own place or leaves one there, and nothing around that place is different afterwards. So
-- a walk never misses a node, a parent or a place in a list; it stops early only for what its visitor
-- was not allowed to ask for or for lack of depth.
theorem walk_polite {visitor : Visitor σ} (h : visitor.IsPolite fun _ => True) (depth : Nat) (own : σ)
    (tree : Node) :
    (∀ stop ∈ (walk depth visitor own tree).stop, stop.IsExpected) ∧
      ∀ (s : WalkState σ) (l : Location), Above l s.visits → (s.tree.at? l).isSome →
        Runs (visitWithin depth visitor l) s fun isRemoved s' => Agree s.visits s'.visits ∧
          if isRemoved then s.tree.removeAt? l = some s'.tree
          else ∃ n, s.tree.setAt? l n = some s'.tree := by
  have hvisit (s : WalkState σ) (l : Location) (ha : Above l s.visits) (hl : (s.tree.at? l).isSome) :=
    visitWithin_settles depth h (fun _ _ _ => trivial) ha hl
  constructor
  case left =>
    have hroot := hvisit ⟨tree, own, [], []⟩ .root .root rfl
    rw [Runs] at hroot
    simp only [walk]
    rcases hrun : (visitWithin depth visitor .root).run.run ⟨tree, own, [], []⟩ with ⟨stop | _, s⟩ <;>
      simp only [hrun] at hroot ⊢
    case error => rintro _ ⟨⟩; exact hroot
    case ok => simp
  case right =>
    intro s l ha hl
    refine (hvisit s l ha hl).mono fun isRemoved s' hs => ?_
    obtain ⟨hag, -, fate, hf⟩ := hs
    refine ⟨hag, ?_⟩
    cases fate <;> cases isRemoved <;> simp only [Fate.Settles] at hf
    case kept.false n => exact ⟨n, hf⟩
    case removed.true => exact hf

-- Sends a guest through what is below each node, to remove the empty statements there.
def sweepingHost : Visitor Unit
  | .enter, l =>
    .subtree (fun moment m =>
      if moment = .exit ∧ m ≠ l then emptyStatementRemover moment m else .done) .done
  | .exit, _ => .done

theorem sweepingHost_isPolite : sweepingHost.IsPolite fun _ => True := by
  intro moment l
  cases moment
  case exit => trivial
  case enter =>
    refine ⟨fun moment m => ?_, trivial⟩
    show Act.IsPolite m _ (if _ then _ else _)
    split
    case isFalse => trivial
    case isTrue hm =>
      obtain ⟨rfl, hm⟩ := hm
      intro n
      show Act.IsPolite m _ (if _ then _ else _)
      split
      · exact ⟨hm, trivial⟩
      · trivial

theorem walk_polite_sweepingHost :
    sweepingHost.IsPolite (fun _ => True) ∧
      let tree := Node.program [.empty, .nullLiteral, .empty]
      (∀ stop ∈ (walk 3 sweepingHost () tree).stop, stop.IsExpected) ∧
        (walk 3 sweepingHost () tree).tree.form.children.map (·.2.type) = [.literal] :=
  ⟨sweepingHost_isPolite, (walk_polite sweepingHost_isPolite 3 () _).1, by decide +kernel⟩

-- Sends a guest to each statement that removes it, after it was told to remove it itself if `isTwice`.
def impoliteHost (isTwice : Bool) : Visitor Bool
  | .enter, l =>
    let guest : Visitor Bool := fun moment m => if moment = .enter ∧ m = l then .remove .done else .done
    if l.length = 1 then
      .getState fun isDone =>
        if isDone then .done
        else .setState true (if isTwice then .remove (.subtree guest .done) else .subtree guest .done)
    else .done
  | .exit, _ => .done

-- A guest that removes its host's node leaves the host without one; where the host is to be removed as
-- well, the next statement goes with it.
theorem walk_impoliteHost :
    (walk 3 (impoliteHost false) false (.program [.empty])).stop = some (.fault .lostNode) ∧
      (walk 3 (impoliteHost true) false (.program [.empty])).stop = some (.fault .lostPlace) ∧
      (walk 3 (impoliteHost true) false (.program [.empty, .nullLiteral, .empty])).tree =
        .program [.empty] :=
  ⟨rfl, rfl, rfl⟩

end ScriptTree
