import ScriptTree.Node.Build
import ScriptTree.Proofs.Walk.Steps

/-!
A walk does to a tree what its visitor asks for at each node, and nothing else, as long as visitors leave
walking to the walk: they may skip, remove and replace the nodes they are handed at any time.
-/

namespace ScriptTree

open WalkM

namespace Event

@[simp]
theorem note_skips (e : Event) (d : Directive) : (e.note d).skips = (e.skips || d.isSkip) := by
  simp [note, skips]

@[simp]
theorem note_removes (e : Event) (d : Directive) :
    (e.note d).removes = (e.removes || d.isRemove) := by
  simp [note, removes]

@[simp]
theorem note_leaves (e : Event) (d : Directive) (n : Node) :
    (e.note d).leaves n = d.leaves (e.leaves n) := by
  simp [note, leaves]

theorem note_reports {e : Event} {moment : Moment} {l : Location} {n : Node}
    (h : e.Reports moment l n) (d : Directive) : (e.note d).Reports moment l n :=
  h

@[simp]
theorem noteLast_append (d : Directive) (log : List Event) (e : Event) :
    noteLast d (log ++ [e]) = log ++ [e.note d] := by
  simp [noteLast]

end Event

variable {σ : Type} {visitor : Visitor σ} {descend : Descent (σ × List Event)}

-- How things stand while an answer is carried out: `e` is what happened so far, and `log`, `start`, `v`
-- and `n` are the record, the tree, the visit and the node from before the question.
structure Asked (log : List Event) (start : Node) (v : Visit) (above : List Visit) (n : Node)
    (e : Event) (s : WalkState (σ × List Event)) : Prop where
  log     : s.own.2 = log ++ [e]
  tree    : start.setAt? v.location (e.leaves n) = some s.tree
  visits  : ∃ v' above', s.visits = v' :: above' ∧ v'.location = v.location ∧
              v'.isSkipped = (v.isSkipped || e.skips) ∧ v'.isRemoved = (v.isRemoved || e.removes) ∧
              Agree above above'
  removal : e.removes → (start.removeAt? v.location).isSome

namespace Asked

variable {log : List Event} {start : Node} {v : Visit} {above : List Visit} {n : Node} {e : Event}
variable {s : WalkState (σ × List Event)}

theorem resolves (h : Asked log start v above n e s) (ha : Above v.location above) :
    Resolve s.tree s.visits := by
  have ⟨v', above', hv, hl, _, _, hab⟩ := h.visits
  have hn := Node.at?_of_setAt? h.tree
  exact hv ▸ Above.resolves_cons (hl ▸ ha.agree hab) (by simp [hl, hn])

-- What a directive leaves when it is taken and noted.
theorem skip (h : Asked log start v above n e s) :
    Asked log start v above n (e.note .skip) { s with
      own := (s.own.1, Event.noteLast .skip s.own.2)
      visits := s.visits.modifyHead ({ · with isSkipped := true }) } := by
  have ⟨v', above', hv, hl, hs, hr, hab⟩ := h.visits
  constructor
  case log => simp [h.log]
  case tree => simpa using h.tree
  case visits =>
    exact ⟨{ v' with isSkipped := true }, above', by simp [hv], hl, by simp, by simpa using hr, hab⟩
  case removal => simpa using h.removal

theorem remove {v' : Visit} {above' : List Visit} (h : Asked log start v above n e s)
    (hv : s.visits = v' :: above') (hr : (s.tree.removeAt? v'.location).isSome) :
    Asked log start v above n (e.note .remove) { s with
      own := (s.own.1, Event.noteLast .remove s.own.2)
      visits := { v' with isRemoved := true } :: above' } := by
  have ⟨v'', above'', hv', hl, hs, _, hab⟩ := h.visits
  cases hv.symm.trans hv'
  constructor
  case log => simp [h.log]
  case tree => simpa using h.tree
  case visits => exact ⟨_, above', rfl, hl, by simpa using hs, by simp, hab⟩
  case removal => simpa [hl, Node.removeAt?_of_setAt? h.tree] using hr

theorem replace {v' : Visit} {above' : List Visit} {m tree : Node}
    (h : Asked log start v above n e s) (hv : s.visits = v' :: above')
    (hm : s.tree.setAt? v'.location m = some tree) :
    Asked log start v above n (e.note (.replace m)) { s with
      tree
      own := (s.own.1, Event.noteLast (.replace m) s.own.2)
      visits := { v' with isReplaced := true } :: above' } := by
  have ⟨v'', above'', hv', hl, hs, hr, hab⟩ := h.visits
  cases hv.symm.trans hv'
  constructor
  case log => simp [h.log]
  case tree =>
    simpa [hl, Node.setAt?_of_setAt? h.tree] using hm
  case visits => exact ⟨_, above', rfl, hl, by simpa using hs, by simpa using hr, hab⟩
  case removal => simpa using h.removal

theorem agree {visits : List Visit} {scopes : Scopes} (h : Asked log start v above n e s)
    (ha : Agree s.visits visits) : Asked log start v above n e { s with visits, scopes } := by
  have ⟨v', above', hv, hl, hs, hr, hab⟩ := h.visits
  have ⟨w, ws, hw, hb, ha⟩ := (hv ▸ ha).cons_left
  cases v'
  cases w
  cases hb
  exact ⟨h.log, h.tree, ⟨_, ws, hw, hl, hs, hr, hab.trans ha⟩, h.removal⟩

end Asked

namespace WalkM

variable (traverse : Step → WalkM (σ × List Event) Unit)
variable (subtree : Visitor (σ × List Event) → WalkM (σ × List Event) Unit)
variable {log : List Event} {start : Node} {v : Visit} {above : List Visit} {n : Node} {e : Event}

-- Carrying out a local act adds its directives to the event, up to the first that is a misuse.
theorem perform_recorded {act : Act σ} (h : act.IsLocal) (ha : Above v.location above)
    {s : WalkState (σ × List Event)} (hs : Asked log start v above n e s) {moment : Moment}
    {l : Location} (he : e.Reports moment l n) :
    ∃ e', e'.Reports moment l n ∧
      match (perform traverse subtree act.recorded).run.run s with
      | (.ok _, s') => Asked log start v above n e' s'
      | (.error stop, s') => s'.own.2 = log ++ [e'] ∧ ∃ f, stop = .fault f ∧ f.IsMisuse := by
  induction act generalizing s e
  case done => exact ⟨e, he, hs⟩
  case getState next ih => exact ih _ (h _) hs he
  case setState state next ih => exact ih h ⟨hs.log, hs.tree, hs.visits, hs.removal⟩ he
  case visit next ih => exact ih _ (h _) hs he
  case root next ih => exact ih _ (h _) hs he
  case scopes next ih => exact ih _ (h _) hs he
  case traverse => exact h.elim
  case subtree => exact h.elim
  case node up next ih =>
    simp only [Act.recorded, perform, run_bind, run_node (hs.resolves ha)]
    exact ih _ (h _) hs he
  case scope next ih =>
    have ⟨id, visits, scopes, hr, hab⟩ := run_scope (hs.resolves ha)
    simp only [Act.recorded, perform, run_bind, hr]
    exact ih _ (h _) (hs.agree hab) he
  case skip next ih => exact ih h hs.skip (Event.note_reports he .skip)
  case remove next ih =>
    have ⟨v', above', hv, hl, _, _, hab⟩ := hs.visits
    have ha' := hl ▸ ha.agree hab
    have hn' := hl ▸ Node.at?_of_setAt? hs.tree
    simp only [Act.recorded, perform, run_bind]
    rcases run_remove hv ha' hn' with ⟨f, hr, hf⟩ | ⟨hr, hm⟩ <;> simp only [hr]
    case inl => exact ⟨e, he, hs.log, f, rfl, hf⟩
    case inr => exact ih h (hs.remove hv hm) (Event.note_reports he .remove)
  case replace m next ih =>
    have ⟨v', above', hv, hl, _, _, hab⟩ := hs.visits
    have hn' := hl ▸ Node.at?_of_setAt? hs.tree
    simp only [Act.recorded, perform, run_bind]
    rcases run_replace hv hn' m with ⟨f, hr, hf⟩ | ⟨tree, hm, hr⟩ <;> simp only [hr]
    case inl => exact ⟨e, he, hs.log, f, rfl, hf⟩
    case inr => exact ih h (hs.replace hv hm) (Event.note_reports he (.replace m))

theorem ask_leads (descend : Descent (σ × List Event)) (h : visitor.IsLocal) {s : WalkState (σ × List Event)}
    (hv : s.visits = v :: above) (ha : Above v.location above)
    (hn : s.tree.at? v.location = some n) (moment : Moment) :
    Leads (ask descend visitor.recorded moment) s
      (fun _ log s' => ∃ e, log = [e] ∧ e.Reports moment v.location n ∧
        Asked s.own.2 s.tree v above n e s')
      (fun stop log => ∃ e f, log = [e] ∧ e.Reports moment v.location n ∧ stop = .fault f ∧
        f.IsMisuse) := by
  let e : Event := ⟨moment, v.location, s.tree.at? v.location, []⟩
  let s₁ := { s with own := (s.own.1, s.own.2 ++ [e]) }
  have hs : Asked s.own.2 s.tree v above n e s₁ :=
    ⟨rfl, Node.setAt?_self hn, ⟨v, above, hv, rfl, by simp [e, Event.skips],
      by simp [e, Event.removes], .refl _⟩, by simp [e, Event.removes]⟩
  have he : e.Reports moment v.location n := ⟨rfl, rfl, hn⟩
  obtain ⟨e', he', hr⟩ := perform_recorded (visitStep descend visitor.recorded) (visitAgain descend)
    (h moment v.location) ha hs he
  have hrun : (ask descend visitor.recorded moment).run.run s =
      (perform (visitStep descend visitor.recorded) (visitAgain descend)
        (visitor moment v.location).recorded).run.run s₁ := by
    simp only [ask, run_bind, run_visit, hv, List.head?_cons, Option.getD_some]
    rfl
  rw [Leads, hrun]
  rcases hp : (perform (visitStep descend visitor.recorded) (visitAgain descend)
    (visitor moment v.location).recorded).run.run s₁ with ⟨stop | _, s'⟩ <;>
    simp only [hp] at hr ⊢
  case error =>
    obtain ⟨hl, f, hf, hm⟩ := hr
    exact ⟨[e'], hl, e', f, rfl, he', hf, hm⟩
  case ok => exact ⟨[e'], hr.log, e', rfl, he', hr⟩

end WalkM

-- What a fate means for the node at a place: `put` and `drop` say what comes of replacing and of
-- removing it.
def Fate.Settles (put : Node → Option Node) (drop : Option Node) : Fate → Bool → Node → Prop
  | .kept n, false, result => put n = some result
  | .removed, true, result => drop = some result
  | _, _, _ => False

-- For the parent of a place, the child at its step was replaced or removed.
theorem Fate.Settles.child {tree tree' p x : Node} {l : Location} {step : Step} {fate : Fate}
    {isRemoved : Bool} (hp : tree.at? l = some p) (hx : p.child? step = some x)
    (h : fate.Settles (tree.setAt? (l.child step)) (tree.removeAt? (l.child step)) isRemoved tree') :
    ∃ p', fate.Settles (p.setChild? step) (p.removeChild? step) isRemoved p' ∧
      tree.setAt? l p' = some tree' := by
  cases fate <;> cases isRemoved <;> simp only [Settles] at h ⊢
  case kept.false y => exact Option.bind_eq_some_iff.mp (Node.setAt?_child hp hx y ▸ h)
  case removed.true => exact Option.bind_eq_some_iff.mp (Node.removeAt?_child hp ▸ h)

namespace Field

variable {l : Location} {field : String} {slot : Slot Node Node} {log : List Event} {p : Node}

theorem of_elements {cs : List (Option Node)}
    (h : Elements l field 0 slot.content log (.ok cs)) (hp : slot.Places cs p) :
    Field l field slot log (.ok p) := by
  cases hp
  case list ys => exact .list h
  case sparse => exact .sparse h

theorem of_visited {x : Node} {fate : Fate} {isRemoved : Bool} (hx : slot.child? none = some x)
    (h : Visited (l.child ⟨field, none⟩) x log fate)
    (hs : fate.Settles (slot.setChild? · none) (slot.removeChild? none) isRemoved p) :
    Field l field slot log (.ok p) := by
  cases slot <;> cases hx <;> cases fate <;> cases isRemoved <;> cases hs
  case required.refl.kept.false.refl => exact .required h
  case optional.refl.kept.false.refl => exact .present h
  case optional.refl.removed.true.refl => exact .emptied h

theorem of_absent (hl : slot.length? = none) (hx : slot.child? none = none) :
    Field l field slot [] (.ok slot.restored) := by
  cases slot <;> cases hl <;> cases hx
  exact .absent

theorem refilled (h : Field l field slot log (.ok p)) : ∃ t, slot.Refilled p t := by
  cases h
  case required y _ => exact ⟨_, .required y⟩
  case absent => exact ⟨_, .optional none⟩
  case present y _ => exact ⟨_, .optional (some y)⟩
  case emptied => exact ⟨_, .optional none⟩
  case list ys _ => exact ⟨_, .list ys⟩
  case sparse ys _ => exact ⟨_, .sparse ys⟩

end Field

-- A descent that visits the node it is sent to and everything below.
def WalkM.Descent.Visits (descend : Descent (σ × List Event)) (visitor : Visitor σ) : Prop :=
  ∀ l s n, s.tree.at? l = some n → Above l s.visits →
    Leads (descend visitor.recorded l) s
      (fun isRemoved log s' => Agree s.visits s'.visits ∧ ∃ fate, Visited l n log fate ∧
        fate.Settles (s.tree.setAt? l) (s.tree.removeAt? l) isRemoved s'.tree)
      (fun stop log => Visited l n log (.cut stop))

namespace WalkM

section Children

variable {l : Location} {s : WalkState (σ × List Event)} {p x : Node} {step : Step}

variable (hd : descend.Visits visitor)
include hd

theorem visitChild_leads (hv : Above (l.child step) s.visits) (hp : s.tree.at? l = some p)
    (hx : p.child? step = some x) :
    Leads (visitChild descend visitor.recorded l step) s
      (fun isRemoved log s' => Agree s.visits s'.visits ∧ ∃ fate p', Visited (l.child step) x log fate ∧
        fate.Settles (p.setChild? step) (p.removeChild? step) isRemoved p' ∧
        s.tree.setAt? l p' = some s'.tree)
      (fun stop log => Visited (l.child step) x log (.cut stop)) := by
  have h := hd (l.child step) s x (by simp [Node.at?_child, hp, hx]) hv
  refine (h.mono ?_ fun _ _ => id).congr ?_
  · intro isRemoved log s' ⟨ha, fate, hf, hs⟩
    have ⟨p', hs, ht⟩ := hs.child hp hx
    exact ⟨ha, fate, p', hf, hs, ht⟩
  · exact run_visitChild_of_some hp hx

-- The loop over a list. The places before the index are done with; what is left to visit is what was
-- there at the start, though it may have moved.
theorem visitList_leads {slot : Slot Node Node} {field : String} {node : Node}
    (hslot : node.slot? field = some slot) (cs ds : List (Option Node))
    (hv : ∀ step, Above (l.child step) s.visits) (hp : s.tree.at? l = some p)
    (hpl : slot.Places (ds ++ cs) p) :
    Leads (visitList descend visitor.recorded l field cs.length ds.length) s
      (fun _ log s' => Agree s.visits s'.visits ∧ ∃ cs' p', Elements l field ds.length cs log (.ok cs') ∧
        slot.Places (ds ++ cs') p' ∧ s.tree.setAt? l p' = some s'.tree)
      (fun stop log => Elements l field ds.length cs log (.error stop)) := by
  induction cs generalizing ds s p
  case nil =>
    exact .of_run rfl rfl ⟨.refl _, [], p, .nil, hpl, Node.setAt?_self hp⟩
  case cons c cs ih =>
    obtain ⟨t, ht, hchild, hset, hremove⟩ := hpl.refilled
    have ht := (Node.slot?_of_refilled hslot ht).left
    have hc : p.child? ⟨field, some ds.length⟩ = c := by simp [Node.child?, ht, hchild]
    cases c
    case none =>
      have ih := ih (ds ++ [none]) hv hp (by simpa using hpl)
      refine (ih.mono ?_ ?_).congr ?_
      · rintro _ log s' ⟨ha, cs', p', he, hpl', ht'⟩
        exact ⟨ha, none :: cs', p', .hole (by simpa using he), by simpa using hpl', ht'⟩
      · intro stop log he
        exact .hole (by simpa using he)
      · simp only [List.length_cons, visitList, run_bind, run_visitChild_of_none hp hc, Bool.false_eq_true,
          ↓reduceIte, List.length_append, List.length_nil]
    case some x =>
      refine Leads.bind (visitChild_leads hd (hv _) hp hc) ?_ ?_
      · rintro isRemoved log s' ⟨ha, fate, p', hf, hs, hp'⟩
        have hv' step := (hv step).agree ha
        cases fate <;> cases isRemoved <;> simp only [Fate.Settles] at hs
        case kept.false y =>
          have hpl' := hset _ _ _ (by simpa [Node.setChild?, ht] using hs)
          have ih := ih (ds ++ [some y]) hv' (Node.at?_of_setAt? hp') (by simpa using hpl')
          simp only [List.length_append, List.length_singleton] at ih
          refine ih.mono ?_ ?_
          · rintro _ log' s'' ⟨ha', cs', p'', he, hpl'', ht''⟩
            exact ⟨ha.trans ha', some y :: cs', p'', .kept hf he, by simpa using hpl'',
              Node.setAt?_of_setAt? hp' p'' ▸ ht''⟩
          · intro stop log' he
            exact .kept hf he
        case removed.true =>
          have hpl' := hremove _ _ (by simpa [Node.removeChild?, ht] using hs)
          have ih := ih ds hv' (Node.at?_of_setAt? hp')
            (by simpa [List.eraseIdx_append_of_length_le] using hpl')
          refine ih.mono ?_ ?_
          · rintro _ log' s'' ⟨ha', cs', p'', he, hpl'', ht''⟩
            exact ⟨ha.trans ha', cs', p'', .removed hf he, hpl'',
              Node.setAt?_of_setAt? hp' p'' ▸ ht''⟩
          · intro stop log' he
            exact .removed hf he
      · intro stop log hf
        exact .cut hf

theorem visitField_leads {slot : Slot Node Node} {field : String}
    (hslot : p.slot? field = some slot) (hv : ∀ step, Above (l.child step) s.visits)
    (hp : s.tree.at? l = some p) :
    Leads (visitField descend visitor.recorded l field) s
      (fun _ log s' => Agree s.visits s'.visits ∧ ∃ p', Field l field slot log (.ok p') ∧
        s.tree.setAt? l p' = some s'.tree)
      (fun stop log => Field l field slot log (.error stop)) := by
  have hrest := Node.restored_of_slot? hslot
  cases hlen : slot.length?
  case some length =>
    have hpl := hrest ▸ Slot.places_content hlen
    have hlist := visitList_leads hd hslot slot.content [] hv hp hpl
    refine (hlist.mono ?_ ?_).congr ?_
    · rintro _ log s' ⟨ha, cs, p', he, hpl', ht⟩
      exact ⟨ha, p', .of_elements he hpl', ht⟩
    · intro stop log he
      exact .cutInList (by simp [hlen]) he
    · simp only [visitField, run_bind, run_nodeAt hp, hslot, Option.bind_some, hlen,
        Slot.length?_eq_content_length hlen, List.length_nil]
  case none =>
    have hrun : (visitField descend visitor.recorded l field).run.run s =
        (discard (visitChild descend visitor.recorded l ⟨field, none⟩)).run.run s := by
      simp only [visitField, run_bind, run_nodeAt hp, hslot, Option.bind_some, hlen]
    have hchild : p.child? ⟨field, none⟩ = slot.child? none := by simp [Node.child?, hslot]
    cases hx : slot.child? none
    case none =>
      have hnone : (visitField descend visitor.recorded l field).run.run s = (.ok (), s) := by
        rw [hrun]
        show ((visitChild descend visitor.recorded l ⟨field, none⟩) >>= fun _ => pure ()).run.run s = _
        rw [run_bind, run_visitChild_of_none hp (hchild.trans hx)]
        rfl
      exact .of_run hnone rfl ⟨.refl _, p, hrest ▸ .of_absent hlen hx, Node.setAt?_self hp⟩
    case some x =>
      refine Leads.congr (Leads.bind (visitChild_leads hd (hv _) hp (hchild.trans hx)) ?_ ?_) hrun
      · rintro isRemoved log s' ⟨ha, fate, p', hf, hs, ht⟩
        have hset : p.setChild? ⟨field, none⟩ = (slot.setChild? · none) := by
          funext
          simp [Node.setChild?, hslot]
        have hremove : p.removeChild? ⟨field, none⟩ = slot.removeChild? none := by
          simp [Node.removeChild?, hslot]
        rw [hset, hremove] at hs
        exact .of_run rfl rfl ⟨ha, p', by simpa using Field.of_visited hx hf hs, ht⟩
      · intro stop log hf
        exact .cut hx hf

theorem visitFields_leads {fields : List String} (hfs : ∀ field ∈ fields, field ∈ p.type.fields)
    (hv : ∀ step, Above (l.child step) s.visits) (hp : s.tree.at? l = some p) :
    Leads (fields.forM (visitField descend visitor.recorded l)) s
      (fun _ log s' => Agree s.visits s'.visits ∧ ∃ p', Fields l p fields log (.ok p') ∧
        s.tree.setAt? l p' = some s'.tree)
      (fun stop log => Fields l p fields log (.error stop)) := by
  induction fields generalizing s p
  case nil => exact .of_run rfl rfl ⟨.refl _, p, .nil, Node.setAt?_self hp⟩
  case cons field fields ih =>
    have ⟨slot, hslot⟩ := Node.slot?_isSome (hfs field (.head _))
    refine Leads.bind (visitField_leads hd hslot hv hp) ?_ ?_
    · intro _ log s' ⟨ha, p', hf, ht⟩
      have ⟨t, hr⟩ := hf.refilled
      have htype := (Node.slot?_of_refilled hslot hr).right
      have ih := ih (fun f hf => htype ▸ hfs f (.tail _ hf)) (fun step => (hv step).agree ha)
        (Node.at?_of_setAt? ht)
      refine ih.mono ?_ ?_
      · intro _ log' s'' ⟨ha', p'', hf', ht'⟩
        exact ⟨ha.trans ha', p'', .cons hslot hf hf', Node.setAt?_of_setAt? ht p'' ▸ ht'⟩
      · intro stop log' hf'
        exact .cons hslot hf hf'
    · intro stop log hf
      exact .cut hslot hf

theorem visitChildren_leads (hv : ∀ step, Above (l.child step) s.visits)
    (hp : s.tree.at? l = some p) :
    Leads (visitChildren descend visitor.recorded l) s
      (fun _ log s' => Agree s.visits s'.visits ∧ ∃ p', Fields l p p.type.fields log (.ok p') ∧
        s.tree.setAt? l p' = some s'.tree)
      (fun stop log => Fields l p p.type.fields log (.error stop)) :=
  (visitFields_leads hd (fun _ => id) hv hp).congr (by
    simp only [visitChildren, run_bind, run_nodeAt hp])

end Children

-- The end of a visit: what was to be removed is removed, and the visit is taken off.
theorem commit_leads {s : WalkState (σ × List Event)} {tree y : Node} {l : Location} {v : Visit}
    {above : List Visit} (hv : s.visits = v :: above) (hl : v.location = l)
    (ht : tree.setAt? l y = some s.tree) (hr : v.isRemoved → (tree.removeAt? l).isSome) :
    Leads (do
        let isRemoved ← commit
        modify fun s => { s with visits := s.visits.tail }
        return isRemoved) s
      (fun isRemoved log s' => log = [] ∧ s'.visits = above ∧
        (Fate.of v.isRemoved y).Settles (tree.setAt? l) (tree.removeAt? l) isRemoved s'.tree)
      (fun _ _ => False) := by
  have hm := Node.removeAt?_of_setAt? ht
  have hrun {b s'} (h : commit.run.run s = (.ok b, s')) : (do
      let isRemoved ← commit
      modify fun s => { s with visits := s.visits.tail }
      return isRemoved : WalkM (σ × List Event) Bool).run.run s =
        (.ok b, { s' with visits := s'.visits.tail }) := by
    simp only [run_bind, h, run_modify, run_pure]
  have h := run_commit hv (by rwa [hl, hm])
  split at h
  case isTrue hi =>
    have ⟨tree', ht', h⟩ := h
    refine .of_run (hrun h) rfl ⟨rfl, by simp [hv], ?_⟩
    simpa [Fate.of, hi, Fate.Settles, ← hm, hl] using ht'
  case isFalse hi =>
    refine .of_run (hrun h) rfl ⟨rfl, by simp [hv], ?_⟩
    simpa [Fate.of, hi, Fate.Settles] using ht

-- The second question and the end of a visit, once everything below is done with.
theorem exit_leads (descend : Descent (σ × List Event)) (h : visitor.IsLocal) {s s' : WalkState (σ × List Event)} {log log' : List Event}
    {tree n' : Node} (hs : Asked log tree v above n e s) (he : e.Reports .enter v.location n)
    (hv : v.isSkipped = false ∧ v.isRemoved = false) (ha : Above v.location above)
    (hskips : e.skips = false) (hag : Agree s.visits s'.visits)
    (hin : Inside v.location (e.leaves n) e.removes log' (.ok n'))
    (ht : s.tree.setAt? v.location n' = some s'.tree) :
    Leads (do
        ask descend visitor.recorded .exit
        let isRemoved ← commit
        modify fun s => { s with visits := s.visits.tail }
        return isRemoved) s'
      (fun isRemoved log s'' => Agree above s''.visits ∧
        ∃ fate, Visited v.location n (e :: (log' ++ log)) fate ∧
          fate.Settles (tree.setAt? v.location) (tree.removeAt? v.location) isRemoved s''.tree)
      (fun stop log => Visited v.location n (e :: (log' ++ log)) (.cut stop)) := by
  have ⟨v₁, above₁, hv₁, hl₁, _, hrm, hab⟩ := hs.visits
  have ⟨v₂, above₂, hv₂, hb, hab'⟩ := (hv₁ ▸ hag).cons_left
  have hl₂ := (Visit.location_of_bare hb).trans hl₁
  have ht' := Node.setAt?_of_setAt? hs.tree n' ▸ ht
  have hask := ask_leads descend h hv₂ (hl₂ ▸ ha.agree (hab.trans hab'))
    (hl₂ ▸ Node.at?_of_setAt? ht) .exit
  rw [hl₂] at hask
  refine hask.bind ?_ ?_
  · rintro _ _ s₃ ⟨e', rfl, he', hs₃⟩
    have ⟨v₃, above₃, hv₃, hl₃, _, hrm₃, hab₃⟩ := hs₃.visits
    have hl₃ := hl₃.trans hl₂
    have hm : v₃.isRemoved = (e.removes || e'.removes) := by
      simp [hrm₃, Visit.isRemoved_of_bare hb, hrm, hv.right]
    have htree : tree.setAt? v.location (e'.leaves n') = some s₃.tree := by
      rw [← Node.setAt?_of_setAt? ht']
      exact hl₂ ▸ hs₃.tree
    have hremoval : v₃.isRemoved → (tree.removeAt? v.location).isSome := by
      rw [hm, Bool.or_eq_true]
      rintro (hr | hr)
      · exact hs.removal hr
      · rw [← Node.removeAt?_of_setAt? ht']
        exact hl₂ ▸ hs₃.removal hr
    refine (commit_leads hv₃ hl₃ htree hremoval).mono ?_ fun _ _ => False.elim
    rintro isRemoved _ s₄ ⟨rfl, hv₄, hfate⟩
    exact ⟨hv₄ ▸ hab.trans (hab'.trans hab₃), _, .walked he hskips hin he', hm ▸ hfate⟩
  · rintro _ _ ⟨e', f, rfl, he', rfl, hf⟩
    exact .cutOnExit he hskips hin he' hf

-- One visit, if the walks below it are visits: `Visited` tells what is asked and what is left.
theorem visitNode_visits (h : visitor.IsLocal) (hd : descend.Visits visitor) :
    Descent.Visits (visitNode descend) visitor := by
  intro l s n hn ha
  let v : Visit := { location := l }
  let s₁ := { s with visits := v :: s.visits }
  have hpush : Leads (modify fun s => { s with visits := v :: s.visits }) s
      (fun _ log s' => log = [] ∧ s' = s₁) (fun _ _ => False) := .of_run rfl rfl ⟨rfl, rfl⟩
  refine hpush.bind ?_ fun _ _ => False.elim
  rintro _ _ _ ⟨rfl, rfl⟩
  have henter := ask_leads descend h (show s₁.visits = v :: _ from rfl) ha hn .enter
  refine henter.bind ?_ ?enter
  case enter =>
    rintro _ _ ⟨e, f, rfl, he, rfl, hf⟩
    exact .cutOnEnter he hf
  rintro _ _ s₂ ⟨e, rfl, he, hs₂⟩
  have ⟨v', above, hv', hl, hsk, hrm, hab⟩ := hs₂.visits
  have hvisit : Leads visit s₂ (fun a log s' => a = v' ∧ log = [] ∧ s' = s₂) (fun _ _ => False) :=
    .of_run (by simp [hv']) rfl ⟨rfl, rfl, rfl⟩
  refine hvisit.bind ?_ fun _ _ => False.elim
  rintro _ _ s₂ ⟨rfl, rfl, rfl⟩
  simp only [v, Bool.false_or] at hsk hrm
  cases hskips : e.skips
  case true =>
    simp only [hsk, hskips, Bool.not_true, Bool.false_eq_true, ↓reduceIte]
    refine (commit_leads hv' hl hs₂.tree (hrm ▸ hs₂.removal)).mono ?_ fun _ _ => False.elim
    rintro isRemoved _ s₃ ⟨rfl, hv₃, hfate⟩
    exact ⟨hv₃ ▸ hab, _, .skipped he hskips, hrm ▸ hfate⟩
  case false =>
    simp only [hsk, hskips, Bool.not_false, ↓reduceIte]
    cases hremoves : e.removes
    case true =>
      simp only [hrm, hremoves, Bool.not_true, Bool.false_eq_true, ↓reduceIte]
      exact exit_leads descend h hs₂ he ⟨rfl, rfl⟩ ha hskips (.refl _) (hremoves ▸ .dropped)
        (Node.setAt?_self (Node.at?_of_setAt? hs₂.tree))
    case false =>
      simp only [hrm, hremoves, Bool.not_false, ↓reduceIte]
      have hbelow step : Above (l.child step) s₂.visits := hv' ▸ .child hl (ha.agree hab)
      refine (visitChildren_leads hd hbelow (Node.at?_of_setAt? hs₂.tree)).bind ?_ ?_
      · intro _ log s₃ ⟨hag, n', hf, ht⟩
        exact exit_leads descend h hs₂ he ⟨rfl, rfl⟩ ha hskips hag (hremoves ▸ .walked hf) ht
      · intro stop log hf
        exact .cutInside he hskips (hremoves ▸ .walked hf)

theorem visitWithin_visits (h : visitor.IsLocal) (depth : Nat) :
    Descent.Visits (visitWithin depth) visitor := by
  induction depth
  case zero => exact fun _ _ _ _ _ => ⟨[], by simp only [visitWithin, run_throw, List.append_nil], .unbegun⟩
  case succ depth ih => exact visitNode_visits h ih

end WalkM

-- What became of the root.
def WalkResult.fate {τ : Type} (r : WalkResult τ) : Fate :=
  match r.stop with
  | none => .kept r.tree
  | some stop => .cut stop

theorem WalkResult.fate_of_isNone {τ : Type} {r : WalkResult τ} (h : r.stop.isNone) :
    r.fate = .kept r.tree := by
  rw [fate, Option.isNone_iff_eq_none.mp h]

theorem walk_visited (h : visitor.IsLocal) (depth : Nat) (own : σ) (tree : Node) :
    let r := walk depth visitor.recorded (own, []) tree
    Visited .root tree r.own.2 r.fate := by
  obtain ⟨log, hlog, hw⟩ := visitWithin_visits h depth .root ⟨tree, (own, []), [], []⟩ tree rfl .root
  simp only [walk]
  rcases hrun : (visitWithin depth visitor.recorded .root).run.run ⟨tree, (own, []), [], []⟩
    with ⟨stop | isRemoved, s⟩ <;> simp only [hrun, List.nil_append] at hlog hw ⊢
  case error => exact hlog ▸ hw
  case ok =>
    obtain ⟨_, fate, hv, hf⟩ := hw
    -- The root is in no field that it could be taken out of.
    cases fate <;> cases isRemoved <;> cases hf
    case kept.false.refl => exact hlog ▸ hv

-- The contract of a walk. Whatever a visitor asks for at the nodes it is handed, the walk meets the tree
-- as `Visited` tells; it stops early only if the visitor misuses a visit or the depth does not suffice.
-- The record is that of the recorded visitor, whose walk is the same in every other respect.
theorem walk_contract (h : visitor.IsLocal) (depth : Nat) (own : σ) (tree : Node) :
    let r := walk depth visitor.recorded (own, []) tree
    walk depth visitor own tree = { r with own := r.own.1 } ∧ Visited .root tree r.own.2 r.fate :=
  ⟨walk_recorded visitor depth own tree, walk_visited h depth own tree⟩

-- Removes the empty statements, each when it is left.
def emptyStatementRemover : Visitor Unit
  | .enter, _ => .done
  | .exit, _ => .node 0 fun n => if n.any (·.type = .emptyStatement) then .remove .done else .done

theorem emptyStatementRemover_isLocal : emptyStatementRemover.IsLocal := by
  intro moment l
  cases moment
  case enter => trivial
  case exit =>
    intro n
    show Act.IsLocal (if _ then _ else _)
    split <;> trivial

-- Neighbours that are removed are all visited.
theorem walk_contract_emptyStatementRemover :
    emptyStatementRemover.IsLocal ∧
      ∃ log tree, Visited .root (.program [.empty, .empty, .nullLiteral, .empty]) log (.kept tree) ∧
        tree.form.children.map (·.2.type) = [.literal] := by
  have ⟨_, hv⟩ := walk_contract emptyStatementRemover_isLocal 2 ()
    (.program [.empty, .empty, .nullLiteral, .empty])
  rw [WalkResult.fate_of_isNone (by decide +kernel)] at hv
  exact ⟨emptyStatementRemover_isLocal, _, _, hv, by decide +kernel⟩

end ScriptTree
