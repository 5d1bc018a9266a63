import ScriptTree.Proofs.Node.Preorder
import ScriptTree.Proofs.Walk.Contract

/-!
The order of a walk. If its visitor changes nothing, a walk asks what a recursion over the tree asks that
knows of nothing but the nodes to be skipped; and the visitor may choose those as it goes.
-/

namespace ScriptTree

open WalkM

variable {σ : Type}

-- Looks around, keeps a state and skips, and nothing else.
def Act.OnlyLooks : Act σ → Prop
  | .done => True
  | .getState next => ∀ s, (next s).OnlyLooks
  | .setState _ next => next.OnlyLooks
  | .visit next => ∀ v, (next v).OnlyLooks
  | .node _ next => ∀ n, (next n).OnlyLooks
  | .root next => ∀ n, (next n).OnlyLooks
  | .skip next => next.OnlyLooks
  | .remove _ => False
  | .replace _ _ => False
  | .traverse _ _ => False
  | .subtree _ _ => False
  | .scope next => ∀ id, (next id).OnlyLooks
  | .scopes next => ∀ ss, (next ss).OnlyLooks

def Visitor.OnlyLooks (visitor : Visitor σ) : Prop :=
  ∀ moment l, (visitor moment l).OnlyLooks

namespace Event

-- The question without the answer.
def question (e : Event) : Event :=
  { e with directives := [] }

-- What is done about the question is at most to skip.
def OnlySkips (e : Event) : Prop :=
  ∀ d ∈ e.directives, d.isSkip

namespace OnlySkips

variable {e : Event}

theorem note (h : e.OnlySkips) : (e.note .skip).OnlySkips :=
  List.forall_mem_append.mpr ⟨h, List.forall_mem_singleton.mpr rfl⟩

theorem removes (h : e.OnlySkips) : e.removes = false := by
  rw [Event.removes, List.any_eq_false]
  intro d hd
  have := h d hd
  cases d <;> simp_all

theorem leaves (h : e.OnlySkips) (n : Node) : e.leaves n = n := by
  have hfold (ds : List Directive) (h : ∀ d ∈ ds, d.isSkip) : ds.foldl Directive.leaves n = n := by
    induction ds
    case nil => rfl
    case cons d ds ih =>
      obtain ⟨hd, hds⟩ := List.forall_mem_cons.mp h
      cases d <;> simp at hd
      exact ih hds
  exact hfold e.directives h

end OnlySkips
end Event

namespace Node

-- What is asked at a node that is at `l`, and below it: a question before its children, which are met in
-- their order, and one behind them; or the first one only.
def tour (skips : Location → Bool) : Node → (l : Location) → List Event :=
  fold fun n form l => ⟨.enter, l, some n, []⟩ ::
    if skips l then []
    else (form.children.flatMap fun (step, inner) => inner (l.child step)) ++ [⟨.exit, l, some n, []⟩]

variable {tree n : Node} {l : Location} {skips : Location → Bool}

theorem tour_eq (skips : Location → Bool) (n : Node) (l : Location) : n.tour skips l =
    ⟨.enter, l, some n, []⟩ ::
      if skips l then []
      else (n.form.children.flatMap fun (step, c) => c.tour skips (l.child step)) ++
        [⟨.exit, l, some n, []⟩] := by
  rw [tour, fold_eq]
  simp only [Form.children_map, List.flatMap_map]
  rfl

-- Every question is about the node at its place.
theorem found_of_mem_tour (hn : tree.at? l = some n) {e : Event} (he : e ∈ n.tour skips l) :
    ∃ x, e.found = some x ∧ tree.at? e.location = some x := by
  induction n using induct generalizing l
  case h n ih =>
    rw [tour_eq, List.mem_cons] at he
    rcases he with rfl | he
    · exact ⟨n, rfl, hn⟩
    split at he
    case isTrue => cases he
    case isFalse =>
      rcases List.mem_append.mp he with he | he
      · obtain ⟨⟨step, c⟩, hc, he⟩ := List.mem_flatMap.mp he
        have hc := mem_children.mp hc
        exact ih step c hc (by rw [at?_child, hn, Option.bind_some, hc]) he
      · cases List.mem_singleton.mp he
        exact ⟨n, rfl, hn⟩

end Node

-- Skipped are the places at which the record says so.
def Honors (skips : Location → Bool) (log : List Event) : Prop :=
  ∀ e ∈ log, e.moment = .enter → skips e.location = e.skips

-- A record that retells a tour, whatever else it holds. The tour enters places among some others only.
structure Retells (log : List Event) (tour : (Location → Bool) → List Event) (places : List Location) :
    Prop where
  tour   : ∀ skips, Honors skips log → log.map Event.question = tour skips
  enters : ((log.filter (·.moment = .enter)).map (·.location)).Sublist places

namespace Retells

variable {log log' : List Event} {tour tour' : (Location → Bool) → List Event}
variable {places places' : List Location} {e e' : Event} {l : Location} {n : Node}

theorem nil : Retells [] (fun _ => []) [] :=
  ⟨fun _ _ => rfl, List.Sublist.refl _⟩

theorem append (h : Retells log tour places) (h' : Retells log' tour' places') :
    Retells (log ++ log') (fun skips => tour skips ++ tour' skips) (places ++ places') where
  tour skips hs := by
    obtain ⟨hl, hl'⟩ := List.forall_mem_append.mp hs
    rw [List.map_append, h.tour skips hl, h'.tour skips hl']
  enters := by
    rw [List.filter_append, List.map_append]
    exact h.enters.append h'.enters

theorem skipped (he : e.Reports .enter l n) (hs : e.skips) :
    Retells [e] (n.tour · l) (n.preorder l) where
  tour skips h := by
    have hl : skips l := by rw [← he.2.1, h e (.head _) he.1, hs]
    rw [Node.tour_eq, if_pos hl, ← he.1, ← he.2.1, ← he.2.2]
    rfl
  enters := by
    rw [Node.preorder_eq]
    simp [he.1, he.2.1]

theorem walked (he : e.Reports .enter l n) (hs : e.skips = false) (he' : e'.Reports .exit l n)
    (h : Retells log
      (fun skips => n.form.children.flatMap fun (step, c) => c.tour skips (l.child step))
      (n.form.children.flatMap fun (step, c) => c.preorder (l.child step))) :
    Retells (e :: (log ++ [e'])) (n.tour · l) (n.preorder l) where
  tour skips hh := by
    obtain ⟨hl, hh⟩ := List.forall_mem_cons.mp hh
    have hl : ¬skips l := by rw [← he.2.1, hl he.1, hs]; exact Bool.false_ne_true
    rw [Node.tour_eq, if_neg hl, List.map_cons, List.map_append,
      h.tour skips (List.forall_mem_append.mp hh).1]
    obtain ⟨hm, rfl, hf⟩ := he
    obtain ⟨hm', hl', hf'⟩ := he'
    simp [Event.question, hm, hf, hm', hl', hf']
  enters := by
    rw [Node.preorder_eq]
    simp [he.1, he.2.1, he'.1, h.enters]

-- Since no place is entered twice, there is one tour that the record retells.
theorem exists_tour (h : Retells log tour places) (hd : places.Nodup) :
    ∃ skips, Honors skips log ∧ log.map Event.question = tour skips := by
  let skips (l : Location) : Bool := log.any fun e => e.moment = .enter ∧ e.location = l ∧ e.skips
  have hskips : Honors skips log := by
    intro e he hm
    rw [Bool.eq_iff_iff, List.any_eq_true]
    constructor
    · rintro ⟨e', he', h'⟩
      obtain ⟨hm', hl, hs⟩ := of_decide_eq_true h'
      have hmem : e ∈ log.filter (·.moment = .enter) := by simp [he, hm]
      have hmem' : e' ∈ log.filter (·.moment = .enter) := by simp [he', hm']
      rwa [← List.inj_on_of_nodup_map (h.enters.nodup hd) hmem' hmem hl]
    · exact fun hs => ⟨e, he, by simp [hm, hs]⟩
  exact ⟨skips, hskips, h.tour skips hskips⟩

end Retells

namespace WalkM

variable {visitor : Visitor σ} {descend : Descent (σ × List Event)}
variable {s s₁ s₂ : WalkState (σ × List Event)} {l : Location} {n : Node}

-- A record was made, and nothing has changed.
structure Passes (s : WalkState (σ × List Event)) (log : List Event) (s' : WalkState (σ × List Event)) :
    Prop where
  log    : s'.own.2 = s.own.2 ++ log
  tree   : s'.tree = s.tree
  visits : Agree s.visits s'.visits

namespace Passes

variable {log log' : List Event}

theorem refl (s : WalkState (σ × List Event)) : Passes s [] s :=
  ⟨(List.append_nil _).symm, rfl, .refl _⟩

theorem trans (h : Passes s log s₁) (h' : Passes s₁ log' s₂) : Passes s (log ++ log') s₂ :=
  ⟨by rw [h'.log, h.log, List.append_assoc], h'.tree.trans h.tree, h.visits.trans h'.visits⟩

end Passes

-- A descent that makes a tour of the node at a place.
def Descent.Tours (descend : Descent (σ × List Event)) (visitor : Visitor σ) (l : Location) (n : Node) :
    Prop :=
  ∀ s, s.tree.at? l = some n → Above l s.visits →
    ∃ log s', (descend visitor.recorded l).run.run s = (.ok false, s') ∧ Passes s log s' ∧
      Retells log (n.tour · l) (n.preorder l)

theorem perform_looks (traverse : Step → WalkM (σ × List Event) Unit)
    (subtree : Visitor (σ × List Event) → WalkM (σ × List Event) Unit) {log : List Event} {start : Node}
    {v : Visit} {above : List Visit} {e : Event} {act : Act σ} (h : act.OnlyLooks)
    (ha : Above v.location above) (hs : Asked log start v above n e s) {moment : Moment}
    (he : e.Reports moment l n) (hskips : e.OnlySkips) :
    ∃ e' s', (perform traverse subtree act.recorded).run.run s = (.ok (), s') ∧
      Asked log start v above n e' s' ∧ e'.Reports moment l n ∧ e'.OnlySkips := by
  induction act generalizing s e
  case done => exact ⟨e, s, rfl, hs, he, hskips⟩
  case getState next ih => exact ih _ (h _) hs he hskips
  case setState state next ih => exact ih h ⟨hs.log, hs.tree, hs.visits, hs.removal⟩ he hskips
  case visit next ih => exact ih _ (h _) hs he hskips
  case root next ih => exact ih _ (h _) hs he hskips
  case scopes next ih => exact ih _ (h _) hs he hskips
  case skip next ih => exact ih h hs.skip (Event.note_reports he .skip) hskips.note
  case remove | replace | traverse | subtree => exact h.elim
  case node up next ih =>
    simp only [Act.recorded, perform, run_bind, run_node (hs.resolves ha)]
    exact ih _ (h _) hs he hskips
  case scope next ih =>
    obtain ⟨id, visits, scopes, hr, hab⟩ := run_scope (hs.resolves ha)
    simp only [Act.recorded, perform, run_bind, hr]
    exact ih _ (h _) (hs.agree hab) he hskips

-- A question adds itself to the record; if the answer was to skip, the visit knows it.
theorem ask_looks (descend : Descent (σ × List Event)) (h : visitor.OnlyLooks) {v : Visit}
    {above : List Visit} (hv : s.visits = v :: above) (ha : Above v.location above)
    (hn : s.tree.at? v.location = some n) (hr : v.isRemoved = false) (moment : Moment) :
    ∃ e s' v' above', (ask descend visitor.recorded moment).run.run s = (.ok (), s') ∧
      e.Reports moment v.location n ∧ s'.own.2 = s.own.2 ++ [e] ∧ s'.tree = s.tree ∧
      s'.visits = v' :: above' ∧ v'.location = v.location ∧ v'.isRemoved = false ∧
      v'.isSkipped = (v.isSkipped || e.skips) ∧ Agree above above' := by
  let e : Event := ⟨moment, v.location, s.tree.at? v.location, []⟩
  let s₁ := { s with own := (s.own.1, s.own.2 ++ [e]) }
  have hs : Asked s.own.2 s.tree v above n e s₁ :=
    ⟨rfl, Node.setAt?_self hn, ⟨v, above, hv, rfl, by simp [e, Event.skips],
      by simp [e, Event.removes], .refl _⟩, by simp [e, Event.removes]⟩
  obtain ⟨e', s', hrun, hs', he', hskips⟩ := perform_looks (visitStep descend visitor.recorded)
    (visitAgain descend) (h moment v.location) ha hs (l := v.location) ⟨rfl, rfl, hn⟩ nofun
  have hask : (ask descend visitor.recorded moment).run.run s =
      (perform (visitStep descend visitor.recorded) (visitAgain descend)
        (visitor moment v.location).recorded).run.run s₁ := by
    simp only [ask, run_bind, run_visit, hv, List.head?_cons, Option.getD_some]
    rfl
  obtain ⟨v', above', hv', hl, hsk, hrm, hab⟩ := hs'.visits
  have htree : s'.tree = s.tree := by
    have := hs'.tree
    rw [hskips.leaves, Node.setAt?_self hn] at this
    exact (Option.some.inj this).symm
  refine ⟨e', s', v', above', hask.trans hrun, he', hs'.log, htree, hv', hl, ?_, hsk, hab⟩
  rw [hrm, hr, hskips.removes, Bool.or_false]

theorem visitEach_tours {ps : List (Step × Node)} (hps : ∀ p ∈ ps, n.child? p.1 = some p.2)
    (hn : s.tree.at? l = some n) (ha : ∀ step, Above (l.child step) s.visits)
    (hd : ∀ step c, n.child? step = some c → descend.Tours visitor (l.child step) c) :
    ∃ log s', (visitEach descend visitor.recorded l ps).run.run s = (.ok (), s') ∧ Passes s log s' ∧
      Retells log (fun skips => ps.flatMap fun (step, c) => c.tour skips (l.child step))
        (ps.flatMap fun (step, c) => c.preorder (l.child step)) := by
  induction ps generalizing s
  case nil => exact ⟨[], s, rfl, .refl s, .nil⟩
  case cons p ps ih =>
    obtain ⟨hp, hps⟩ := List.forall_mem_cons.mp hps
    have hat : s.tree.at? (l.child p.1) = some p.2 := by rw [Node.at?_child, hn, Option.bind_some, hp]
    obtain ⟨log, s₁, hrun, hpass, hlog⟩ := hd _ _ hp s hat (ha p.1)
    obtain ⟨log', s₂, hrun', hpass', hlog'⟩ :=
      ih hps (hpass.tree ▸ hn) fun step => (ha step).agree hpass.visits
    exact ⟨log ++ log', s₂, (run_visitEach_cons p.2 ps hrun).trans hrun', hpass.trans hpass',
      hlog.append hlog'⟩

theorem visitChildren_tours (hn : s.tree.at? l = some n) (ha : ∀ step, Above (l.child step) s.visits)
    (hd : ∀ step c, n.child? step = some c → descend.Tours visitor (l.child step) c) :
    ∃ log s', (visitChildren descend visitor.recorded l).run.run s = (.ok (), s') ∧ Passes s log s' ∧
      Retells log
        (fun skips => n.form.children.flatMap fun (step, c) => c.tour skips (l.child step))
        (n.form.children.flatMap fun (step, c) => c.preorder (l.child step)) := by
  let steady (s : WalkState (σ × List Event)) : Prop :=
    s.tree.at? l = some n ∧ ∀ step, Above (l.child step) s.visits
  have hsteady step c (s : WalkState (σ × List Event)) (hc : n.child? step = some c) (hs : steady s) :
      ∃ s', (descend visitor.recorded (l.child step)).run.run s = (.ok false, s') ∧ steady s' := by
    obtain ⟨log, s', hrun, hpass, _⟩ :=
      hd step c hc s (by rw [Node.at?_child, hs.1, Option.bind_some, hc]) (hs.2 step)
    exact ⟨s', hrun, hpass.tree ▸ hs.1, fun step => (hs.2 step).agree hpass.visits⟩
  rw [run_visitChildren_steady (fun _ hs => hs.1) hsteady ⟨hn, ha⟩]
  exact visitEach_tours (fun _ => Node.mem_children.mp) hn ha hd

-- The end of a visit that takes nothing out.
theorem run_close {v : Visit} {above : List Visit} (hv : s.visits = v :: above)
    (hr : v.isRemoved = false) :
    (do
      let isRemoved ← commit
      modify fun s => { s with visits := s.visits.tail }
      return isRemoved : WalkM _ Bool).run.run s = (.ok false, { s with visits := above }) := by
  simp only [run_bind, run_commit_of_kept hv hr, run_modify, hv, List.tail_cons, run_pure]

theorem visitNode_tours (h : visitor.OnlyLooks)
    (hd : ∀ step c, n.child? step = some c → descend.Tours visitor (l.child step) c) :
    Descent.Tours (visitNode descend) visitor l n := by
  intro s hn ha
  let s₁ := { s with visits := { location := l } :: s.visits }
  obtain ⟨e, s₂, v₂, above₂, henter, he, hlog₂, htree₂, hv₂, hl₂, hr₂, hsk₂, hab₂⟩ :=
    ask_looks descend h (s := s₁) rfl ha hn rfl .enter
  rw [Bool.false_or] at hsk₂
  have hopen : (modify fun s => { s with visits := { location := l } :: s.visits } :
    WalkM (σ × List Event) Unit).run.run s = (.ok (), s₁) := rfl
  cases hskips : e.skips
  case true =>
    refine ⟨[e], { s₂ with visits := above₂ }, ?_, ⟨hlog₂, htree₂, hab₂⟩, .skipped he hskips⟩
    rw [← run_close hv₂ hr₂]
    simp only [visitNode, run_bind, hopen, henter, run_visit, hv₂, List.head?_cons, Option.getD_some,
      hsk₂, hskips, Bool.not_true, Bool.false_eq_true, ↓reduceIte]
  case false =>
    have hbelow step : Above (l.child step) s₂.visits := hv₂ ▸ .child hl₂ (ha.agree hab₂)
    obtain ⟨log, s₃, hrun₃, hpass, hlog⟩ := visitChildren_tours (htree₂ ▸ hn) hbelow hd
    obtain ⟨v₃, above₃, hv₃, hb, hab₃⟩ := (hv₂ ▸ hpass.visits).cons_left
    have hl₃ : v₃.location = l := (Visit.location_of_bare hb).trans hl₂
    have hr₃ := (Visit.isRemoved_of_bare hb).trans hr₂
    obtain ⟨e', s₄, v₄, above₄, hexit, he', hlog₄, htree₄, hv₄, -, hr₄, -, hab₄⟩ :=
      ask_looks descend h hv₃ (hl₃ ▸ ha.agree (hab₂.trans hab₃))
        (by rw [hl₃, hpass.tree, htree₂]; exact hn) hr₃ .exit
    refine ⟨e :: (log ++ [e']), { s₄ with visits := above₄ }, ?_, ⟨?_, ?_, ?_⟩,
      .walked he hskips (hl₃ ▸ he') hlog⟩
    · rw [← run_close hv₄ hr₄]
      simp only [visitNode, run_bind, hopen, henter, run_visit, hv₂, List.head?_cons,
        Option.getD_some, hsk₂, hskips, hr₂, Bool.not_false, ↓reduceIte, hrun₃, hexit]
    · simp [hlog₄, hpass.log, hlog₂, s₁]
    · rw [htree₄, hpass.tree, htree₂]
    · exact hab₂.trans (hab₃.trans hab₄)

theorem visitWithin_tours (h : visitor.OnlyLooks) (depth : Nat) (hd : n.height ≤ depth) :
    Descent.Tours (visitWithin depth) visitor l n := by
  induction depth generalizing l n
  case zero => exact absurd n.height_pos (Nat.not_lt.mpr hd)
  case succ depth ih =>
    exact visitNode_tours h fun step c hc => ih (by have := Node.height_lt_of_child? hc; omega)

end WalkM

-- A walk whose visitor changes nothing comes to its end and leaves the tree. What it asks is what the tour
-- asks that leaves out the nodes below those skipped, and each question is about the node at its place.
theorem walk_tours {visitor : Visitor σ} (h : visitor.OnlyLooks) {tree : Node} {depth : Nat}
    (hd : tree.height ≤ depth) (own : σ) :
    let r := walk depth visitor.recorded (own, []) tree
    walk depth visitor own tree = { r with own := r.own.1 } ∧ r.stop = none ∧ r.tree = tree ∧
      ∃ skips, Honors skips r.own.2 ∧ r.own.2.map Event.question = tree.tour skips .root ∧
        ∀ e ∈ r.own.2, ∃ x, e.found = some x ∧ tree.at? e.location = some x := by
  obtain ⟨log, s, hrun, hpass, hlog⟩ :=
    visitWithin_tours h depth hd ⟨tree, (own, []), [], []⟩ (l := .root) rfl .root
  obtain ⟨skips, hskips, htour⟩ := hlog.exists_tour (Node.nodup_preorder tree .root)
  intro r
  have hlogs : s.own.2 = log := hpass.log
  have hr : r = ⟨none, tree, (s.own.1, log), s.scopes⟩ := by
    simp only [r, walk, hrun, hpass.tree, ← hlogs]
  refine ⟨walk_recorded visitor depth own tree, by rw [hr], by rw [hr], skips, ?_, ?_, ?_⟩ <;>
    simp only [hr]
  · exact hskips
  · exact htour
  · intro e he
    exact Node.found_of_mem_tour (e := e.question) rfl (htour ▸ List.mem_map_of_mem he)

-- Skips every fourth node that it enters.
def fourthSkipper : Visitor Nat
  | .enter, _ => .getState fun count =>
    .setState (count + 1) (if count % 4 = 3 then .skip .done else .done)
  | .exit, _  => .done

theorem fourthSkipper_onlyLooks : fourthSkipper.OnlyLooks := by
  intro moment l
  cases moment
  case enter =>
    intro count
    show Act.OnlyLooks (if _ then _ else _)
    split <;> trivial
  case exit => trivial

-- The first element is skipped, and behind it is a hole.
theorem walk_tours_fourthSkipper :
    let elements := [some .nullLiteral, none, some .nullLiteral]
    let tree := Node.program [.ofForm (.expressionStatement (.ofForm (.arrayExpression elements))), .empty]
    fourthSkipper.OnlyLooks ∧ tree.height ≤ 4 ∧
      ∃ r, walk 4 fourthSkipper.recorded (0, []) tree = r ∧ r.stop = none ∧ r.tree = tree ∧
        (∃ skips, Honors skips r.own.2 ∧ r.own.2.map Event.question = tree.tour skips .root) ∧
        r.own.2.map (fun e => (e.moment, e.location.render)) =
          [(.enter, "<root>"), (.enter, "body[0]"), (.enter, "body[0].expression"),
            (.enter, "body[0].expression.elements[0]"), (.enter, "body[0].expression.elements[2]"),
            (.exit, "body[0].expression.elements[2]"), (.exit, "body[0].expression"),
            (.exit, "body[0]"), (.enter, "body[1]"), (.exit, "body[1]"), (.exit, "<root>")] := by
  intro elements tree
  have hd : tree.height ≤ 4 := by decide +kernel
  have ⟨_, hstop, htree, skips, hskips, htour, _⟩ := walk_tours fourthSkipper_onlyLooks hd 0
  exact ⟨fourthSkipper_onlyLooks, hd, _, rfl, hstop, htree, ⟨skips, hskips, htour⟩, by decide +kernel⟩

end ScriptTree
