import ScriptTree.Walk

/-!
A visitor that behaves like another one and keeps a record of what happens on its visits.
-/

namespace ScriptTree

-- What a visitor may do to the node it is handed.
inductive Directive where
  | skip
  | remove
  | replace (node : Node)

-- One question of a walk: when and where it was asked, the node that was there at that moment, and
-- what was done about it, in order. A directive that the walk refuses is not part of it.
structure Event where
  moment     : Moment
  location   : Location
  found      : Option Node
  directives : List Directive := []

namespace Event

def note (e : Event) (d : Directive) : Event :=
  { e with directives := e.directives ++ [d] }

-- Adds a directive to the last event.
def noteLast (d : Directive) (events : List Event) : List Event :=
  events.dropLast ++ (events.getLast?.map (·.note d)).toList

end Event

variable {σ : Type}

def Act.note (d : Directive) (next : Act (σ × List Event)) : Act (σ × List Event) :=
  .getState fun s => .setState (s.1, Event.noteLast d s.2) next

-- An answer that begins by looking up the node that is there.
def Act.opened (moment : Moment) (l : Location) (next : Act (σ × List Event)) :
    Act (σ × List Event) :=
  .root fun tree => .getState fun s => .setState (s.1, s.2 ++ [⟨moment, l, tree.at? l, []⟩]) next

-- The same act, where each directive is noted when the walk has taken it.
def Act.recorded : Act σ → Act (σ × List Event)
  | .done => .done
  | .getState next => .getState fun s => (next s.1).recorded
  | .setState s next => .getState fun t => .setState (s, t.2) next.recorded
  | .visit next => .visit fun v => (next v).recorded
  | .node up next => .node up fun n => (next n).recorded
  | .root next => .root fun n => (next n).recorded
  | .skip next => .skip (.note .skip next.recorded)
  | .remove next => .remove (.note .remove next.recorded)
  | .replace n next => .replace n (.note (.replace n) next.recorded)
  | .traverse step next => .traverse step next.recorded
  | .subtree visitor next =>
    .subtree (fun moment l => .opened moment l (visitor moment l).recorded) next.recorded
  | .scope next => .scope fun id => (next id).recorded
  | .scopes next => .scopes fun ss => (next ss).recorded

-- The same visitor, which records every question and what it does about it.
def Visitor.recorded (visitor : Visitor σ) : Visitor (σ × List Event) :=
  fun moment l => .opened moment l (visitor moment l).recorded

namespace WalkM

variable {α β : Type}

theorem run_bind (x : WalkM σ α) (f : α → WalkM σ β) (s : WalkState σ) :
    (x >>= f).run.run s =
      match x.run.run s with
      | (.ok a, s') => (f a).run.run s'
      | (.error stop, s') => (.error stop, s') := by
  unfold ExceptT.run StateT.run
  simp only [bind, ExceptT.bind, ExceptT.mk, StateT.bind, ExceptT.bindCont]
  rcases x s with ⟨_ | a, s'⟩ <;> rfl

@[simp]
theorem run_pure (a : α) (s : WalkState σ) : (pure a : WalkM σ α).run.run s = (.ok a, s) :=
  rfl

@[simp]
theorem run_get (s : WalkState σ) : (get : WalkM σ (WalkState σ)).run.run s = (.ok s, s) :=
  rfl

@[simp]
theorem run_modify (f : WalkState σ → WalkState σ) (s : WalkState σ) :
    (modify f : WalkM σ Unit).run.run s = (.ok (), f s) :=
  rfl

@[simp]
theorem run_throw (stop : WalkStop) (s : WalkState σ) :
    (throw stop : WalkM σ α).run.run s = (.error stop, s) :=
  rfl

@[simp]
theorem run_fail (fault : WalkFault) (s : WalkState σ) :
    (fail fault : WalkM σ α).run.run s = (.error (.fault fault), s) :=
  rfl

end WalkM

-- The state of a walk without what was recorded.
def WalkState.plain (s : WalkState (σ × List Event)) : WalkState σ :=
  { tree := s.tree, own := s.own.1, scopes := s.scopes, visits := s.visits }

namespace WalkM

variable {α β : Type}

-- Recording makes no difference to what a part of a walk does.
def Mirrors (x : WalkM (σ × List Event) α) (y : WalkM σ α) : Prop :=
  ∀ s, y.run.run s.plain = ((x.run.run s).1, (x.run.run s).2.plain)

namespace Mirrors

theorem pure (a : α) : Mirrors (σ := σ) (pure a) (pure a) :=
  fun _ => rfl

theorem fail (fault : WalkFault) : Mirrors (σ := σ) (α := α) (fail fault) (fail fault) :=
  fun _ => rfl

theorem bind {x : WalkM (σ × List Event) α} {y : WalkM σ α} {f : α → WalkM (σ × List Event) β}
    {g : α → WalkM σ β} (h : Mirrors x y) (hf : ∀ a, Mirrors (f a) (g a)) :
    Mirrors (x >>= f) (y >>= g) := by
  intro s
  rw [run_bind, run_bind, h s]
  rcases x.run.run s with ⟨_ | a, s'⟩
  case error => rfl
  case ok => exact hf a s'

theorem get {f : WalkState (σ × List Event) → WalkM (σ × List Event) α}
    {g : WalkState σ → WalkM σ α} (h : ∀ s, Mirrors (f s) (g s.plain)) :
    Mirrors (get >>= f) (get >>= g) :=
  fun s => h s s

theorem modified {f : WalkState (σ × List Event) → WalkState (σ × List Event)}
    {g : WalkState σ → WalkState σ} (h : ∀ s, (f s).plain = g s.plain) :
    Mirrors (modify f) (modify g) :=
  fun s => by simp [h s]

theorem nodeAt (l : Location) : Mirrors (σ := σ) (nodeAt l) (nodeAt l) := by
  refine get fun s => ?_
  simp only [WalkState.plain]
  split
  · exact pure _
  · exact fail _

theorem visit : Mirrors (σ := σ) visit visit :=
  get fun _ => pure _

theorem modifyVisit (change : Visit → Visit) :
    Mirrors (σ := σ) (modifyVisit change) (modifyVisit change) :=
  modified fun _ => rfl

theorem node (up : Nat) : Mirrors (σ := σ) (node up) (node up) := by
  refine get fun s => ?_
  simp only [WalkState.plain]
  split
  · exact (nodeAt _).bind fun _ => pure _
  · exact pure _

theorem remove : Mirrors (σ := σ) remove remove := by
  refine visit.bind fun v => ?_
  split
  · exact fail _
  · refine (node 1).bind fun parent => ?_
    split
    · split
      · exact fail _
      · exact modifyVisit _
    · exact fail _

theorem replace (n : Node) : Mirrors (σ := σ) (replace n) (replace n) := by
  refine visit.bind fun v => ?_
  split
  · exact fail _
  · refine (modifyVisit _).bind fun _ => get fun s => ?_
    simp only [WalkState.plain]
    split
    · exact modified fun _ => rfl
    · exact fail _

theorem scopeOf (visits : List Visit) : Mirrors (σ := σ) (scopeOf visits) (scopeOf visits) := by
  induction visits
  case nil => exact pure _
  case cons v outer ih =>
    unfold WalkM.scopeOf
    split
    · exact pure _
    · refine (nodeAt _).bind fun n => ih.bind fun (around, outer) => ?_
      dsimp only
      split
      · exact pure _
      · split
        · refine (pure _).bind fun owner => get fun s => ?_
          refine bind (modified fun _ => ?_) fun _ => pure _
          rfl
        · refine (nodeAt _).bind fun _ => (pure _).bind fun owner => get fun s => ?_
          refine bind (modified fun _ => ?_) fun _ => pure _
          rfl

theorem scope : Mirrors (σ := σ) scope scope :=
  get fun s => (scopeOf s.visits).bind fun _ => (modified fun _ => rfl).bind fun _ => pure _

theorem commit : Mirrors (σ := σ) commit commit := by
  refine visit.bind fun v => ?_
  split
  · refine get fun s => ?_
    simp only [WalkState.plain]
    by_cases hp : (s.tree.at? v.location.dropLast).isNone <;>
      simp only [hp, ↓reduceIte, Bool.false_eq_true]
    · exact fail _
    · split
      · refine bind (modified fun _ => ?_) fun _ => pure _
        rfl
      · exact fail _
  · exact pure _

variable {traverse : Step → WalkM σ Unit} {traverse' : Step → WalkM (σ × List Event) Unit}
variable {subtree : Visitor σ → WalkM σ Unit}
variable {subtree' : Visitor (σ × List Event) → WalkM (σ × List Event) Unit}

theorem perform_note (d : Directive) {next : Act (σ × List Event)} {y : WalkM σ Unit}
    (h : Mirrors (perform traverse' subtree' next) y) :
    Mirrors (perform traverse' subtree' (.note d next)) y :=
  fun s => h { s with own := (s.own.1, Event.noteLast d s.own.2) }

theorem perform (ht : ∀ step, Mirrors (traverse' step) (traverse step))
    (hs : ∀ visitor, Mirrors (subtree' visitor.recorded) (subtree visitor)) (act : Act σ) :
    Mirrors (perform traverse' subtree' act.recorded) (perform traverse subtree act) := by
  induction act
  case done => exact pure _
  case getState next ih => exact get fun s => ih s.own.1
  case setState state next ih => exact fun s => ih { s with own := (state, s.own.2) }
  case visit next ih => exact visit.bind ih
  case node up next ih => exact (node up).bind ih
  case root next ih => exact get fun s => ih s.tree
  case skip next ih => exact (modifyVisit _).bind fun _ => perform_note .skip ih
  case remove next ih => exact remove.bind fun _ => perform_note .remove ih
  case replace n next ih => exact (replace n).bind fun _ => perform_note (.replace n) ih
  case traverse step next ih => exact (ht step).bind fun _ => ih
  case subtree visitor next ihv ih => exact (hs visitor).bind fun _ => ih
  case scope next ih => exact scope.bind ih
  case scopes next ih => exact get fun s => ih s.scopes

theorem modifyVisits (change : List Visit → List Visit) :
    Mirrors (σ := σ) (modify fun s => { s with visits := change s.visits })
      (modify fun s => { s with visits := change s.visits }) :=
  modified fun _ => rfl

section

variable {descend' : Descent (σ × List Event)} {descend : Descent σ} {visitor : Visitor σ}
variable (h : ∀ visitor l, Mirrors (descend' visitor.recorded l) (descend visitor l))
include h

theorem visitChild (l : Location) (step : Step) :
    Mirrors (visitChild descend' visitor.recorded l step) (visitChild descend visitor l step) := by
  refine (nodeAt l).bind fun n => ?_
  split
  · exact h _ _
  · exact pure _

theorem visitList (l : Location) (field : String) (remaining index : Nat) :
    Mirrors (visitList descend' visitor.recorded l field remaining index)
      (visitList descend visitor l field remaining index) := by
  induction remaining generalizing index
  case zero => exact pure _
  case succ remaining ih => exact (visitChild h l _).bind fun _ => ih _

theorem visitField (l : Location) (field : String) :
    Mirrors (visitField descend' visitor.recorded l field) (visitField descend visitor l field) := by
  refine (nodeAt l).bind fun n => ?_
  split
  · exact visitList h l field _ _
  · exact (visitChild h l _).bind fun _ => pure _

theorem visitChildren (l : Location) :
    Mirrors (visitChildren descend' visitor.recorded l) (visitChildren descend visitor l) := by
  refine (nodeAt l).bind fun n => ?_
  generalize n.type.fields = fields
  induction fields
  case nil => exact pure _
  case cons field fields ih => exact (visitField h l field).bind fun _ => ih

theorem visitStep (step : Step) :
    Mirrors (visitStep descend' visitor.recorded step) (visitStep descend visitor step) := by
  refine visit.bind fun v => (nodeAt _).bind fun n => ?_
  split
  · split
    · exact (visitChild h _ _).bind fun _ => pure _
    · exact visitField h _ _
  · exact pure _

theorem visitAgain (visitor : Visitor σ) :
    Mirrors (visitAgain descend' visitor.recorded) (visitAgain descend visitor) :=
  visit.bind fun v => (modifyVisits _).bind fun _ =>
    ((h _ _).bind fun _ => pure _).bind fun _ => modifyVisits (v :: ·)

theorem ask (moment : Moment) :
    Mirrors (ask descend' visitor.recorded moment) (ask descend visitor moment) :=
  visit.bind fun v s =>
    perform (visitStep h) (visitAgain h) (visitor moment v.location)
      { s with own := (s.own.1, s.own.2 ++ [⟨moment, v.location, s.tree.at? v.location, []⟩]) }

theorem visitNode (l : Location) :
    Mirrors (visitNode descend' visitor.recorded l) (visitNode descend visitor l) := by
  have last : Mirrors (σ := σ) (do
      let isRemoved ← WalkM.commit
      modify fun s => { s with visits := s.visits.tail }
      return isRemoved) (do
      let isRemoved ← WalkM.commit
      modify fun s => { s with visits := s.visits.tail }
      return isRemoved) :=
    commit.bind fun _ => (modifyVisits _).bind fun _ => pure _
  refine (modifyVisits _).bind fun _ => (ask h .enter).bind fun _ => visit.bind fun v => ?_
  by_cases hs : v.isSkipped <;> simp only [hs, Bool.not_true, Bool.not_false, ↓reduceIte,
    Bool.false_eq_true]
  · exact last
  · by_cases hr : v.isRemoved <;> simp only [hr, Bool.not_true, Bool.not_false, ↓reduceIte,
      Bool.false_eq_true]
    · exact (ask h .exit).bind fun _ => last
    · exact (visitChildren h l).bind fun _ => (ask h .exit).bind fun _ => last

omit h

theorem visitWithin (depth : Nat) (visitor : Visitor σ) (l : Location) :
    Mirrors (visitWithin depth visitor.recorded l) (visitWithin depth visitor l) := by
  induction depth generalizing visitor l
  case zero => exact fun _ => rfl
  case succ depth ih => exact visitNode ih l

end

end Mirrors
end WalkM

-- Recording a visitor changes nothing about its walk.
theorem walk_recorded (visitor : Visitor σ) (depth : Nat) (own : σ) (tree : Node) :
    let r := walk depth visitor.recorded (own, []) tree
    walk depth visitor own tree = { r with own := r.own.1 } := by
  have h := WalkM.Mirrors.visitWithin depth visitor .root ⟨tree, (own, []), [], []⟩
  simp only [walk, WalkState.plain] at h ⊢
  rw [h]
  rcases (WalkM.visitWithin depth visitor.recorded .root).run.run _ with ⟨_ | _, s⟩ <;> rfl

end ScriptTree
