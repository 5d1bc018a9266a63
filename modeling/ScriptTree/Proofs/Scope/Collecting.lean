import ScriptTree.Proofs.Scope.Declares
import ScriptTree.Proofs.Walk.Steps

/-!
The walk by which a scope is built. What a scope holds of its block is gathered by a visitor on a walk of
its own, inside of the walk that is under way. That walk finds the `Node.occurrences` of the block in
their order, always comes to its end, and leaves the tree and all visits that are not over as they were.
-/

namespace ScriptTree

open WalkM

-- What was gathered so far, and how many blocks are around.
structure Collection where
  scope : Scope
  depth : Nat := 0
  references : List (String × Location) := []

namespace Collection

def enter (bindsVars : Bool) (c : Collection) (o : Occurrence) : Collection where
  scope := (o.binding? bindsVars).elim c.scope c.scope.declare
  depth := if o.node.isBlock then c.depth + 1 else c.depth
  references := c.references ++ (o.reference?.map (·, o.location)).toList

def exit (c : Collection) (n : Node) : Collection :=
  if n.isBlock then { c with depth := c.depth - 1 } else c

-- What comes of it once all of some nodes were met.
def collect (bindsVars : Bool) (c : Collection) (os : List Occurrence) : Collection :=
  { c with
    scope := (os.filterMap (·.binding? bindsVars)).foldl Scope.declare c.scope
    references := c.references ++ os.filterMap fun o => o.reference?.map (·, o.location) }

variable {bindsVars : Bool} {c : Collection} {os : List Occurrence}

theorem collect_append (os' : List Occurrence) :
    c.collect bindsVars (os ++ os') = (c.collect bindsVars os).collect bindsVars os' := by
  simp [collect]

theorem collect_flatMap {α : Type} (f : Nat → α → List Occurrence) (xs : List α) :
    c.collect bindsVars (xs.flatMap (f c.depth)) =
      xs.foldl (fun c x => c.collect bindsVars (f c.depth x)) c := by
  induction xs generalizing c
  case nil => simp [collect]
  case cons x xs ih =>
    rw [List.flatMap_cons, collect_append, List.foldl_cons]
    exact ih (c := c.collect bindsVars (f c.depth x))

theorem enter_of_not_isBlock {o : Occurrence} (h : ¬o.node.isBlock) :
    c.enter bindsVars o = c.collect bindsVars [o] := by
  cases hb : o.binding? bindsVars <;> cases hr : o.reference? <;> simp [enter, collect, h, hb, hr]

-- When a node is left, as many blocks are around as when it was entered.
theorem exit_collect_enter (o : Occurrence) :
    ((c.enter bindsVars o).collect bindsVars os).exit o.node = c.collect bindsVars (o :: os) := by
  cases hb : o.binding? bindsVars <;> cases hr : o.reference? <;>
    by_cases h : o.node.isBlock <;> simp [enter, exit, collect, h, hb, hr]

end Collection

-- The visitor. A function is met and not entered.
def collector (bindsVars : Bool) : Visitor Collection
  | .enter, l => .node 0 fun n => .node 1 fun parent => .getState fun c =>
    match n with
    | some n =>
      .setState (c.enter bindsVars ⟨n, l, parent, c.depth⟩) (if n.isFunction then .skip .done else .done)
    | none => .done
  | .exit, _ => .node 0 fun n => .getState fun c => .setState (n.elim c c.exit) .done

namespace WalkM

variable {σ : Type}

section Children

variable {descend : Descent σ} {visitor : Visitor σ} {l : Location} {s : WalkState σ} {n : Node}
variable {f : Step → Node → σ → σ}
variable (hn : s.tree.at? l = some n)
variable (hd : ∀ step c own, n.child? step = some c →
  (descend visitor (l.child step)).run.run { s with own } = (.ok false, { s with own := f step c own }))
include hn hd

-- If the visits below change nothing but the state of the visitor, so does the walk of the children,
-- from each child to the next.
theorem run_visitChildren (own : σ) :
    (visitChildren descend visitor l).run.run { s with own } =
      (.ok (), { s with own := n.form.children.foldl (fun own p => f p.1 p.2 own) own }) := by
  have heach (ps : List (Step × Node)) (hps : ∀ p ∈ ps, n.child? p.1 = some p.2) (own : σ) :
      (visitEach descend visitor l ps).run.run { s with own } =
        (.ok (), { s with own := ps.foldl (fun own p => f p.1 p.2 own) own }) := by
    induction ps generalizing own
    case nil => rfl
    case cons p ps ih =>
      obtain ⟨hp, hps⟩ := List.forall_mem_cons.mp hps
      rw [run_visitEach_cons p.2 ps (hd _ _ own hp), ih hps]
      rfl
  let steady (t : WalkState σ) : Prop := ∃ own, t = { s with own }
  have hnode (t : WalkState σ) (ht : steady t) : t.tree.at? l = some n := by
    obtain ⟨own, rfl⟩ := ht
    exact hn
  have hsteady step c (t : WalkState σ) (hc : n.child? step = some c) (ht : steady t) :
      ∃ t', (descend visitor (l.child step)).run.run t = (.ok false, t') ∧ steady t' := by
    obtain ⟨own, rfl⟩ := ht
    exact ⟨_, hd step c own hc, _, rfl⟩
  rw [run_visitChildren_steady hnode hsteady ⟨own, rfl⟩]
  exact heach _ (fun p hp => Node.mem_children.mp hp) own

end Children

variable {bindsVars : Bool} {descend : Descent Collection} {s : WalkState Collection}
variable {v : Visit} {above : List Visit} {n : Node}

section Asked

variable (hv : s.visits = v :: above) (hn : s.tree.at? v.location = some n) (ha : Above v.location above)
include hv hn ha

theorem run_node_of_above (up : Nat) :
    (node up).run.run s = (.ok ((v :: above)[up]?.bind fun v => s.tree.at? v.location), s) := by
  rw [run_node (hv ▸ ha.resolves_cons (by simp [hn])), hv]

theorem run_ask_enter :
    (ask descend (collector bindsVars) .enter).run.run s = (.ok (), { s with
      own := s.own.enter bindsVars
        ⟨n, v.location, above.head?.bind fun v => s.tree.at? v.location, s.own.depth⟩
      visits := { v with isSkipped := v.isSkipped || n.isFunction } :: above }) := by
  simp only [ask, run_bind, run_visit, hv, Option.getD_some, collector, perform,
    run_node_of_above hv hn ha, List.getElem?_cons_zero, List.getElem?_cons_succ, Option.bind_some, hn,
    run_get, run_modify, List.head?_eq_getElem?]
  cases n.isFunction
  case false =>
    rw [Bool.or_false]
    rfl
  case true =>
    rw [Bool.or_true]
    rfl

theorem run_ask_exit :
    (ask descend (collector bindsVars) .exit).run.run s =
      (.ok (), { s with own := s.own.exit n }) := by
  simp only [ask, run_bind, run_visit, hv, List.head?_cons, Option.getD_some, collector, perform,
    run_node_of_above hv hn ha, List.getElem?_cons_zero, Option.bind_some, hn, run_get, run_modify]
  rfl

end Asked

theorem run_visitChildren_collects {l : Location} (hn : s.tree.at? l = some n)
    (hd : ∀ step c own, n.child? step = some c →
      (descend (collector bindsVars) (l.child step)).run.run { s with own } =
        (.ok false, { s with
          own := own.collect bindsVars (c.occurrences own.depth (some n) (l.child step)) }))
    (own : Collection) :
    (visitChildren descend (collector bindsVars) l).run.run { s with own } = (.ok (), { s with
      own := own.collect bindsVars (n.form.children.flatMap fun p =>
        p.2.occurrences own.depth (some n) (l.child p.1)) }) := by
  have h : own.collect bindsVars (n.form.children.flatMap _) = _ :=
    Collection.collect_flatMap (fun depth p => p.2.occurrences depth (some n) (l.child p.1)) _
  rw [run_visitChildren hn hd, h]

-- The walk of the visitor goes through the whole block, whatever visits are around, and does nothing but
-- gather.
theorem visitWithin_collects {l : Location} (depth : Nat) (hn : s.tree.at? l = some n)
    (ha : Above l s.visits) (hd : n.height ≤ depth) :
    (visitWithin depth (collector bindsVars) l).run.run s = (.ok false, { s with
      own := s.own.collect bindsVars
        (n.occurrences s.own.depth (s.visits.head?.bind fun v => s.tree.at? v.location) l) }) := by
  induction depth generalizing s l n
  case zero => exact absurd n.height_pos (Nat.not_lt.mpr hd)
  case succ depth ih =>
    let o : Occurrence := ⟨n, l, s.visits.head?.bind fun v => s.tree.at? v.location, s.own.depth⟩
    let s₁ : WalkState Collection := { s with visits := { location := l } :: s.visits }
    have hchild step c own (hc : n.child? step = some c) :
        (visitWithin depth (collector bindsVars) (l.child step)).run.run { s₁ with own } =
          (.ok false, { s₁ with
            own := own.collect bindsVars (c.occurrences own.depth (some n) (l.child step)) }) := by
      have hl : s.tree.at? (l.child step) = some c := by rw [Node.at?_child, hn, Option.bind_some, hc]
      have h := ih (s := { s₁ with own }) hl (.child rfl ha)
        (Nat.le_of_lt_succ (Nat.lt_of_lt_of_le (Node.height_lt_of_child? hc) hd))
      simpa only [s₁, List.head?_cons, Option.bind_some, hn] using h
    simp only [visitWithin, visitNode, run_bind, run_modify]
    rw [run_ask_enter (s := s₁) rfl hn ha, Node.occurrences_eq]
    simp only [run_visit, List.head?_cons, Option.getD_some, Bool.false_or]
    cases hf : n.isFunction
    case false =>
      simp only [Bool.not_false, ↓reduceIte, run_bind]
      rw [run_visitChildren_collects (s := s₁) hn hchild]
      simp only
      rw [run_ask_exit rfl hn ha]
      simp only
      rw [run_commit_of_kept rfl rfl]
      simp only [run_modify, run_pure, Bool.false_eq_true, ↓reduceIte]
      rw [← Collection.exit_collect_enter o]
      rfl
    case true =>
      have hb : ¬o.node.isBlock := by
        rcases n with ⟨span, form⟩
        cases form <;> simp_all [o, Node.isFunction, Node.isBlock, Node.form]
      simp only [Bool.not_true, Bool.false_eq_true, ↓reduceIte, run_bind]
      rw [run_commit_of_kept rfl rfl]
      simp only [run_modify, run_pure, List.tail_cons, s₁]
      rw [← Collection.enter_of_not_isBlock hb]

end WalkM

-- What the walk that builds the scope of a block starts with.
def Collection.start (owner : Option Owner) (block : Location) (outer : List ScopeId) : Collection where
  scope := ((owner.map (·.parameters)).getD []).foldl Scope.declare { block, outer }

-- A scope is what its walk gathers: the walk comes to its end wherever it is started, leaves the tree,
-- the scopes and the visits around as they were, and the scope that is built is the one it ends with,
-- with the uses it met recorded in their order.
theorem Scopes.build_eq_collected {σ : Type} {s : WalkState σ} {l : Location} {n : Node}
    (hn : s.tree.at? l = some n) (ha : Above l s.visits) (outer : List ScopeId) {depth : Nat}
    (hd : n.height ≤ depth) :
    let owner := s.visits.head?.bind fun v => (s.tree.at? v.location).map (⟨·, v.location⟩)
    ∃ c : Collection,
      (visitWithin depth (collector (owner.all (·.node.isFunction))) l).run.run
        { s with own := .start owner l outer } = (.ok false, { s with own := c }) ∧
      s.scopes.build n l owner outer =
        c.references.foldl (fun ss r => ss.refer s.scopes.length r.1 r.2) (s.scopes ++ [c.scope]) := by
  intro owner
  have hp : (s.visits.head?.bind fun v => s.tree.at? v.location) = owner.map (·.node) := by
    simp [owner, Option.map_bind, Function.comp_def]
  refine ⟨_, visitWithin_collects (s := { s with own := .start owner l outer }) depth hn ha hd, ?_⟩
  have hrecord (os : List Occurrence) (ss : Scopes) : os.foldl (record s.scopes.length) ss =
      (os.filterMap fun o => o.reference?.map (·, o.location)).foldl
        (fun ss r => ss.refer s.scopes.length r.1 r.2) ss := by
    rw [List.foldl_filterMap]
    congr 1
    funext ss o
    cases h : o.reference? <;> simp [record, h]
  simp only [hp, build, hrecord, Node.declarations, List.foldl_append]
  rfl

end ScriptTree
