import ScriptTree.Walk.Visitor

/-!
Walks over a tree that is changed while it is walked.

A walk goes depth first, through the fields of each node in the order of `NodeType.fields`. It keeps no
part of the tree but only locations, and looks up the node each time it is asked for. A node that is
replaced is replaced at once; one that is removed is taken out when its visit is over, and what follows
it in a list moves up and is still visited.
-/

namespace ScriptTree

/-- What a visitor may not do. The last three arise only from walks inside of walks: the place of a visit
that is not over can vanish. -/
inductive WalkFault where
  | removedAfterReplacing
  | replacedAfterRemoving
  | removedRoot
  | removedRequired (field : String) (parent : NodeType)
  | lostNode
  | lostParent
  | lostPlace
deriving DecidableEq

namespace WalkFault

def message : WalkFault → String
  | removedAfterReplacing => "cannot remove a node that was replaced during the same visit"
  | replacedAfterRemoving => "cannot replace a node that was removed during the same visit"
  | removedRoot => "cannot remove the root node"
  | removedRequired field parent =>
    "cannot remove `" ++ field ++ "` of " ++ parent.name ++ ": the field is required"
  | lostNode => "INVARIANT: a live path always resolves to a node"
  | lostParent => "INVARIANT: the parent of a live path resolves"
  | lostPlace =>
    "internal error: entered unreachable code: INVARIANT: remove() only marks removable slots"

end WalkFault

/-- Why a walk ends early. `exhausted` says nothing about the visitor: the depth that was allowed was too
small. -/
inductive WalkStop where
  | fault (fault : WalkFault)
  | exhausted

structure WalkState (σ : Type) where
  tree : Node
  /-- The state of the visitor. -/
  own : σ
  scopes : Scopes := []
  /-- The visits that are not over, the running one first. -/
  visits : List Visit := []

/-- A step of a walk. What was done before it stopped is kept. -/
abbrev WalkM (σ : Type) := ExceptT WalkStop (StateM (WalkState σ))

namespace WalkM

variable {σ : Type}

def fail {α : Type} (fault : WalkFault) : WalkM σ α :=
  throw (.fault fault)

/-- The node at a place that must be there. -/
def nodeAt (l : Location) : WalkM σ Node := do
  match (← get).tree.at? l with
  | some n => return n
  | none => fail .lostNode

/-- The visit that is running. -/
def visit : WalkM σ Visit :=
  return ((← get).visits.head?).getD { location := .root }

def modifyVisit (change : Visit → Visit) : WalkM σ Unit :=
  modify fun s => { s with visits := s.visits.modifyHead change }

/-- The node of a visit so many levels above the running one. -/
def node (up : Nat) : WalkM σ (Option Node) := do
  match (← get).visits[up]? with
  | some v => some <$> nodeAt v.location
  | none => return none

/-! ## What is asked for on a visit -/

def remove : WalkM σ Unit := do
  let v ← visit
  if v.isReplaced then fail .removedAfterReplacing
  else
    match v.location.getLast?, ← node 1 with
    | some step, some parent =>
      if (parent.slot? step.field).any (·.isRequired) then
        fail (.removedRequired step.field parent.type)
      else modifyVisit ({ · with isRemoved := true })
    | _, _ => fail .removedRoot

def replace (n : Node) : WalkM σ Unit := do
  let v ← visit
  if v.isRemoved then fail .replacedAfterRemoving
  else
    modifyVisit ({ · with isReplaced := true })
    match (← get).tree.setAt? v.location n with
    | some tree => modify ({ · with tree })
    | none => fail .lostNode

/-- The scope that the first of some visits is in, and the visits with the scopes that were asked for
filled in. A visit keeps the scope it was given first. -/
def scopeOf : List Visit → WalkM σ (Option ScopeId × List Visit)
  | [] => return (none, [])
  | v :: outer => do
    match v.scope with
    | some known => return (known, v :: outer)
    | none =>
      let n ← nodeAt v.location
      let (around, outer) ← scopeOf outer
      if !n.isBlock then return (around, { v with scope := some around } :: outer)
      else
        let owner ← match outer with
          | [] => pure none
          | o :: _ => do pure (some ⟨← nodeAt o.location, o.location⟩)
        let scopes := (← get).scopes
        let enclosing := match around with
          | some id => id :: (scopes[id]?.map (·.outer)).getD []
          | none => []
        modify ({ · with scopes := scopes.build n v.location owner enclosing })
        return (some scopes.length, { v with scope := some (some scopes.length) } :: outer)

def scope : WalkM σ (Option ScopeId) := do
  let (found, visits) ← scopeOf (← get).visits
  modify ({ · with visits })
  return found

/-- Takes the node of the running visit out of its parent if that was asked for. Says whether it
was. -/
def commit : WalkM σ Bool := do
  let v ← visit
  match v.isRemoved, v.location.getLast? with
  | true, some step =>
    let tree := (← get).tree
    if (tree.at? v.location.dropLast).isNone then fail .lostParent
    else
      match tree.modifyAt? (·.removeChild? step) v.location.dropLast with
      | some tree =>
        modify ({ · with tree })
        return true
      | none => fail .lostPlace
  | _, _ => return false

/-! ## The walk -/

/-- Runs an act. `traverse` and `subtree` walk inside of the running visit. -/
def perform (traverse : Step → WalkM σ Unit) (subtree : Visitor σ → WalkM σ Unit) :
    Act σ → WalkM σ Unit
  | .done => return ()
  | .getState next => do perform traverse subtree (next (← get).own)
  | .setState state next => do
    modify ({ · with own := state })
    perform traverse subtree next
  | .visit next => do perform traverse subtree (next (← visit))
  | .node up next => do perform traverse subtree (next (← node up))
  | .root next => do perform traverse subtree (next (← get).tree)
  | .skip next => do
    modifyVisit ({ · with isSkipped := true })
    perform traverse subtree next
  | .remove next => do
    remove
    perform traverse subtree next
  | .replace n next => do
    replace n
    perform traverse subtree next
  | .traverse step next => do
    traverse step
    perform traverse subtree next
  | .subtree visitor next => do
    subtree visitor
    perform traverse subtree next
  | .scope next => do perform traverse subtree (next (← scope))
  | .scopes next => do perform traverse subtree (next (← get).scopes)

/-- A part of a walk: visits the node at a place with a visitor, and says whether the node was taken out
of its parent. -/
abbrev Descent (σ : Type) := Visitor σ → Location → WalkM σ Bool

/-- Visits a child if there is one. -/
def visitChild (descend : Descent σ) (visitor : Visitor σ) (l : Location) (step : Step) :
    WalkM σ Bool := do
  if ((← nodeAt l).child? step).isSome then descend visitor (l.child step) else return false

/-- Visits so many places of a list, from `index` on. Where a child is taken out, the next one has its
place. -/
def visitList (descend : Descent σ) (visitor : Visitor σ) (l : Location) (field : String) :
    (remaining index : Nat) → WalkM σ Unit
  | 0, _ => return ()
  | remaining + 1, index => do
    let isRemoved ← visitChild descend visitor l ⟨field, some index⟩
    visitList descend visitor l field remaining (if isRemoved then index else index + 1)

/-- Visits the children in a field. -/
def visitField (descend : Descent σ) (visitor : Visitor σ) (l : Location) (field : String) :
    WalkM σ Unit := do
  match ((← nodeAt l).slot? field).bind (·.length?) with
  | some length => visitList descend visitor l field length 0
  | none => discard (visitChild descend visitor l ⟨field, none⟩)

/-- Visits all children, by the fields that the node has at the start. -/
def visitChildren (descend : Descent σ) (visitor : Visitor σ) (l : Location) : WalkM σ Unit := do
  (← nodeAt l).type.fields.forM (visitField descend visitor l)

/-- Visits a field or a place of it, if the node has such a field. -/
def visitStep (descend : Descent σ) (visitor : Visitor σ) (step : Step) : WalkM σ Unit := do
  let l := (← visit).location
  if (← nodeAt l).type.fields.contains step.field then
    if step.index.isSome then discard (visitChild descend visitor l step)
    else visitField descend visitor l step.field

/-- Visits the node of the running visit anew, as a visit of its own with the same visits around it. -/
def visitAgain (descend : Descent σ) (visitor : Visitor σ) : WalkM σ Unit := do
  let v ← visit
  modify fun s => { s with visits := s.visits.tail }
  discard (descend visitor v.location)
  modify fun s => { s with visits := v :: s.visits }

/-- Asks a visitor and does what it answers. -/
def ask (descend : Descent σ) (visitor : Visitor σ) (moment : Moment) : WalkM σ Unit := do
  perform (visitStep descend visitor) (visitAgain descend) (visitor moment (← visit).location)

/-- One visit, as long as walks below it are left to `descend`. -/
def visitNode (descend : Descent σ) (visitor : Visitor σ) (l : Location) : WalkM σ Bool := do
  modify fun s => { s with visits := { location := l } :: s.visits }
  ask descend visitor .enter
  let v ← visit
  if !v.isSkipped then
    if !v.isRemoved then visitChildren descend visitor l
    ask descend visitor .exit
  let isRemoved ← commit
  modify fun s => { s with visits := s.visits.tail }
  return isRemoved

/-- A visit with at most `depth` visits inside each other. -/
def visitWithin : (depth : Nat) → Descent σ
  | 0, _, _ => throw .exhausted
  | depth + 1, visitor, l => visitNode (visitWithin depth) visitor l

end WalkM

/-- What a walk leaves: the tree, the state of the visitor and the scopes; and why it stopped, if it did
not come to its end. -/
structure WalkResult (σ : Type) where
  stop : Option WalkStop
  tree : Node
  own : σ
  scopes : Scopes

/-- Walks a whole tree, with at most `depth` visits inside each other. -/
def walk {σ : Type} (depth : Nat) (visitor : Visitor σ) (own : σ) (tree : Node) : WalkResult σ :=
  let start : WalkState σ := { tree, own }
  match (WalkM.visitWithin depth visitor .root).run.run start with
  | (.ok _, s) => ⟨none, s.tree, s.own, s.scopes⟩
  | (.error stop, s) => ⟨some stop, s.tree, s.own, s.scopes⟩

end ScriptTree
