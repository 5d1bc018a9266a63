import ScriptTree.Walk.Scope

/-!
What a visitor may do while a walk is at a node.

A visitor is asked at every node twice, before and after its children. It answers with an `Act`: a
program over the few things that can be asked of a visit and done to it. The walk runs the program.
A visitor has a state of its own, which goes from act to act.
-/

namespace ScriptTree

/-- When a visitor is asked. -/
inductive Moment where
  | enter
  | exit
deriving DecidableEq

/-- A visit that is not over: its place, and what was asked for on it. -/
structure Visit where
  location : Location
  isSkipped : Bool := false
  isRemoved : Bool := false
  isReplaced : Bool := false
  /-- The scope of the node, once it was asked for. -/
  scope : Option (Option ScopeId) := none

/-- A visitor's answer, `σ` being the type of its own state. -/
inductive Act (σ : Type) : Type where
  | done
  | getState (next : σ → Act σ)
  | setState (state : σ) (next : Act σ)
  /-- The visit itself. -/
  | visit (next : Visit → Act σ)
  /-- The node of the visit, or with `up` the one so many levels above it. -/
  | node (up : Nat) (next : Option Node → Act σ)
  /-- The root of the tree. -/
  | root (next : Node → Act σ)
  /-- Leave out the children, and the second question too. -/
  | skip (next : Act σ)
  /-- Take the node out of its parent when the visit is over. -/
  | remove (next : Act σ)
  /-- Put another node in its place now. -/
  | replace (node : Node) (next : Act σ)
  /-- Walk a field of the node now, with the visitor that is running: all of it, or one place of a
  list. -/
  | traverse (step : Step) (next : Act σ)
  /-- Visit the node and its children now, with another visitor. -/
  | subtree (visitor : Moment → Location → Act σ) (next : Act σ)
  /-- The scope that the node is in; it is built if it was not asked for on this visit. -/
  | scope (next : Option ScopeId → Act σ)
  /-- All scopes as they are now. -/
  | scopes (next : Scopes → Act σ)

instance {σ : Type} : Inhabited (Act σ) where
  default := .done

abbrev Visitor (σ : Type) := Moment → Location → Act σ

/-- A part of an act that hands on a value. -/
def ActM (σ α : Type) :=
  (α → Act σ) → Act σ

namespace ActM

variable {σ α β : Type}

instance : Monad (ActM σ) where
  pure a := fun next => next a
  bind x f := fun next => x fun a => f a next

def run (x : ActM σ Unit) : Act σ :=
  x fun _ => .done

def getState : ActM σ σ :=
  Act.getState

def modifyState (f : σ → σ) : ActM σ Unit :=
  fun next => .getState fun s => .setState (f s) (next ())

def visit : ActM σ Visit :=
  Act.visit

def node (up : Nat) : ActM σ (Option Node) :=
  Act.node up

def root : ActM σ Node :=
  Act.root

def skip : ActM σ Unit :=
  fun next => .skip (next ())

def remove : ActM σ Unit :=
  fun next => .remove (next ())

def replace (node : Node) : ActM σ Unit :=
  fun next => .replace node (next ())

def traverse (step : Step) : ActM σ Unit :=
  fun next => .traverse step (next ())

def subtree (visitor : Visitor σ) : ActM σ Unit :=
  fun next => .subtree visitor (next ())

def scope : ActM σ (Option ScopeId) :=
  Act.scope

def scopes : ActM σ Scopes :=
  Act.scopes

/-- The nearest node that a test holds of, from `up` levels above the visit on; `places` are the
locations from there to the root. -/
def find (holds : Node → Bool) (up : Nat) : (places : List Location) → ActM σ (Option Location)
  | [] => pure none
  | place :: places => do
    match ← node up with
    | some n => if holds n then pure (some place) else find holds (up + 1) places
    | none => pure none

end ActM

namespace Location

/-- The place and all that it lies in, innermost first. -/
def lineage (l : Location) : List Location :=
  (List.range (l.length + 1)).map fun up => l.take (l.length - up)

end Location

end ScriptTree
