import ScriptTree.Node.Fields

/-!
Places in a tree: the steps from the root to a node.
-/

namespace ScriptTree

abbrev Location := List Step

namespace Step

/-- The field, with the place in brackets if it is a list. -/
def render (s : Step) : String :=
  match s.index with
  | none => s.field
  | some i => s.field ++ "[" ++ toString i ++ "]"

end Step

namespace Location

def root : Location :=
  []

def child (l : Location) (step : Step) : Location :=
  l ++ [step]

/-- The location of the parent; the root has none. -/
def parent? (l : Location) : Option Location :=
  if l.isEmpty then none else some l.dropLast

/-- Is the place the other one, or inside it? -/
def isWithin (l m : Location) : Bool :=
  m.isPrefixOf l

/-- The steps with dots between them. The root has a name of its own. -/
def render (l : Location) : String :=
  if l.isEmpty then "<root>" else ".".intercalate (l.map Step.render)

end Location

namespace Node

/-- The node at a place of the tree, if the place is there. -/
def at? : Node → Location → Option Node
  | n, [] => some n
  | n, step :: steps => do (← n.child? step).at? steps

/-- Changes the node at a place, if the place is there and the change can be made. -/
def modifyAt? (change : Node → Option Node) : Node → Location → Option Node
  | n, [] => change n
  | n, step :: steps => do n.setChild? step (← (← n.child? step).modifyAt? change steps)

def setAt? (n : Node) (l : Location) (x : Node) : Option Node :=
  n.modifyAt? (fun _ => some x) l

end ScriptTree.Node
