import ScriptTree.Proofs.Node.Lens
import ScriptTree.Proofs.Walk.Recording

/-!
What a walk does to a tree, told without the walk: the questions that are asked at a node and below it,
in order, and what becomes of the node.
-/

namespace ScriptTree

namespace WalkFault

-- What a visitor can bring about by what it asks for, as opposed to a place that went missing.
def IsMisuse : WalkFault → Prop
  | removedAfterReplacing | replacedAfterRemoving | removedRoot | removedRequired .. => True
  | lostNode | lostParent | lostPlace => False

end WalkFault

-- An act that leaves walking to the walk: it may skip, remove and replace the node it is handed, keep
-- a state and look around.
def Act.IsLocal {σ : Type} : Act σ → Prop
  | .done => True
  | .getState next => ∀ s, (next s).IsLocal
  | .setState _ next => next.IsLocal
  | .visit next => ∀ v, (next v).IsLocal
  | .node _ next => ∀ n, (next n).IsLocal
  | .root next => ∀ n, (next n).IsLocal
  | .skip next => next.IsLocal
  | .remove next => next.IsLocal
  | .replace _ next => next.IsLocal
  | .traverse .. => False
  | .subtree .. => False
  | .scope next => ∀ id, (next id).IsLocal
  | .scopes next => ∀ ss, (next ss).IsLocal

def Visitor.IsLocal {σ : Type} (visitor : Visitor σ) : Prop :=
  ∀ moment l, (visitor moment l).IsLocal

namespace Directive

@[simp]
def isSkip : Directive → Bool
  | skip => true
  | _ => false

@[simp]
def isRemove : Directive → Bool
  | remove => true
  | _ => false

-- What stands in the place of a node after the directive.
@[simp]
def leaves (n : Node) : Directive → Node
  | replace m => m
  | _ => n

end Directive

namespace Event

-- The question was asked about this node, and the node was at this place when it was asked.
def Reports (e : Event) (moment : Moment) (l : Location) (n : Node) : Prop :=
  e.moment = moment ∧ e.location = l ∧ e.found = some n

def skips (e : Event) : Bool :=
  e.directives.any (·.isSkip)

def removes (e : Event) : Bool :=
  e.directives.any (·.isRemove)

-- What stands in the place of a node after the answer: the last replacement, if there was one.
def leaves (e : Event) (n : Node) : Node :=
  e.directives.foldl Directive.leaves n

end Event

-- What becomes of a node in its visit. A visit is cut if the walk stops in it.
inductive Fate where
  | kept (node : Node)
  | removed
  | cut (stop : WalkStop)

def Fate.of (isRemoved : Bool) (n : Node) : Fate :=
  if isRemoved then removed else kept n

mutual

-- A visit of the node `n` at `l`: all questions asked in it and its fate. An answer cuts it only by a
-- misuse.
inductive Visited : (l : Location) → (n : Node) → List Event → Fate → Prop
  | skipped {l n e} :
    e.Reports .enter l n → e.skips → Visited l n [e] (.of e.removes (e.leaves n))
  | walked {l n e log n' e'} :
    e.Reports .enter l n → e.skips = false → Inside l (e.leaves n) e.removes log (.ok n') →
    e'.Reports .exit l n' →
    Visited l n (e :: (log ++ [e'])) (.of (e.removes || e'.removes) (e'.leaves n'))
  | unbegun {l n} : Visited l n [] (.cut .exhausted)
  | cutOnEnter {l n e f} :
    e.Reports .enter l n → f.IsMisuse → Visited l n [e] (.cut (.fault f))
  | cutInside {l n e log stop} :
    e.Reports .enter l n → e.skips = false → Inside l (e.leaves n) e.removes log (.error stop) →
    Visited l n (e :: log) (.cut stop)
  | cutOnExit {l n e log n' e' f} :
    e.Reports .enter l n → e.skips = false → Inside l (e.leaves n) e.removes log (.ok n') →
    e'.Reports .exit l n' → f.IsMisuse → Visited l n (e :: (log ++ [e'])) (.cut (.fault f))

-- What comes of `n` between the two questions: nothing if it is to be removed, and else what the visits
-- of all its fields make of it.
inductive Inside : (l : Location) → (n : Node) → (isRemoved : Bool) → List Event →
    Except WalkStop Node → Prop
  | dropped {l n} : Inside l n true [] (.ok n)
  | walked {l n log r} : Fields l n n.type.fields log r → Inside l n false log r

-- The visits of some fields of `n`, one after the other, and the node with what they leave.
inductive Fields : (l : Location) → (n : Node) → List String → List Event →
    Except WalkStop Node → Prop
  | nil {l n} : Fields l n [] [] (.ok n)
  | cons {l n field fields s log n' log' r} :
    n.slot? field = some s → Field l field s log (.ok n') → Fields l n' fields log' r →
    Fields l n (field :: fields) (log ++ log') r
  | cut {l n field fields s log stop} :
    n.slot? field = some s → Field l field s log (.error stop) →
    Fields l n (field :: fields) log (.error stop)

-- The visits of the children in one field. The node with the new content is what the field's own `put`
-- gives, so it differs nowhere else.
inductive Field : (l : Location) → (field : String) → Slot Node Node → List Event →
    Except WalkStop Node → Prop
  | required {l field x put log y} :
    Visited (l.child ⟨field, none⟩) x log (.kept y) →
    Field l field (.required x put) log (.ok (put y))
  | absent {l field put} : Field l field (.optional none put) [] (.ok (put none))
  | present {l field x put log y} :
    Visited (l.child ⟨field, none⟩) x log (.kept y) →
    Field l field (.optional (some x) put) log (.ok (put (some y)))
  | emptied {l field x put log} :
    Visited (l.child ⟨field, none⟩) x log .removed →
    Field l field (.optional (some x) put) log (.ok (put none))
  | list {l field xs put log ys} :
    Elements l field 0 (xs.map some) log (.ok (ys.map some)) →
    Field l field (.list xs put) log (.ok (put ys))
  | sparse {l field xs put log ys} :
    Elements l field 0 xs log (.ok ys) → Field l field (.sparse xs put) log (.ok (put ys))
  | cut {l field s x log stop} :
    s.child? none = some x → Visited (l.child ⟨field, none⟩) x log (.cut stop) →
    Field l field s log (.error stop)
  | cutInList {l field s log stop} :
    s.length?.isSome → Elements l field 0 s.content log (.error stop) →
    Field l field s log (.error stop)

-- The visits of the elements of a list that are at the places from `i` on when they are reached, and
-- what is left of them. Every element is visited once. Where one is removed the next has its place.
inductive Elements : (l : Location) → (field : String) → (i : Nat) → List (Option Node) →
    List Event → Except WalkStop (List (Option Node)) → Prop
  | nil {l field i} : Elements l field i [] [] (.ok [])
  | hole {l field i xs log r} :
    Elements l field (i + 1) xs log r →
    Elements l field i (none :: xs) log (r.map (none :: ·))
  | kept {l field i x xs log y log' r} :
    Visited (l.child ⟨field, some i⟩) x log (.kept y) → Elements l field (i + 1) xs log' r →
    Elements l field i (some x :: xs) (log ++ log') (r.map (some y :: ·))
  | removed {l field i x xs log log' r} :
    Visited (l.child ⟨field, some i⟩) x log .removed → Elements l field i xs log' r →
    Elements l field i (some x :: xs) (log ++ log') r
  | cut {l field i x xs log stop} :
    Visited (l.child ⟨field, some i⟩) x log (.cut stop) →
    Elements l field i (some x :: xs) log (.error stop)

end

end ScriptTree
