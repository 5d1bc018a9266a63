import ScriptTree.Node.Fold

/-!
Trees without their spans.
-/

namespace ScriptTree.Node

def nowhere : Span := ⟨0, 0⟩

-- The same tree with all spans erased.
def bare : Node → Node :=
  fold fun _ form => mk nowhere form

theorem bare_mk (span : Span) (form : Form Node) :
    (mk span form).bare = mk nowhere (form.map bare) :=
  fold_eq _ _

theorem bare_eq (n : Node) : n.bare = mk nowhere (n.form.map bare) := by
  cases n
  exact bare_mk ..

theorem bare_span (n : Node) : n.bare.span = nowhere := by
  rw [bare_eq]
  rfl

variable {n m : Node}

theorem form_map_of_bare (h : m.bare = n.bare) : m.form.map bare = n.form.map bare := by
  rw [bare_eq, bare_eq] at h
  injection h

theorem map_some_of_bare (h : m.bare = n.bare) : (some m).map bare = (some n).map bare :=
  congrArg some h

theorem isNone_of_map_bare {n m : Option Node} (h : m.map bare = n.map bare) :
    m.isNone = n.isNone := by
  rw [← Option.isNone_map, h, Option.isNone_map]

theorem withSpan_of_bare (h : m.bare = n.bare) (span span' : Span) :
    (m.withSpan span').bare = (n.withSpan span).bare := by
  rw [Node.withSpan, Node.withSpan, bare_mk, bare_mk, form_map_of_bare h]

theorem isAssignable_bare (n : Node) : n.bare.isAssignable = n.isAssignable := by
  rw [bare_eq]
  unfold Node.isAssignable
  cases n.form <;> rfl

theorem isAssignable_of_bare (h : m.bare = n.bare) : m.isAssignable = n.isAssignable := by
  rw [← isAssignable_bare m, h, isAssignable_bare]

end ScriptTree.Node
