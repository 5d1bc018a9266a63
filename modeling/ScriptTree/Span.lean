/-!
Half-open ranges of byte offsets into a source.
-/

namespace ScriptTree

structure Span where
  start : Nat
  stop : Nat
deriving DecidableEq

namespace Span

/-- The span at the start of a source that holds nothing. -/
def origin : Span :=
  ⟨0, 0⟩

def width (s : Span) : Nat :=
  s.stop - s.start

def isEmpty (s : Span) : Bool :=
  s.width == 0

/-- The least span that covers both. -/
def merge (s t : Span) : Span :=
  ⟨min s.start t.start, max s.stop t.stop⟩

end ScriptTree.Span
