import Mathlib.Data.List.ProdSigma
import Reservoir.Proofs.Grid.Written

/-!
Where the corners of cells find their pillars and depths. As long as words count the depths each of
them is the depth of one corner, and the arrays of a section have a value wherever a corner looks
for one.
-/

namespace Reservoir

open Outcome

namespace Dims

variable {d : Dims}

end Dims

namespace Grid

variable {dims : Dims} {pillars depths : Keyword} {stored : Option Keyword} {arrays : Arrays}

variable (name : String) (number : Int) (axes : Option MapAxes)

end Grid

end Reservoir
