import Mathlib.Data.List.Nodup
import Aesd.AddValidation

/-! Which slots the lookup loop examines. The live slots are told here by the number of
    accepted entries alone: entry j went to slot j modulo 10, and the newest ten live. -/
namespace AesdCircularBuffer
open RingWindow TransitionRuns

end AesdCircularBuffer
