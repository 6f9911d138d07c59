import Aesd.CircularBuffer

/-! Who frees the payloads of the circular buffer. The buffer frees nothing itself: its
    caller saves the pointer that an add overwrites and frees it after the add, and at the
    end frees what AESD_CIRCULAR_BUFFER_FOREACH visits. -/
namespace PayloadOwnership
open RingWindow TransitionRuns AesdCircularBuffer

def pointers (entries : List BufferEntry) : List Nat := entries.filterMap (·.buffptr)

/-- freed lists the pointers passed to free so far. -/
structure Owned where
  buffer : Buffer
  freed : List Nat
  deriving DecidableEq, Repr

/-- The entries that AESD_CIRCULAR_BUFFER_FOREACH visits, for index from 0 on. -/
def foreachEntries (buffer : Buffer) : List BufferEntry :=
  (List.range maxWriteOperationsSupported).filterMap (buffer.entry.toList[·]?)

structure Settled (history : List BufferEntry) (s : Owned) : Prop where
  rep : Represents s.buffer history
  freed : s.freed = pointers (history.take (history.length - 10))

/-- The owner after so many slots of the final pass, which leaves the buffer as it is. -/
def passed (s : Owned) (slots : Nat) : Owned :=
  ⟨s.buffer, s.freed ++ pointers ((foreachEntries s.buffer).take slots)⟩

end PayloadOwnership
