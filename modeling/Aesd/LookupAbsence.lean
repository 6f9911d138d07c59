import Aesd.EntryLookup

/-! Positions past the end of the stored bytes. The loop compares char_offset + 1, which is
    zero for the largest offset, with a sum that is never negative. -/
namespace AesdCircularBuffer
open RingWindow TransitionRuns ConcatenatedParts

theorem locate_past_end {parts : List Nat} {pos : Nat} (past : parts.sum ≤ pos) :
    locate parts pos = none := by
  rw [← Option.not_isSome_iff_eq_none, locate_isSome_iff]
  omega

theorem walk_past_end {charOffset : UInt64} {entries : List BufferEntry}
    (noWrap : charOffset.toNat < sizeMax) (fits : (sizes entries).sum ≤ sizeMax)
    (past : (sizes entries).sum ≤ charOffset.toNat) (start : Nat) :
    (walk charOffset start 0 0 entries).outcome = .absent := by
  rw [walk_eq_locate noWrap start entries (Nat.zero_le _) (by simpa using fits), UInt64.toNat_zero,
    Nat.sub_zero, locate_past_end past]

/-- The largest offset is found in the oldest entry, whatever that holds. -/
theorem walk_wraps {charOffset : UInt64} (largest : charOffset.toNat = sizeMax) (start : Nat)
    (oldest : BufferEntry) (newer : List BufferEntry) :
    (walk charOffset start 0 0 (oldest :: newer)).outcome = .found (start % 10) charOffset := by
  have wrapped : charOffset + 1 ≤ oldest.size := by
    rw [UInt64.le_iff_toNat_le, UInt64.toNat_add, largest]
    exact Nat.zero_le _
  simp [walk, wrapped]

theorem window_empty_iff (history : List BufferEntry) : lastN 10 history = [] ↔ history = [] := by
  rw [← List.length_eq_zero_iff, lastN_length, ← List.length_eq_zero_iff]
  omega

/-- Past the end the lookup answers NULL and stores nothing, but for SIZE_MAX on a buffer
    that holds an entry. -/
theorem lookup_past_end_absent_iff {calls : List AddCall} {buffer : Buffer}
    (run : addMachine.run aesdCircularBufferInit calls = some buffer) {charOffset : UInt64}
    (fits : (sizes (lastN 10 (acceptedEntries calls))).sum ≤ sizeMax)
    (past : (sizes (lastN 10 (acceptedEntries calls))).sum ≤ charOffset.toNat)
    {fuel : Nat} (enough : 10 < fuel) :
    (aesdCircularBufferFindEntryOffsetForFpos fuel buffer charOffset).outcome = .absent ↔
      charOffset.toNat ≠ sizeMax ∨ acceptedEntries calls = [] := by
  rw [find_eq_walk (reached_represents run) charOffset enough, ← window_empty_iff]
  by_cases largest : charOffset.toNat = sizeMax
  · cases lastN 10 (acceptedEntries calls) with
    | nil => simp [walk]
    | cons oldest newer => simp [walk_wraps largest, largest]
  · have noWrap : charOffset.toNat < sizeMax := by
      have := charOffset.toNat_lt
      simp only [sizeMax, UInt64.size] at largest ⊢
      omega
    simp [walk_past_end noWrap fits past, largest]

theorem five_bytes_do_not_reach_the_sixth :
    ∃ buffer, addMachine.run aesdCircularBufferInit threeEntries = some buffer ∧
      (aesdCircularBufferFindEntryOffsetForFpos 11 buffer 5).outcome = .absent := by
  obtain ⟨buffer, run, _⟩ := run_represents threeEntries
  exact ⟨buffer, run, (@lookup_past_end_absent_iff _ _ run 5 (by decide) (by decide) 11
    (by decide)).mpr (Or.inl (by decide))⟩

theorem largest_offset_is_found :
    ∃ buffer, addMachine.run aesdCircularBufferInit threeEntries = some buffer ∧
      (sizes (lastN 10 (acceptedEntries threeEntries))).sum = 5 ∧
      (aesdCircularBufferFindEntryOffsetForFpos 11 buffer 18446744073709551615).outcome =
        .found 0 18446744073709551615 := by
  exact ⟨_, rfl, rfl, rfl⟩

end AesdCircularBuffer
