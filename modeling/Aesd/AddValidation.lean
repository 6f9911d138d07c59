import Aesd.EntryLookup

/-! What the validation of add_entry is worth on a structure with any offsets and any flag:
    the insertion that follows it, and a lookup after that. -/
namespace AesdCircularBuffer
open RingWindow

structure SearchInArray (search : Search) : Prop where
  iterations : search.examined.length ≤ 10
  slots : ∀ slot ∈ search.examined, slot < 10
  inside : ∀ slot, search.outcome ≠ .outOfArray slot
  ends : search.outcome ≠ .unfinished

structure SoundAfterAdd (after : Buffer) : Prop where
  inOffs_small : after.inOffs.toNat < 10
  outOffs_small : after.outOffs.toNat < 10
  full_iff : after.full = true ↔ after.inOffs = after.outOffs
  lookups : ∀ (charOffset : UInt64) (fuel : Nat), 10 < fuel →
    SearchInArray (aesdCircularBufferFindEntryOffsetForFpos fuel after charOffset)

/-- A call that passes the validation writes into the array and leaves it sound. -/
def AddSafe (buffer : Buffer) (addEntry : BufferEntry) : Prop :=
  match aesdCircularBufferAddEntry (some buffer) (some addEntry) with
  | .rejected why => (AddResult.rejected why).bufferAfter buffer = some buffer
  | .stored after => buffer.inOffs.toNat < 10 ∧ SoundAfterAdd after
  | .outOfArray _ => False

theorem walk_in_array (charOffset : UInt64) (start k : Nat) (accumulated : UInt64)
    (entries : List BufferEntry) :
    (walk charOffset start k accumulated entries).examined.length ≤ entries.length ∧
      (∀ slot ∈ (walk charOffset start k accumulated entries).examined, slot < 10) ∧
      ((walk charOffset start k accumulated entries).outcome = .absent ∨
        ∃ slot offset, (walk charOffset start k accumulated entries).outcome = .found slot offset) := by
  induction entries generalizing k accumulated with
  | nil => simp [walk]
  | cons entry rest ih =>
    obtain ⟨few, slots, outcome⟩ := ih (k + 1) (accumulated + entry.size)
    have here : (start + k) % 10 < 10 := Nat.mod_lt _ (by decide)
    simp only [walk]
    split
    · simp only [List.length_nil, List.length_cons, List.mem_singleton, forall_eq]
      exact ⟨by omega, here, Or.inr ⟨_, _, rfl⟩⟩
    · simp only [List.length_cons, List.mem_cons, forall_eq_or_imp]
      exact ⟨by omega, ⟨here, slots⟩, outcome⟩

theorem lookup_in_array {buffer : Buffer} (formed : WellFormed buffer) (charOffset : UInt64)
    {fuel : Nat} (enough : 10 < fuel) :
    SearchInArray (aesdCircularBufferFindEntryOffsetForFpos fuel buffer charOffset) := by
  rw [find_eq_walk_contents formed charOffset enough]
  obtain ⟨few, slots, outcome⟩ :=
    walk_in_array charOffset buffer.outOffs.toNat 0 0 (contents buffer)
  rw [contents_length] at few
  have live := liveCount_le buffer
  rcases outcome with absent | ⟨found, offset, here⟩
  · exact ⟨by omega, slots, by simp [absent], by simp [absent]⟩
  · exact ⟨by omega, slots, by simp [here], by simp [here]⟩

/-- An insertion at offsets that the array has repairs the flag, whatever it was. -/
theorem store_sound {buffer : Buffer} (inSmall : buffer.inOffs.toNat < 10)
    (outSmall : buffer.outOffs.toNat < 10) (addEntry : BufferEntry) :
    ∃ after, storeEntry buffer addEntry = .stored after ∧ SoundAfterAdd after := by
  refine ⟨_, by rw [storeEntry, dif_pos inSmall], ?_⟩
  have inNext : (advance buffer.inOffs).toNat < 10 := by
    rw [advance_toNat inSmall]
    omega
  have outNext : (if buffer.inOffs = buffer.outOffs ∧ buffer.full = true
      then advance buffer.outOffs else buffer.outOffs).toNat < 10 := by
    split
    · rw [advance_toNat outSmall]
      omega
    · exact outSmall
  constructor
  · exact inNext
  · exact outNext
  · exact beq_iff_eq
  · intro charOffset fuel enough
    exact lookup_in_array ⟨inNext, outNext, fun isFull => beq_iff_eq.mp isFull⟩ charOffset enough

theorem store_not_rejected (buffer : Buffer) (addEntry : BufferEntry) (why : Rejection) :
    storeEntry buffer addEntry ≠ .rejected why := by
  unfold storeEntry
  split
  · simp
  · simp

theorem store_keeps_outOffs {buffer after : Buffer} {addEntry : BufferEntry}
    (apart : buffer.inOffs ≠ buffer.outOffs) (stored : storeEntry buffer addEntry = .stored after) :
    after.outOffs = buffer.outOffs := by
  unfold storeEntry at stored
  split at stored
  · have same := AddResult.stored.inj stored
    rw [← same, if_neg (by simp [apart])]
  · cases stored

theorem store_safe_iff (buffer : Buffer) (addEntry : BufferEntry) :
    (∃ after, storeEntry buffer addEntry = .stored after ∧ buffer.inOffs.toNat < 10 ∧
      SoundAfterAdd after) ↔ buffer.inOffs.toNat < 10 ∧ buffer.outOffs.toNat < 10 := by
  constructor
  · intro safe
    obtain ⟨after, stored, inSmall, sound⟩ := safe
    constructor
    · exact inSmall
    · by_contra beyond
      have apart : buffer.inOffs ≠ buffer.outOffs := by
        intro meet
        rw [meet] at inSmall
        exact beyond inSmall
      have kept := store_keeps_outOffs apart stored
      have small := sound.outOffs_small
      rw [kept] at small
      exact beyond small
  · intro small
    obtain ⟨after, stored, sound⟩ := store_sound small.1 small.2 addEntry
    exact ⟨after, stored, small.1, sound⟩

theorem add_passes {buffer : Buffer} {addEntry : BufferEntry} (given : addEntry.buffptr ≠ none)
    (outFits : ¬ 10 < buffer.outOffs.toNat) (inFits : ¬ 10 < buffer.inOffs.toNat) :
    aesdCircularBufferAddEntry (some buffer) (some addEntry) = storeEntry buffer addEntry := by
  simp only [aesdCircularBufferAddEntry, maxWriteOperationsSupported, given, outFits, inFits,
    ↓reduceIte]

theorem add_refuses {buffer : Buffer} {addEntry : BufferEntry} (given : addEntry.buffptr ≠ none)
    (beyond : 10 < buffer.inOffs.toNat ∨ 10 < buffer.outOffs.toNat) :
    ∃ why, aesdCircularBufferAddEntry (some buffer) (some addEntry) = .rejected why := by
  simp only [aesdCircularBufferAddEntry, maxWriteOperationsSupported, given, ↓reduceIte]
  by_cases outBeyond : 10 < buffer.outOffs.toNat
  · exact ⟨_, by rw [if_pos outBeyond]⟩
  · have inBeyond : 10 < buffer.inOffs.toNat := by omega
    exact ⟨_, by rw [if_neg outBeyond, if_pos inBeyond]⟩

/-- The validation lets ten through, which neither offset may be. -/
theorem add_safe_iff {buffer : Buffer} {addEntry : BufferEntry} (given : addEntry.buffptr ≠ none) :
    AddSafe buffer addEntry ↔ 10 < buffer.inOffs.toNat ∨ 10 < buffer.outOffs.toNat ∨
      buffer.inOffs.toNat < 10 ∧ buffer.outOffs.toNat < 10 := by
  by_cases beyond : 10 < buffer.inOffs.toNat ∨ 10 < buffer.outOffs.toNat
  · obtain ⟨why, refused⟩ := add_refuses given beyond
    unfold AddSafe
    rw [refused]
    constructor
    · intro _
      rcases beyond with inBeyond | outBeyond
      · exact Or.inl inBeyond
      · exact Or.inr (Or.inl outBeyond)
    · intro _
      rfl
  · rw [not_or] at beyond
    simp only [beyond.1, beyond.2, false_or]
    rw [← store_safe_iff buffer addEntry]
    unfold AddSafe
    rw [add_passes given beyond.2 beyond.1]
    cases stored : storeEntry buffer addEntry with
    | rejected why => exact absurd stored (store_not_rejected buffer addEntry why)
    | stored after => simp
    | outOfArray slot => simp

theorem initial_buffer_is_safe :
    AddSafe aesdCircularBufferInit ⟨some 4096, 3⟩ ↔ 10 < aesdCircularBufferInit.inOffs.toNat ∨
      10 < aesdCircularBufferInit.outOffs.toNat ∨
        aesdCircularBufferInit.inOffs.toNat < 10 ∧ aesdCircularBufferInit.outOffs.toNat < 10 :=
  add_safe_iff (by decide)

/-- A structure whose in_offs is just behind the array is let through. -/
theorem tenth_slot_is_written :
    ¬ AddSafe { aesdCircularBufferInit with inOffs := 10 } ⟨some 4096, 3⟩ := by
  intro safe
  have outside : aesdCircularBufferAddEntry (some { aesdCircularBufferInit with inOffs := 10 })
      (some ⟨some 4096, 3⟩) = .outOfArray 10 := by decide
  unfold AddSafe at safe
  rw [outside] at safe
  exact safe

end AesdCircularBuffer
