import Aesd.EntryLookup

/-! How long the pointer that a lookup returns stays the answer for its byte while entries
    are added. An add to a full ring takes the oldest entry out, and all positions move
    down by its size. -/
namespace AesdCircularBuffer
open RingWindow TransitionRuns ConcatenatedParts

def evicted (history later : List BufferEntry) : Nat :=
  history.length + later.length - 10 - (history.length - 10)

def evictedBytes (history later : List BufferEntry) : Nat :=
  (sizes ((lastN 10 history).take (evicted history later))).sum

theorem acceptedEntries_append (calls more : List AddCall) :
    acceptedEntries (calls ++ more) = acceptedEntries calls ++ acceptedEntries more :=
  List.filterMap_append

theorem window_append {history later : List BufferEntry}
    (kept : history.length + later.length - 10 ≤ history.length) :
    lastN 10 (history ++ later) =
      (lastN 10 history).drop (evicted history later) ++ later := by
  rw [lastN, lastN, List.length_append, List.drop_append_of_le_length kept, List.drop_drop]
  congr 2
  unfold evicted
  omega

theorem oldest_moves {buffer after : Buffer} {history later : List BufferEntry}
    (rep : Represents buffer history) (repAfter : Represents after (history ++ later)) {k : Nat}
    (kept : evicted history later ≤ k) :
    (after.outOffs.toNat + (k - evicted history later)) % 10 = (buffer.outOffs.toNat + k) % 10 := by
  have before := rep.outOffs_eq
  have now := repAfter.outOffs_eq
  rw [List.length_append] at now
  unfold evicted at kept ⊢
  omega

theorem find_locate {buffer : Buffer} {history : List BufferEntry} (rep : Represents buffer history)
    {charOffset : UInt64} (fits : (sizes (lastN 10 history)).sum ≤ sizeMax)
    (inRange : charOffset.toNat < (sizes (lastN 10 history)).sum) {fuel : Nat} (enough : 10 < fuel)
    {part off : Nat} (located : locate (sizes (lastN 10 history)) charOffset.toNat = some (part, off)) :
    (aesdCircularBufferFindEntryOffsetForFpos fuel buffer charOffset).outcome =
      .found ((buffer.outOffs.toNat + part) % 10) (UInt64.ofNat off) := by
  rw [find_eq_walk rep charOffset enough,
    walk_eq_locate (by omega) _ _ (by simp) (by simpa using fits)]
  simp [located]

theorem evicted_slot {buffer after : Buffer} {history later : List BufferEntry}
    (rep : Represents buffer history) (repAfter : Represents after (history ++ later)) {k : Nat}
    (gone : k < evicted history later) :
    ∃ newer ∈ later, after.entry.toList[(buffer.outOffs.toNat + k) % 10]? = some newer := by
  have before := rep.outOffs_eq
  unfold evicted at gone
  -- the newest entry that this slot has received
  obtain ⟨newest, recent, inside, slot⟩ : ∃ newest, history.length + later.length - 10 ≤ newest ∧
      newest < history.length + later.length ∧
        newest % 10 = (buffer.outOffs.toNat + k) % 10 := by
    refine ⟨history.length + later.length - 10 +
      (history.length - 10 + k + 10 * (history.length + later.length) -
        (history.length + later.length - 10)) % 10, ?_, ?_, ?_⟩
    · omega
    · omega
    · omega
  have behind : history.length ≤ newest := by omega
  have held := repAfter.slots newest (by rw [List.length_append]; exact inside)
    (by simp only [List.length_append, Vector.length_toList, maxWriteOperationsSupported]; omega)
  simp only [Vector.length_toList, maxWriteOperationsSupported, slot] at held
  have within : newest - history.length < later.length := by omega
  rw [List.getElem?_append_right behind, List.getElem?_eq_getElem within] at held
  exact ⟨_, List.getElem_mem _, held⟩

theorem room_of_kept {history later : List BufferEntry} {k : Nat}
    (inside : k < (lastN 10 history).length) (kept : evicted history later ≤ k) :
    history.length + later.length - 10 ≤ history.length := by
  rw [lastN_length] at inside
  unfold evicted at kept
  omega

theorem evictedBytes_eq (history later : List BufferEntry) :
    evictedBytes history later =
      ((sizes (lastN 10 history)).take (evicted history later)).sum := by
  unfold evictedBytes sizes
  rw [List.map_take]

/-- The byte of an entry that is left has moved down by what was pushed out. -/
theorem locate_kept {history later : List BufferEntry} {position moved part off : Nat}
    (located : locate (sizes (lastN 10 history)) position = some (part, off))
    (inside : part < (lastN 10 history).length) (kept : evicted history later ≤ part)
    (counted : moved + evictedBytes history later = position) :
    locate (sizes (lastN 10 (history ++ later))) moved =
      some (part - evicted history later, off) := by
  have moves : moved = position -
      ((sizes (lastN 10 history)).take (evicted history later)).sum := by
    rw [← evictedBytes_eq]
    omega
  rw [window_append (room_of_kept inside kept), moves, sizes, List.map_append, List.map_drop]
  exact locate_append (locate_drop located kept) _

theorem slot_kept {buffer after : Buffer} {history later : List BufferEntry}
    (rep : Represents buffer history) (repAfter : Represents after (history ++ later)) {part : Nat}
    {entry : BufferEntry} (live : (lastN 10 history)[part]? = some entry)
    (kept : evicted history later ≤ part) :
    after.entry.toList[(buffer.outOffs.toNat + part) % 10]? =
      buffer.entry.toList[(buffer.outOffs.toNat + part) % 10]? := by
  obtain ⟨inside, _⟩ := List.getElem?_eq_some_iff.mp live
  have still : (lastN 10 (history ++ later))[part - evicted history later]? = some entry := by
    rw [window_append (room_of_kept inside kept),
      List.getElem?_append_left (by rw [List.length_drop]; omega), List.getElem?_drop,
      Nat.add_sub_cancel' kept, live]
  have slotAfter := live_slot repAfter still
  rw [oldest_moves rep repAfter kept] at slotAfter
  rw [slotAfter, live_slot rep live]

/-- The pointer that a lookup returned is the answer for the same byte, and shows the same
    entry, until so many bytes have been pushed out that the byte is gone; from then on it
    shows an entry added since. -/
theorem lookup_survives_until_evicted {calls more : List AddCall} {buffer after : Buffer}
    (run : addMachine.run aesdCircularBufferInit calls = some buffer)
    (later : addMachine.run buffer more = some after) {charOffset : UInt64}
    (fits : (sizes (lastN 10 (acceptedEntries calls))).sum ≤ sizeMax)
    (fitsAfter : (sizes (lastN 10 (acceptedEntries (calls ++ more)))).sum ≤ sizeMax)
    (inRange : charOffset.toNat < (sizes (lastN 10 (acceptedEntries calls))).sum)
    {fuel : Nat} (enough : 10 < fuel) :
    ∃ slot off,
      (aesdCircularBufferFindEntryOffsetForFpos fuel buffer charOffset).outcome =
        .found slot off ∧
      (∀ moved : UInt64,
        moved.toNat + evictedBytes (acceptedEntries calls) (acceptedEntries more) =
          charOffset.toNat →
        (aesdCircularBufferFindEntryOffsetForFpos fuel after moved).outcome = .found slot off ∧
          after.entry.toList[slot]? = buffer.entry.toList[slot]?) ∧
      (charOffset.toNat < evictedBytes (acceptedEntries calls) (acceptedEntries more) →
        ∃ newer ∈ acceptedEntries more, after.entry.toList[slot]? = some newer) := by
  have rep := reached_represents run
  have whole : addMachine.run aesdCircularBufferInit (calls ++ more) = some after := by
    rw [run_append, run, Option.bind_some, later]
  have repAfter := reached_represents whole
  rw [acceptedEntries_append] at repAfter fitsAfter
  generalize acceptedEntries calls = history at *
  generalize acceptedEntries more = newer at *
  obtain ⟨⟨part, off⟩, located⟩ := Option.isSome_iff_exists.mp
    ((locate_isSome_iff (sizes (lastN 10 history)) charOffset.toNat).mpr inRange)
  obtain ⟨_, sizeAt, _⟩ := locate_spec located
  obtain ⟨entry, live, _⟩ : ∃ entry, (lastN 10 history)[part]? = some entry ∧
      entry.size.toNat = _ := by simpa [sizes] using sizeAt
  obtain ⟨inside, _⟩ := List.getElem?_eq_some_iff.mp live
  have past := locate_past_iff located (evicted history newer)
  rw [← evictedBytes_eq] at past
  refine ⟨_, _, find_locate rep fits inRange enough located, ?_, ?_⟩
  · intro moved counted
    have kept : evicted history newer ≤ part := past.mp (by omega)
    have again := locate_kept located inside kept counted
    have inRangeAfter : moved.toNat < (sizes (lastN 10 (history ++ newer))).sum := by
      rw [← locate_isSome_iff, again]
      rfl
    have found := find_locate repAfter fitsAfter inRangeAfter enough again
    rw [oldest_moves rep repAfter kept] at found
    exact ⟨found, slot_kept rep repAfter live kept⟩
  · intro gone
    have out : part < evicted history newer := by
      rw [← Nat.not_le, ← past]
      omega
    exact evicted_slot rep repAfter out

def tenEntries : List AddCall := (List.range 10).map fun i => ⟨false, some ⟨some (4096 + i), 2⟩⟩

def eleventhEntry : List AddCall := [⟨false, some ⟨some 8192, 2⟩⟩]

theorem fourth_byte_moves_down_by_two :
    ∃ buffer after, addMachine.run aesdCircularBufferInit tenEntries = some buffer ∧
      addMachine.run buffer eleventhEntry = some after ∧
        ∃ slot off, (aesdCircularBufferFindEntryOffsetForFpos 11 buffer 3).outcome =
            .found slot off ∧
          (aesdCircularBufferFindEntryOffsetForFpos 11 after 1).outcome = .found slot off := by
  obtain ⟨buffer, run, _⟩ := run_represents tenEntries
  obtain ⟨after, whole, _⟩ := run_represents (tenEntries ++ eleventhEntry)
  have later : addMachine.run buffer eleventhEntry = some after := by
    rwa [run_append, run] at whole
  obtain ⟨slot, off, found, survives, _⟩ := @lookup_survives_until_evicted tenEntries eleventhEntry
    buffer after run later 3 (by decide) (by decide) (by decide) 11 (by decide)
  exact ⟨buffer, after, run, later, slot, off, found, (survives 1 (by decide)).1⟩

end AesdCircularBuffer
