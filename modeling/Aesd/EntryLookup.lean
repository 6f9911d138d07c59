import Aesd.CircularBuffer
import Aesd.ConcatenatedParts

/-! The lookup of a file position. The loop walks the ring with a wrapping index and
    decides the full case with a one-shot flag; it is first shown to walk the live
    entries in order, and only then are its 64-bit sums read as numbers. -/
namespace AesdCircularBuffer
open RingWindow TransitionRuns ConcatenatedParts

structure Cursor where
  i : UInt8
  accumulatedSize : UInt64
  onceFlag : Bool
  deriving DecidableEq, Repr

/-- found is the returned entry pointer with the offset stored through the out
    parameter; absent is NULL with nothing stored. -/
inductive Lookup where
  | found (slot : Nat) (entryOffsetByteRtn : UInt64)
  | absent
  | outOfArray (slot : Nat)
  | unfinished
  deriving DecidableEq, Repr

structure Search where
  examined : List Nat
  outcome : Lookup
  deriving DecidableEq, Repr

def loopContinues (buffer : Buffer) (cursor : Cursor) : Bool :=
  cursor.i != buffer.inOffs || (buffer.full && cursor.i == buffer.inOffs && cursor.onceFlag)

/-- The index is promoted to int before the addition, so it does not wrap at 255. -/
def nextIndex (i : UInt8) : UInt8 := UInt8.ofNat ((i.toNat + 1) % 10)

def searchFrom (buffer : Buffer) (charOffset : UInt64) : Nat → Cursor → Search
  | 0, _ => ⟨[], .unfinished⟩
  | fuel + 1, cursor =>
      if loopContinues buffer cursor then
        let onceFlag := if buffer.full && buffer.outOffs == buffer.inOffs then false
          else cursor.onceFlag
        match buffer.entry.toList[cursor.i.toNat]? with
        | none => ⟨[cursor.i.toNat], .outOfArray cursor.i.toNat⟩
        | some entry =>
          if charOffset + 1 ≤ cursor.accumulatedSize + entry.size then
            ⟨[cursor.i.toNat], .found cursor.i.toNat (charOffset - cursor.accumulatedSize)⟩
          else
            let later := searchFrom buffer charOffset fuel
              ⟨nextIndex cursor.i, cursor.accumulatedSize + entry.size, onceFlag⟩
            ⟨cursor.i.toNat :: later.examined, later.outcome⟩
      else ⟨[], .absent⟩

/-- fuel bounds the loop iterations; unfinished says that they did not suffice. -/
def aesdCircularBufferFindEntryOffsetForFpos (fuel : Nat) (buffer : Buffer)
    (charOffset : UInt64) : Search :=
  searchFrom buffer charOffset fuel ⟨buffer.outOffs, 0, true⟩

/-- The same search over a plain list of entries, the next one in slot start + k. -/
def walk (charOffset : UInt64) (start : Nat) : Nat → UInt64 → List BufferEntry → Search
  | _, _, [] => ⟨[], .absent⟩
  | k, accumulated, entry :: rest =>
      let slot := (start + k) % 10
      if charOffset + 1 ≤ accumulated + entry.size then
        ⟨[slot], .found slot (charOffset - accumulated)⟩
      else
        let later := walk charOffset start (k + 1) (accumulated + entry.size) rest
        ⟨slot :: later.examined, later.outcome⟩

structure AtPosition (buffer : Buffer) (k : Nat) (cursor : Cursor) : Prop where
  index : cursor.i.toNat = (buffer.outOffs.toNat + k) % 10
  fresh : k = 0 → cursor.onceFlag = true
  spent : 0 < k → buffer.full = true → cursor.onceFlag = false

theorem nextIndex_toNat (i : UInt8) : (nextIndex i).toNat = (i.toNat + 1) % 10 := by
  simp only [nextIndex, UInt8.toNat_ofNat']
  omega

theorem atPosition_start (buffer : Buffer) (small : buffer.outOffs.toNat < 10) :
    AtPosition buffer 0 ⟨buffer.outOffs, 0, true⟩ where
  index := by simp only [Nat.add_zero]; omega
  fresh := fun _ => rfl
  spent := by intro impossible; omega

structure WellFormed (buffer : Buffer) : Prop where
  inOffs_small : buffer.inOffs.toNat < 10
  outOffs_small : buffer.outOffs.toNat < 10
  full_meet : buffer.full = true → buffer.inOffs = buffer.outOffs

theorem represents_wellFormed {buffer : Buffer} {history : List BufferEntry}
    (rep : Represents buffer history) : WellFormed buffer where
  inOffs_small := inOffs_lt rep
  outOffs_small := outOffs_lt rep
  full_meet := by
    intro isFull
    rw [rep.full_eq, decide_eq_true_eq] at isFull
    exact (offsets_meet_iff rep).mpr (Or.inr isFull)

theorem contents_length (buffer : Buffer) : (contents buffer).length = liveCount buffer :=
  readFrom_length (by simp) _ _

theorem liveCount_le (buffer : Buffer) : liveCount buffer ≤ 10 := by
  unfold liveCount
  simp only [maxWriteOperationsSupported]
  split
  · exact Nat.le_refl _
  · omega

theorem loopContinues_iff {buffer : Buffer} {k : Nat} {cursor : Cursor}
    (formed : WellFormed buffer) (position : AtPosition buffer k cursor)
    (bound : k ≤ liveCount buffer) :
    loopContinues buffer cursor = true ↔ k < liveCount buffer := by
  have index := position.index
  have inSmall := formed.inOffs_small
  have outSmall := formed.outOffs_small
  have meets : cursor.i = buffer.inOffs ↔ cursor.i.toNat = buffer.inOffs.toNat :=
    UInt8.toNat_inj.symm
  simp only [loopContinues, Bool.or_eq_true, Bool.and_eq_true, bne_iff_ne, beq_iff_eq, ne_eq, meets]
  unfold liveCount at bound ⊢
  cases isFull : buffer.full with
  | true =>
    have meet := UInt8.toNat_inj.mpr (formed.full_meet isFull)
    simp only [isFull, ↓reduceIte, maxWriteOperationsSupported, true_and] at bound ⊢
    by_cases first : k = 0
    · simp only [position.fresh first, and_true]
      omega
    · simp only [position.spent (by omega) isFull, Bool.false_eq_true, and_false, or_false]
      omega
  | false =>
    simp only [isFull, Bool.false_eq_true, ↓reduceIte, maxWriteOperationsSupported, false_and,
      or_false] at bound ⊢
    omega

theorem atPosition_next {buffer : Buffer} {k : Nat} {cursor : Cursor}
    (formed : WellFormed buffer) (position : AtPosition buffer k cursor) (size : UInt64) :
    AtPosition buffer (k + 1) ⟨nextIndex cursor.i, cursor.accumulatedSize + size,
      if buffer.full && buffer.outOffs == buffer.inOffs then false else cursor.onceFlag⟩ where
  index := by
    rw [nextIndex_toNat, position.index]
    omega
  fresh := by intro impossible; omega
  spent := by
    intro _ isFull
    simp [isFull, formed.full_meet isFull]

theorem contents_slot {buffer : Buffer} {k : Nat} {entry : BufferEntry}
    (live : (contents buffer)[k]? = some entry) :
    buffer.entry.toList[(buffer.outOffs.toNat + k) % 10]? = some entry := by
  obtain ⟨inside, _⟩ := List.getElem?_eq_some_iff.mp live
  rw [contents_length] at inside
  have read := @readFrom_getElem? _ buffer.entry.toList (by simp) buffer.outOffs.toNat k
    (liveCount buffer) inside
  simp only [Vector.length_toList] at read
  rw [← read]
  exact live

theorem live_slot {buffer : Buffer} {history : List BufferEntry} {k : Nat} {entry : BufferEntry}
    (rep : Represents buffer history) (live : (lastN 10 history)[k]? = some entry) :
    buffer.entry.toList[(buffer.outOffs.toNat + k) % 10]? = some entry := by
  rw [← contents_window rep] at live
  exact contents_slot live

/-- The ring loop examines exactly the live entries, oldest first, and stops. -/
theorem searchFrom_eq_walk {buffer : Buffer} (formed : WellFormed buffer) (charOffset : UInt64)
    (rest : List BufferEntry) {k fuel : Nat} {cursor : Cursor}
    (suffix : (contents buffer).drop k = rest) (within : k ≤ liveCount buffer)
    (position : AtPosition buffer k cursor) (budget : rest.length < fuel) :
    searchFrom buffer charOffset fuel cursor =
      walk charOffset buffer.outOffs.toNat k cursor.accumulatedSize rest := by
  have total := contents_length buffer
  induction rest generalizing k fuel cursor with
  | nil =>
    obtain ⟨fuel, rfl⟩ := Nat.exists_eq_succ_of_ne_zero (by omega : fuel ≠ 0)
    have finished : (contents buffer).length ≤ k := List.drop_eq_nil_iff.mp suffix
    have stop : loopContinues buffer cursor = false := by
      rw [Bool.eq_false_iff, ne_eq, loopContinues_iff formed position within]
      omega
    simp [searchFrom, walk, stop]
  | cons entry rest ih =>
    obtain ⟨fuel, rfl⟩ := Nat.exists_eq_succ_of_ne_zero (by omega : fuel ≠ 0)
    have live : (contents buffer)[k]? = some entry := by
      have := congrArg List.head? suffix
      rwa [List.head?_drop, List.head?_cons] at this
    obtain ⟨inside, _⟩ := List.getElem?_eq_some_iff.mp live
    have go : loopContinues buffer cursor = true :=
      (loopContinues_iff formed position within).mpr (by omega)
    have slot := contents_slot live
    have suffixNext : (contents buffer).drop (k + 1) = rest := by
      rw [← List.tail_drop, suffix, List.tail_cons]
    have later := @ih (k + 1) fuel _ suffixNext (by omega)
      (atPosition_next formed position entry.size)
      (by simp only [List.length_cons] at budget; omega)
    simp only [searchFrom, go, ↓reduceIte, position.index, slot, walk, later]

theorem find_eq_walk_contents {buffer : Buffer} (formed : WellFormed buffer) (charOffset : UInt64)
    {fuel : Nat} (enough : 10 < fuel) :
    aesdCircularBufferFindEntryOffsetForFpos fuel buffer charOffset =
      walk charOffset buffer.outOffs.toNat 0 0 (contents buffer) := by
  have few := liveCount_le buffer
  have size := contents_length buffer
  exact searchFrom_eq_walk formed charOffset _ rfl (Nat.zero_le _)
    (atPosition_start buffer formed.outOffs_small) (by omega)

theorem find_eq_walk {buffer : Buffer} {history : List BufferEntry}
    (rep : Represents buffer history) (charOffset : UInt64) {fuel : Nat} (enough : 10 < fuel) :
    aesdCircularBufferFindEntryOffsetForFpos fuel buffer charOffset =
      walk charOffset buffer.outOffs.toNat 0 0 (lastN 10 history) := by
  rw [find_eq_walk_contents (represents_wellFormed rep) charOffset enough, contents_window rep]

def sizeMax : Nat := UInt64.size - 1

def sizes (entries : List BufferEntry) : List Nat := entries.map fun entry => entry.size.toNat

theorem test_iff {charOffset accumulated size : UInt64}
    (noWrap : charOffset.toNat < sizeMax) (fits : accumulated.toNat + size.toNat ≤ sizeMax)
    (passed : accumulated.toNat ≤ charOffset.toNat) :
    charOffset + 1 ≤ accumulated + size ↔ charOffset.toNat - accumulated.toNat < size.toNat := by
  simp only [sizeMax, UInt64.size] at noWrap fits
  simp only [UInt64.le_iff_toNat_le, UInt64.toNat_add, UInt64.reduceToNat]
  omega

theorem walk_eq_locate {charOffset : UInt64} (noWrap : charOffset.toNat < sizeMax) (start : Nat)
    (entries : List BufferEntry) {k : Nat} {accumulated : UInt64}
    (passed : accumulated.toNat ≤ charOffset.toNat)
    (fits : accumulated.toNat + (sizes entries).sum ≤ sizeMax) :
    (walk charOffset start k accumulated entries).outcome =
      match locate (sizes entries) (charOffset.toNat - accumulated.toNat) with
      | some (part, off) => .found ((start + (k + part)) % 10) (UInt64.ofNat off)
      | none => .absent := by
  induction entries generalizing k accumulated with
  | nil => rfl
  | cons entry rest ih =>
    simp only [sizes, List.map_cons, List.sum_cons] at fits
    have test := @test_iff _ _ entry.size noWrap (by omega) passed
    simp only [walk, sizes, List.map_cons, locate, test]
    split
    · have offset : charOffset - accumulated =
          UInt64.ofNat (charOffset.toNat - accumulated.toNat) := by
        rw [← UInt64.toNat_inj, UInt64.toNat_sub_of_le _ _ (UInt64.le_iff_toNat_le.mpr passed)]
        simp only [UInt64.toNat_ofNat']
        have := charOffset.toNat_lt
        omega
      simp [offset]
    · have sum : (accumulated + entry.size).toNat = accumulated.toNat + entry.size.toNat := by
        rw [UInt64.toNat_add]
        simp only [sizeMax, UInt64.size] at fits
        omega
      have later := @ih (k + 1) (accumulated + entry.size)
        (by omega) (by rw [sum]; simp only [sizes]; omega)
      rw [later, sum, ← Nat.sub_sub]
      simp only [sizes]
      cases locate (rest.map fun entry => entry.size.toNat)
          (charOffset.toNat - accumulated.toNat - entry.size.toNat) with
      | none => rfl
      | some found =>
        obtain ⟨part, off⟩ := found
        simp only [Option.map_some]
        rw [show k + 1 + part = k + (part + 1) by omega]

/-- Every position below the total size is found, in the slot of the entry that covers it. -/
theorem lookup_agrees_with_concatenation {calls : List AddCall} {buffer : Buffer}
    (run : addMachine.run aesdCircularBufferInit calls = some buffer) {charOffset : UInt64}
    (fits : (sizes (lastN 10 (acceptedEntries calls))).sum ≤ sizeMax)
    (inRange : charOffset.toNat < (sizes (lastN 10 (acceptedEntries calls))).sum)
    {fuel : Nat} (enough : 10 < fuel) :
    ∃ (k : Nat) (entry : BufferEntry) (off : UInt64),
      (aesdCircularBufferFindEntryOffsetForFpos fuel buffer charOffset).outcome =
        .found ((buffer.outOffs.toNat + k) % 10) off ∧
      buffer.entry.toList[(buffer.outOffs.toNat + k) % 10]? = some entry ∧
      (lastN 10 (acceptedEntries calls))[k]? = some entry ∧
      off.toNat < entry.size.toNat ∧
      (sizes ((lastN 10 (acceptedEntries calls)).take k)).sum + off.toNat = charOffset.toNat ∧
      ∀ payload : BufferEntry → List UInt8,
        (∀ e ∈ lastN 10 (acceptedEntries calls), (payload e).length = e.size.toNat) →
        ((lastN 10 (acceptedEntries calls)).flatMap payload)[charOffset.toNat]? =
          (payload entry)[off.toNat]? := by
  have rep := reached_represents run
  generalize window : lastN 10 (acceptedEntries calls) = entries at *
  obtain ⟨⟨k, off⟩, located⟩ :=
    Option.isSome_iff_exists.mp ((locate_isSome_iff (sizes entries) charOffset.toNat).mpr inRange)
  obtain ⟨size, sizeAt, bound, total⟩ := locate_spec located
  obtain ⟨entry, live, rfl⟩ : ∃ entry, entries[k]? = some entry ∧ entry.size.toNat = size := by
    simpa [sizes] using sizeAt
  have small : (UInt64.ofNat off).toNat = off := by
    have := entry.size.toNat_lt
    simp only [UInt64.toNat_ofNat']
    omega
  refine ⟨k, entry, UInt64.ofNat off, ?_, ?_, live, ?_, ?_, ?_⟩
  · rw [find_eq_walk rep charOffset enough, window]
    rw [walk_eq_locate (by omega) _ _ (by simp) (by simpa using fits)]
    simp [located]
  · rw [← window] at live
    exact live_slot rep live
  · rwa [small]
  · rw [small, ← total]
    simp [sizes, List.map_take]
  · intro payload lengths
    rw [small, List.flatMap_def]
    have inside : entry ∈ entries := List.mem_of_getElem? live
    have chosen : (entries.map payload)[k]? = some (payload entry) := by simp [live]
    apply flatten_at chosen (by rw [lengths entry inside]; exact bound)
    rw [← total, ← List.map_take, List.map_map, sizes, ← List.map_take]
    congr 1
    congr 1
    apply List.map_congr_left
    intro e member
    exact lengths e (List.mem_of_mem_take member)

def threeEntries : List AddCall :=
  [⟨false, some ⟨some 4096, 3⟩⟩, ⟨false, some ⟨some 8192, 0⟩⟩, ⟨false, some ⟨some 12288, 2⟩⟩]

theorem lookup_past_an_empty_entry :
    ∃ buffer, addMachine.run aesdCircularBufferInit threeEntries = some buffer ∧
      ∃ (k : Nat) (entry : BufferEntry) (off : UInt64),
        (aesdCircularBufferFindEntryOffsetForFpos 11 buffer 4).outcome =
          .found ((buffer.outOffs.toNat + k) % 10) off ∧
        (lastN 10 (acceptedEntries threeEntries))[k]? = some entry ∧
        (sizes ((lastN 10 (acceptedEntries threeEntries)).take k)).sum + off.toNat = 4 := by
  obtain ⟨buffer, run, _⟩ := run_represents threeEntries
  obtain ⟨k, entry, off, found, _, live, _, total, _⟩ :=
    @lookup_agrees_with_concatenation _ _ run 4 (by decide) (by decide) 11 (by decide)
  exact ⟨buffer, run, k, entry, off, found, live, total⟩

end AesdCircularBuffer
