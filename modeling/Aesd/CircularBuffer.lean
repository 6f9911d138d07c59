import Aesd.RingWindow
import Aesd.TransitionRuns

/-! The circular buffer of aesd-char-driver. Offsets are bytes and sizes 64-bit words,
    as in the structure; a payload pointer is an address, none standing for NULL.
    The prints around an insertion are left out here: they write nothing. They do read the
    payloads, see AddDiagnostics. -/
namespace AesdCircularBuffer
open RingWindow TransitionRuns

abbrev maxWriteOperationsSupported : Nat := 10

structure BufferEntry where
  buffptr : Option Nat
  size : UInt64
  deriving DecidableEq, Repr

structure Buffer where
  entry : Vector BufferEntry maxWriteOperationsSupported
  inOffs : UInt8
  outOffs : UInt8
  full : Bool
  deriving DecidableEq, Repr

def zeroEntry : BufferEntry := ⟨none, 0⟩

def aesdCircularBufferInit : Buffer :=
  ⟨Vector.replicate maxWriteOperationsSupported zeroEntry, 0, 0, false⟩

inductive Rejection where
  | nullParameter
  | nullBuffer
  | malformedOutOffs (outOffs : UInt8)
  | malformedInOffs (inOffs : UInt8)
  deriving DecidableEq, Repr

/-- What goes to stderr after the function name and line number. -/
def Rejection.text : Rejection → String
  | .nullParameter => "Error: Cannot accept a NULL parameter."
  | .nullBuffer => "Error: Entry to be added has NULL buffer.\n"
  | .malformedOutOffs outOffs => "Error: Malformed aesd_circular_buffer. out_offs = " ++
      toString outOffs ++ ", but max = " ++ toString maxWriteOperationsSupported
  | .malformedInOffs inOffs => "Error: Malformed aesd_circular_buffer. in_offs = " ++
      toString inOffs ++ ", but max = " ++ toString maxWriteOperationsSupported

/-- A rejection returns before the first store. outOfArray is a store to entry[slot] for
    a slot the array does not have, after which nothing is known about memory. -/
inductive AddResult where
  | rejected (why : Rejection)
  | stored (after : Buffer)
  | outOfArray (slot : Nat)
  deriving DecidableEq, Repr

def advance (offs : UInt8) : UInt8 := (offs + 1) % 10

def storeEntry (buffer : Buffer) (addEntry : BufferEntry) : AddResult :=
  if inside : buffer.inOffs.toNat < maxWriteOperationsSupported then
    let outOffs := if buffer.inOffs = buffer.outOffs ∧ buffer.full = true
      then advance buffer.outOffs else buffer.outOffs
    let inOffs := advance buffer.inOffs
    .stored ⟨buffer.entry.set buffer.inOffs.toNat addEntry inside, inOffs, outOffs,
      inOffs == outOffs⟩
  else .outOfArray buffer.inOffs.toNat

def aesdCircularBufferAddEntry (buffer : Option Buffer) (addEntry : Option BufferEntry) :
    AddResult :=
  match buffer, addEntry with
  | some buffer, some addEntry =>
    if addEntry.buffptr = none then .rejected .nullBuffer
    else if maxWriteOperationsSupported < buffer.outOffs.toNat then
      .rejected (.malformedOutOffs buffer.outOffs)
    else if maxWriteOperationsSupported < buffer.inOffs.toNat then
      .rejected (.malformedInOffs buffer.inOffs)
    else storeEntry buffer addEntry
  | _, _ => .rejected .nullParameter

/-- One call, on the buffer or on a NULL pointer in its place. -/
structure AddCall where
  bufferNull : Bool
  addEntry : Option BufferEntry
  deriving DecidableEq, Repr

def AddCall.perform (call : AddCall) (buffer : Buffer) : AddResult :=
  aesdCircularBufferAddEntry (if call.bufferNull then none else some buffer) call.addEntry

def AddResult.bufferAfter (before : Buffer) : AddResult → Option Buffer
  | .rejected _ => some before
  | .stored after => some after
  | .outOfArray _ => none

def addMachine : Machine Buffer AddCall := ⟨fun buffer call => (call.perform buffer).bufferAfter buffer⟩

def AddCall.accepted (call : AddCall) : Option BufferEntry :=
  if call.bufferNull then none else call.addEntry.filter (·.buffptr.isSome)

def acceptedEntries (calls : List AddCall) : List BufferEntry := calls.filterMap AddCall.accepted

def liveCount (buffer : Buffer) : Nat :=
  if buffer.full then maxWriteOperationsSupported
  else (buffer.inOffs.toNat + maxWriteOperationsSupported - buffer.outOffs.toNat) %
    maxWriteOperationsSupported

def contents (buffer : Buffer) : List BufferEntry :=
  readFrom buffer.entry.toList buffer.outOffs.toNat (liveCount buffer)

/-- The representation invariant. Both offsets and the flag are functions of the number
    of entries ever accepted, and a slot that was never written still holds zeros. -/
structure Represents (buffer : Buffer) (history : List BufferEntry) : Prop where
  inOffs_eq : buffer.inOffs.toNat = history.length % 10
  outOffs_eq : buffer.outOffs.toNat = (history.length - 10) % 10
  full_eq : buffer.full = decide (10 ≤ history.length)
  slots : Holds buffer.entry.toList history
  unused : ∀ j, history.length ≤ j → j < 10 → buffer.entry.toList[j]? = some zeroEntry

theorem advance_toNat {offs : UInt8} (small : offs.toNat < 10) :
    (advance offs).toNat = (offs.toNat + 1) % 10 := by
  simp only [advance, UInt8.toNat_mod, UInt8.toNat_add, UInt8.reduceToNat]
  omega

theorem init_represents : Represents aesdCircularBufferInit [] where
  inOffs_eq := rfl
  outOffs_eq := rfl
  full_eq := rfl
  slots := holds_empty _
  unused := by
    intro j _ bound
    simp [aesdCircularBufferInit, bound]

theorem inOffs_lt {buffer : Buffer} {history : List BufferEntry}
    (rep : Represents buffer history) : buffer.inOffs.toNat < 10 := by
  have := rep.inOffs_eq
  omega

theorem outOffs_lt {buffer : Buffer} {history : List BufferEntry}
    (rep : Represents buffer history) : buffer.outOffs.toNat < 10 := by
  have := rep.outOffs_eq
  omega

theorem offsets_meet_iff {buffer : Buffer} {history : List BufferEntry}
    (rep : Represents buffer history) :
    buffer.inOffs = buffer.outOffs ↔ history.length = 0 ∨ 10 ≤ history.length := by
  rw [← UInt8.toNat_inj, rep.inOffs_eq, rep.outOffs_eq]
  omega

theorem store_offsets {buffer : Buffer} {history : List BufferEntry}
    (rep : Represents buffer history) :
    (advance buffer.inOffs).toNat = (history.length + 1) % 10 ∧
      (if buffer.inOffs = buffer.outOffs ∧ buffer.full = true
        then advance buffer.outOffs else buffer.outOffs).toNat = (history.length + 1 - 10) % 10 := by
  have inEq := rep.inOffs_eq
  have outEq := rep.outOffs_eq
  constructor
  · rw [advance_toNat (inOffs_lt rep), inEq]
    omega
  · simp only [offsets_meet_iff rep, rep.full_eq, decide_eq_true_eq]
    split
    · rw [advance_toNat (outOffs_lt rep), outEq]
      omega
    · omega

theorem store_represents {buffer : Buffer} {history : List BufferEntry}
    (rep : Represents buffer history) (addEntry : BufferEntry) :
    ∃ after, storeEntry buffer addEntry = .stored after ∧
      Represents after (history ++ [addEntry]) := by
  have inside : buffer.inOffs.toNat < maxWriteOperationsSupported := inOffs_lt rep
  obtain ⟨inEq, outEq⟩ := store_offsets rep
  refine ⟨_, by rw [storeEntry, dif_pos inside], ?_⟩
  constructor
  · simpa using inEq
  · simpa using outEq
  · rw [Bool.eq_iff_iff, decide_eq_true_eq, beq_iff_eq, ← UInt8.toNat_inj, inEq, outEq]
    simp only [List.length_append, List.length_singleton]
    omega
  · have written := holds_write (x := addEntry) (by simp) rep.slots
    simpa [Vector.toList_set, rep.inOffs_eq] using written
  · intro j fresh bound
    simp only [List.length_append, List.length_singleton] at fresh
    have elsewhere : buffer.inOffs.toNat ≠ j := by
      have := rep.inOffs_eq
      omega
    rw [Vector.toList_set, List.getElem?_set_ne elsewhere]
    exact rep.unused j (by omega) bound

/-- One spec for both kinds of call. An accepted one appends to the history, any other
    one is rejected. -/
theorem perform_spec {buffer : Buffer} {history : List BufferEntry}
    (rep : Represents buffer history) (call : AddCall) :
    match call.accepted with
    | some addEntry => ∃ after, call.perform buffer = .stored after ∧
        Represents after (history ++ [addEntry])
    | none => ∃ why, call.perform buffer = .rejected why := by
  obtain ⟨bufferNull, addEntry⟩ := call
  have inSmall : ¬ maxWriteOperationsSupported < buffer.inOffs.toNat :=
    Nat.not_lt.mpr (Nat.le_of_lt (inOffs_lt rep))
  have outSmall : ¬ maxWriteOperationsSupported < buffer.outOffs.toNat :=
    Nat.not_lt.mpr (Nat.le_of_lt (outOffs_lt rep))
  cases bufferNull with
  | true => exact ⟨.nullParameter, rfl⟩
  | false =>
    cases addEntry with
    | none => exact ⟨.nullParameter, rfl⟩
    | some addEntry =>
      obtain ⟨buffptr, size⟩ := addEntry
      cases buffptr with
      | none => exact ⟨.nullBuffer, rfl⟩
      | some address =>
        have passes : AddCall.perform ⟨false, some ⟨some address, size⟩⟩ buffer =
            storeEntry buffer ⟨some address, size⟩ := by
          simp only [AddCall.perform, aesdCircularBufferAddEntry, Bool.false_eq_true,
            ↓reduceIte, reduceCtorEq, inSmall, outSmall]
        rw [passes]
        exact store_represents rep _

theorem step_represents {buffer after : Buffer} {past : List AddCall} {call : AddCall}
    (rep : Represents buffer (acceptedEntries past))
    (taken : addMachine.step buffer call = some after) :
    Represents after (acceptedEntries (past ++ [call])) := by
  have spec := perform_spec rep call
  simp only [addMachine] at taken
  rw [acceptedEntries, List.filterMap_append]
  cases accepted : call.accepted with
  | none =>
    simp only [accepted] at spec
    obtain ⟨why, result⟩ := spec
    rw [result] at taken
    cases taken
    simpa [accepted, acceptedEntries] using rep
  | some addEntry =>
    simp only [accepted] at spec
    obtain ⟨stored, result, repStored⟩ := spec
    rw [result] at taken
    cases taken
    simpa [accepted, acceptedEntries] using repStored

theorem run_represents (calls : List AddCall) :
    ∃ buffer, addMachine.run aesdCircularBufferInit calls = some buffer ∧
      Represents buffer (acceptedEntries calls) := by
  induction calls using List.reverseRecOn with
  | nil => exact ⟨_, rfl, init_represents⟩
  | append_singleton past call ih =>
    obtain ⟨buffer, run, rep⟩ := ih
    have defined : ∃ after, addMachine.step buffer call = some after := by
      have spec := perform_spec rep call
      cases accepted : call.accepted with
      | none =>
        simp only [accepted] at spec
        obtain ⟨why, result⟩ := spec
        exact ⟨buffer, by simp [addMachine, result, AddResult.bufferAfter]⟩
      | some addEntry =>
        simp only [accepted] at spec
        obtain ⟨stored, result, _⟩ := spec
        exact ⟨stored, by simp [addMachine, result, AddResult.bufferAfter]⟩
    obtain ⟨after, taken⟩ := defined
    exact ⟨after, run_snoc_iff.mpr ⟨buffer, run, taken⟩, step_represents rep taken⟩

theorem reached_represents {calls : List AddCall} {buffer : Buffer}
    (run : addMachine.run aesdCircularBufferInit calls = some buffer) :
    Represents buffer (acceptedEntries calls) := by
  obtain ⟨other, otherRun, rep⟩ := run_represents calls
  obtain rfl := Option.some.inj (otherRun.symm.trans run)
  exact rep

theorem liveCount_eq {buffer : Buffer} {history : List BufferEntry}
    (rep : Represents buffer history) : liveCount buffer = min history.length 10 := by
  have inEq := rep.inOffs_eq
  have outEq := rep.outOffs_eq
  simp only [liveCount, rep.full_eq, decide_eq_true_eq, inEq, outEq, maxWriteOperationsSupported]
  split <;> omega

theorem contents_window {buffer : Buffer} {history : List BufferEntry}
    (rep : Represents buffer history) : contents buffer = lastN 10 history := by
  have outEq := rep.outOffs_eq
  have oldest : buffer.outOffs.toNat % buffer.entry.toList.length =
      (history.length - buffer.entry.toList.length) % buffer.entry.toList.length := by
    simp [outEq]
  have window := readFrom_window rep.slots oldest
  rw [contents, liveCount_eq rep]
  simpa using window

/-- The buffer refines a bounded queue: after any calls, accepted or rejected, it holds
    exactly the newest ten accepted entries, oldest first. -/
theorem ring_refines_bounded_queue (calls : List AddCall) :
    ∃ buffer, addMachine.run aesdCircularBufferInit calls = some buffer ∧
      buffer.inOffs.toNat < 10 ∧ buffer.outOffs.toNat < 10 ∧
      (buffer.full = true ↔ 10 ≤ (acceptedEntries calls).length) ∧
      (buffer.full = true → buffer.inOffs = buffer.outOffs) ∧
      contents buffer = lastN 10 (acceptedEntries calls) ∧
      ∀ call : AddCall, call.accepted = none →
        (∃ why, call.perform buffer = .rejected why) ∧ addMachine.step buffer call = some buffer := by
  obtain ⟨buffer, run, rep⟩ := run_represents calls
  refine ⟨buffer, run, inOffs_lt rep, outOffs_lt rep, ?_, ?_, contents_window rep, ?_⟩
  · rw [rep.full_eq, decide_eq_true_eq]
  · intro isFull
    rw [rep.full_eq, decide_eq_true_eq] at isFull
    exact (offsets_meet_iff rep).mpr (Or.inr isFull)
  · intro call refused
    have spec := perform_spec rep call
    simp only [refused] at spec
    obtain ⟨why, result⟩ := spec
    exact ⟨⟨why, result⟩, by simp [addMachine, result, AddResult.bufferAfter]⟩

end AesdCircularBuffer
