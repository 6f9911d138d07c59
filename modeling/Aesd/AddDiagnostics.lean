import Aesd.CircularBuffer
import Aesd.TerminatedMemory

/-! The payload bytes that the diagnostics of add_entry read. The new entry is printed as a
    string, and each slot of the array, before the insertion and after it, by its size. -/
namespace AesdCircularBuffer
open TransitionRuns TerminatedMemory

def isprint (byte : UInt8) : Bool := 32 ≤ byte && byte ≤ 126

/-- A byte as it is, as a backslash and an n, or as a number in hexadecimal. -/
inductive Escaped where
  | plain (byte : UInt8)
  | newline
  | hex (value : UInt32)
  deriving DecidableEq, Repr

/-- A char is signed, so the cast to int extends its sign. -/
def escapeByte (byte : UInt8) : Escaped :=
  if isprint byte then .plain byte else if byte = 10 then .newline
  else .hex byte.toInt8.toInt32.toUInt32

example : escapeByte 128 = .hex 0xffffff80 := by decide

structure EscapedPrint where
  reads : List Nat
  text : List Escaped
  deriving DecidableEq, Repr

def escapesFrom (str : Nat → UInt8) : Nat → Nat → EscapedPrint
  | 0, _ => ⟨[], []⟩
  | left + 1, i =>
      let later := escapesFrom str left (i + 1)
      ⟨i :: later.reads, escapeByte (str i) :: later.text⟩

def printWithEscapes (str : Nat → UInt8) (len : Nat) : EscapedPrint := escapesFrom str len 0

/-- %s, and print_with_escapes with the size of the entry. -/
inductive PayloadPrint where
  | string (entry : BufferEntry)
  | escapes (entry : BufferEntry)
  deriving DecidableEq, Repr

def PayloadPrint.entry : PayloadPrint → BufferEntry
  | .string entry => entry
  | .escapes entry => entry

/-- The bytes that an entry points at, NULL being address 0. -/
def BufferEntry.pointee (entry : BufferEntry) (memory : Nat → UInt8) (i : Nat) : UInt8 :=
  memory (entry.buffptr.getD 0 + i)

def PayloadPrint.Reads (memory : Nat → UInt8) : PayloadPrint → Nat → Prop
  | .string entry, i => ScanReads 0 (entry.pointee memory) 0 i
  | .escapes entry, i => i ∈ (printWithEscapes (entry.pointee memory) entry.size.toNat).reads

def printCircularBuffer (buffer : Buffer) : List PayloadPrint :=
  buffer.entry.toList.map .escapes

/-- A rejection returns before the first of them. -/
def addDiagnostics (buffer : Option Buffer) (addEntry : Option BufferEntry) : List PayloadPrint :=
  match buffer, addEntry, aesdCircularBufferAddEntry buffer addEntry with
  | some before, some added, .stored after =>
      .string added :: (printCircularBuffer before ++ printCircularBuffer after)
  | some before, some added, .outOfArray _ => .string added :: printCircularBuffer before
  | _, _, _ => []

def AddCall.diagnostics (call : AddCall) (buffer : Buffer) : List PayloadPrint :=
  addDiagnostics (if call.bufferNull then none else some buffer) call.addEntry

def ReadsInside (memory : Nat → UInt8) (prints : List PayloadPrint) : Prop :=
  ∀ print ∈ prints, ∀ i, print.Reads memory i → i < print.entry.size.toNat

def TerminatedInside (memory : Nat → UInt8) (entry : BufferEntry) : Prop :=
  ∃ k, k < entry.size.toNat ∧ entry.pointee memory k = 0

theorem escapesFrom_eq (str : Nat → UInt8) (left i : Nat) :
    escapesFrom str left i = ⟨List.range' i left, (cellsAt str i left).map escapeByte⟩ := by
  induction left generalizing i with
  | zero => rfl
  | succ left ih => rw [escapesFrom, ih, cellsAt_succ, List.map_cons, List.range'_succ]

theorem printWithEscapes_eq (str : Nat → UInt8) (len : Nat) :
    printWithEscapes str len = ⟨List.range len, (cellsAt str 0 len).map escapeByte⟩ := by
  rw [printWithEscapes, escapesFrom_eq, List.range_eq_range']

theorem escapes_inside (memory : Nat → UInt8) (buffer : Buffer) :
    ReadsInside memory (printCircularBuffer buffer) := by
  intro print member i reads
  obtain ⟨entry, _, rfl⟩ := List.mem_map.mp member
  simp only [PayloadPrint.Reads, printWithEscapes_eq] at reads
  exact List.mem_range.mp reads

theorem string_inside_iff {memory : Nat → UInt8} {entry : BufferEntry} :
    (∀ i, PayloadPrint.Reads memory (.string entry) i → i < entry.size.toNat) ↔
      TerminatedInside memory entry := by
  unfold TerminatedInside PayloadPrint.Reads
  rw [scan_below_iff]
  simp

theorem readsInside_cons {memory : Nat → UInt8} {entry : BufferEntry} {later : List PayloadPrint}
    (rest : ReadsInside memory later) :
    ReadsInside memory (.string entry :: later) ↔ TerminatedInside memory entry := by
  rw [← string_inside_iff]
  constructor
  · intro inside
    exact inside _ List.mem_cons_self
  · intro here print member
    rcases List.mem_cons.mp member with rfl | member
    · exact here
    · exact rest print member

theorem readsInside_append {memory : Nat → UInt8} {first second : List PayloadPrint}
    (one : ReadsInside memory first) (two : ReadsInside memory second) :
    ReadsInside memory (first ++ second) := by
  intro print member
  rcases List.mem_append.mp member with member | member
  · exact one print member
  · exact two print member

theorem diagnostics_rejected {buffer : Buffer} {call : AddCall} {why : Rejection}
    (refused : call.perform buffer = .rejected why) : call.diagnostics buffer = [] := by
  unfold AddCall.perform at refused
  unfold AddCall.diagnostics addDiagnostics
  rw [refused]
  split
  · rename_i stored
    cases stored
  · rename_i outside
    cases outside
  · rfl

theorem diagnostics_stored {buffer after : Buffer} {call : AddCall} {entry : BufferEntry}
    (accepted : call.accepted = some entry) (stored : call.perform buffer = .stored after) :
    call.diagnostics buffer =
      .string entry :: (printCircularBuffer buffer ++ printCircularBuffer after) := by
  obtain ⟨bufferNull, addEntry⟩ := call
  cases bufferNull with
  | true => simp [AddCall.accepted] at accepted
  | false =>
    obtain ⟨given, _⟩ := Option.filter_eq_some_iff.mp accepted
    simp only at given
    subst given
    unfold AddCall.perform at stored
    unfold AddCall.diagnostics addDiagnostics
    rw [stored]
    rfl

/-- What an insertion prints stays inside of the payloads only if the new one has a NUL. -/
theorem diagnostics_inside_iff {calls : List AddCall} {buffer : Buffer}
    (run : addMachine.run aesdCircularBufferInit calls = some buffer) (memory : Nat → UInt8)
    (call : AddCall) :
    ReadsInside memory (call.diagnostics buffer) ↔
      ∀ entry, call.accepted = some entry → TerminatedInside memory entry := by
  have spec := perform_spec (reached_represents run) call
  cases accepted : call.accepted with
  | none =>
    simp only [accepted] at spec
    obtain ⟨why, refused⟩ := spec
    rw [diagnostics_rejected refused]
    constructor
    · intro _ entry impossible
      cases impossible
    · intro _ print member
      cases member
  | some entry =>
    simp only [accepted] at spec
    obtain ⟨after, stored, _⟩ := spec
    rw [diagnostics_stored accepted stored,
      readsInside_cons (readsInside_append (escapes_inside _ _) (escapes_inside _ _))]
    constructor
    · intro terminated other same
      obtain rfl := Option.some.inj same
      exact terminated
    · intro terminated
      exact terminated entry rfl

/-- Payloads of an entry that ends in a NUL, and of one that does not. -/
theorem terminated_payload_is_printed_inside :
    ReadsInside (fun _ => 0) (AddCall.diagnostics ⟨false, some ⟨some 4096, 3⟩⟩ aesdCircularBufferInit) ↔
      ∀ entry, AddCall.accepted ⟨false, some ⟨some 4096, 3⟩⟩ = some entry →
        TerminatedInside (fun _ => 0) entry :=
  @diagnostics_inside_iff [] aesdCircularBufferInit rfl (fun _ => 0) ⟨false, some ⟨some 4096, 3⟩⟩

theorem payload_without_nul_is_overrun :
    ¬ ReadsInside (fun _ => 97)
      (AddCall.diagnostics ⟨false, some ⟨some 4096, 3⟩⟩ aesdCircularBufferInit) := by
  intro inside
  have printed : PayloadPrint.string ⟨some 4096, 3⟩ ∈
      AddCall.diagnostics ⟨false, some ⟨some 4096, 3⟩⟩ aesdCircularBufferInit := by
    rw [@diagnostics_stored aesdCircularBufferInit _ ⟨false, some ⟨some 4096, 3⟩⟩ ⟨some 4096, 3⟩
      rfl rfl]
    exact List.mem_cons_self
  have terminated := string_inside_iff.mp (inside _ printed)
  obtain ⟨k, _, stops⟩ := terminated
  simp [BufferEntry.pointee] at stops

end AesdCircularBuffer
