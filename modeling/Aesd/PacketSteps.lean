import Aesd.PacketAppend

/-! handle_packet one system call at a time, from the moment it holds the file mutex to
    the moment it gives the mutex back. -/
namespace PacketSteps
open WriteAll PacketAppend

/-- The call that is made next; a loop of write_all is at its next write. -/
inductive PacketPhase where
  | writeMsg (loop : WriteLoop)
  | writeNewline (loop : WriteLoop)
  | rewind
  | read
  | echo (loop : WriteLoop)
  | seekEnd
  | unlock
  deriving DecidableEq, Repr

/-- sent holds the bytes the socket has taken for this packet. -/
structure PacketCall where
  phase : PacketPhase
  sent : List UInt8
  deriving DecidableEq, Repr

inductive PacketAnswer where
  | diskWrite (offer : Int)
  | socketWrite (offer : Int)
  | read (offer : Int)
  | seek (ok : Bool)
  deriving DecidableEq, Repr

inductive PacketNext where
  | goes (file : OpenFile) (call : PacketCall)
  | exits (status : Int)
  deriving DecidableEq, Repr

def beginNewline : PacketPhase := .writeNewline ⟨newlineArray, 0⟩

def beginPacket (msg : List UInt8) : PacketCall :=
  ⟨if msg = [] then beginNewline else .writeMsg ⟨msg, 0⟩, []⟩

def writeOn (loop : WriteLoop) (offer : Int) (more : WriteLoop → PacketPhase)
    (done failed : PacketPhase) : PacketPhase :=
  match loop.afterWrite offer with
  | none => failed
  | some next => if next.rest = [] then done else more next

def PacketCall.onAnswer (call : PacketCall) (file : OpenFile) (answer : PacketAnswer) :
    Option PacketNext :=
  match call.phase, answer with
  | .writeMsg loop, .diskWrite offer =>
      some (.goes (file.append (loop.accepted offer))
        ⟨writeOn loop offer .writeMsg beginNewline beginNewline, call.sent⟩)
  | .writeNewline loop, .diskWrite offer =>
      some (.goes (file.append (loop.accepted offer))
        ⟨writeOn loop offer .writeNewline .rewind .rewind, call.sent⟩)
  | .rewind, .seek ok =>
      if ok then some (.goes ⟨file.content, 0⟩ ⟨.read, call.sent⟩) else some (.exits 13)
  | .read, .read offer =>
      let numBytesRead := file.readReturns offer
      if numBytesRead ≤ 0 then some (.goes file ⟨.seekEnd, call.sent⟩)
      else
        let buffer := (file.content.drop file.offset).take numBytesRead.toNat
        some (.goes ⟨file.content, file.offset + numBytesRead.toNat⟩
          ⟨.echo ⟨buffer, 0⟩, call.sent⟩)
  | .echo loop, .socketWrite offer =>
      some (.goes file
        ⟨writeOn loop offer .echo .read .seekEnd, call.sent ++ loop.accepted offer⟩)
  | .seekEnd, .seek ok =>
      if ok then some (.goes ⟨file.content, file.content.length⟩ ⟨.unlock, call.sent⟩)
      else some (.exits 15)
  | _, _ => none

/-- Neither a write_all that gives up nor a read of the data file that fails. -/
def PacketCall.Undisturbed (call : PacketCall) (answer : PacketAnswer) : Prop :=
  match call.phase, answer with
  | .writeMsg loop, .diskWrite offer => loop.afterWrite offer ≠ none
  | .writeNewline loop, .diskWrite offer => loop.afterWrite offer ≠ none
  | .echo loop, .socketWrite offer => loop.afterWrite offer ≠ none
  | .read, .read offer => 0 < offer
  | _, _ => True

instance (call : PacketCall) (answer : PacketAnswer) : Decidable (call.Undisturbed answer) := by
  unfold PacketCall.Undisturbed
  split <;> infer_instance

/-- What the critical section keeps: the file is on its way to full, and what was sent is
    full up to the offset. -/
def PacketCall.Writing (call : PacketCall) (full : List UInt8) (file : OpenFile) : Prop :=
  match call.phase with
  | .writeMsg loop => file.content ++ (loop.rest ++ newlineArray) = full ∧ call.sent = []
  | .writeNewline loop => file.content ++ loop.rest = full ∧ call.sent = []
  | .rewind => file.content = full ∧ call.sent = []
  | .read => file.content = full ∧ call.sent = full.take file.offset
  | .echo loop => file.content = full ∧ call.sent ++ loop.rest = full.take file.offset
  | .seekEnd => file.content = full ∧ call.sent = full
  | .unlock => file.content = full ∧ call.sent = full

theorem begin_writing (msg : List UInt8) (file : OpenFile) :
    (beginPacket msg).Writing (file.content ++ (msg ++ newlineArray)) file := by
  unfold beginPacket
  split
  · rename_i empty
    simp [PacketCall.Writing, beginNewline, empty]
  · simp [PacketCall.Writing]

/-- While write_all does not give up, the phase after a write is decided by what is left. -/
theorem writeOn_cases {loop : WriteLoop} {offer : Int} (fine : loop.afterWrite offer ≠ none)
    (more : WriteLoop → PacketPhase) (done failed : PacketPhase) :
    (loop.accepted offer = loop.rest ∧ writeOn loop offer more done failed = done) ∨
      ∃ next, loop.accepted offer ++ next.rest = loop.rest ∧
        writeOn loop offer more done failed = more next := by
  unfold writeOn
  cases after : loop.afterWrite offer with
  | none => exact absurd after fine
  | some next =>
    have split := accepted_rest after
    by_cases empty : next.rest = []
    · left
      rw [empty, List.append_nil] at split
      exact ⟨split, by simp [empty]⟩
    · exact Or.inr ⟨next, split, by simp [empty]⟩

theorem read_extends {file : OpenFile} {offer : Int} {full : List UInt8}
    (content : file.content = full) (positive : 0 < offer) :
    (file.readReturns offer ≤ 0 → full.take file.offset = full) ∧
      full.take file.offset ++ (file.content.drop file.offset).take (file.readReturns offer).toNat =
        full.take (file.offset + (file.readReturns offer).toNat) := by
  subst content
  constructor
  · intro atEnd
    rw [OpenFile.readReturns, if_neg (by omega)] at atEnd
    exact List.take_of_length_le (by simp only [maxBufSize] at atEnd; omega)
  · rw [List.take_add]

theorem onAnswer_writing {call next : PacketCall} {file file' : OpenFile} {full : List UInt8}
    {answer : PacketAnswer} (writing : call.Writing full file) (fine : call.Undisturbed answer)
    (step : call.onAnswer file answer = some (.goes file' next)) : next.Writing full file' := by
  unfold PacketCall.onAnswer at step
  split at step
  · rename_i loop offer phase
    simp only [PacketCall.Writing, PacketCall.Undisturbed, phase] at writing fine
    obtain ⟨rfl, rfl⟩ := PacketNext.goes.inj (Option.some.inj step)
    rcases writeOn_cases fine .writeMsg beginNewline beginNewline with
      ⟨whole, after⟩ | ⟨rest, part, after⟩
    · rw [after]
      exact ⟨by rw [append_content, whole, List.append_assoc, writing.1], writing.2⟩
    · rw [after]
      refine ⟨?_, writing.2⟩
      rw [append_content, List.append_assoc, ← List.append_assoc _ rest.rest, part, writing.1]
  · rename_i loop offer phase
    simp only [PacketCall.Writing, PacketCall.Undisturbed, phase] at writing fine
    obtain ⟨rfl, rfl⟩ := PacketNext.goes.inj (Option.some.inj step)
    rcases writeOn_cases fine .writeNewline .rewind .rewind with
      ⟨whole, after⟩ | ⟨rest, part, after⟩
    · rw [after]
      exact ⟨by rw [append_content, whole, writing.1], writing.2⟩
    · rw [after]
      exact ⟨by rw [append_content, List.append_assoc, part, writing.1], writing.2⟩
  · rename_i ok phase
    simp only [PacketCall.Writing, phase] at writing
    split at step
    · obtain ⟨rfl, rfl⟩ := PacketNext.goes.inj (Option.some.inj step)
      exact ⟨writing.1, by rw [writing.2, List.take_zero]⟩
    · simp at step
  · rename_i offer phase
    simp only [PacketCall.Writing, PacketCall.Undisturbed, phase] at writing fine
    obtain ⟨atEnd, further⟩ := read_extends writing.1 fine
    simp only at step
    split at step
    · rename_i nothing
      obtain ⟨rfl, rfl⟩ := PacketNext.goes.inj (Option.some.inj step)
      exact ⟨writing.1, writing.2.trans (atEnd nothing)⟩
    · obtain ⟨rfl, rfl⟩ := PacketNext.goes.inj (Option.some.inj step)
      refine ⟨writing.1, ?_⟩
      rw [writing.2]
      exact further
  · rename_i loop offer phase
    simp only [PacketCall.Writing, PacketCall.Undisturbed, phase] at writing fine
    obtain ⟨rfl, rfl⟩ := PacketNext.goes.inj (Option.some.inj step)
    rcases writeOn_cases fine .echo .read .seekEnd with ⟨whole, after⟩ | ⟨rest, part, after⟩
    · rw [after]
      exact ⟨writing.1, by rw [whole, writing.2]⟩
    · rw [after]
      exact ⟨writing.1, by rw [List.append_assoc, part, writing.2]⟩
  · rename_i ok phase
    simp only [PacketCall.Writing, phase] at writing
    split at step
    · obtain ⟨rfl, rfl⟩ := PacketNext.goes.inj (Option.some.inj step)
      exact writing
    · simp at step
  · simp at step

theorem writing_content {call : PacketCall} {full : List UInt8} {file : OpenFile}
    (writing : call.Writing full file) : file.content <+: full := by
  unfold PacketCall.Writing at writing
  split at writing
  · exact ⟨_, writing.1⟩
  · exact ⟨_, writing.1⟩
  all_goals exact ⟨[], by rw [List.append_nil, writing.1]⟩

theorem writing_sent {call : PacketCall} {full : List UInt8} {file : OpenFile}
    (writing : call.Writing full file) : call.sent <+: full := by
  unfold PacketCall.Writing at writing
  split at writing
  · exact writing.2 ▸ List.nil_prefix
  · exact writing.2 ▸ List.nil_prefix
  · exact writing.2 ▸ List.nil_prefix
  · exact writing.2 ▸ List.take_prefix _ _
  · rename_i loop phase
    have upTo : call.sent <+: full.take file.offset := ⟨loop.rest, writing.2⟩
    exact upTo.trans (List.take_prefix _ _)
  · exact writing.2 ▸ List.prefix_rfl
  · exact writing.2 ▸ List.prefix_rfl

end PacketSteps
