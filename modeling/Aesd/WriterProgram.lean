import Aesd.TerminatedMemory

/-! The writer program. write is asked for the whole content_size in every cycle, also
    after a short write has moved content_string on. -/
namespace WriterProgram
open TerminatedMemory

abbrev maxStringSize : Nat := 1024 * 1024 * 100

structure WriteRequest where
  start : Nat
  count : Nat
  deriving DecidableEq, Repr

def WriteRequest.InString (request : WriteRequest) (content : List UInt8) : Prop :=
  request.start + request.count ≤ content.length

/-- bytes_written, and content_string as its distance from argv[2]. -/
structure WriterLoop where
  bytesWritten : Nat
  contentString : Nat
  deriving DecidableEq, Repr

/-- status is none while the program waits in write. -/
structure WriterRun where
  status : Option Int
  written : List UInt8
  requests : List WriteRequest
  deriving DecidableEq, Repr

def writeReturns (offer : Int) (requested : Nat) : Int :=
  if offer < 0 then -1 else min offer requested

def WriterLoop.advance (loop : WriterLoop) (count : Nat) : WriterLoop :=
  ⟨loop.bytesWritten + count, loop.contentString + count⟩

/-- A schedule lists what the calls of write could take at most, negative where one fails. -/
def writerLoop (memory : Nat → UInt8) (contentSize : Nat) : List Int → WriterLoop → WriterRun
  | [], loop =>
      if loop.bytesWritten < contentSize then
        ⟨none, [], [⟨loop.contentString, contentSize⟩]⟩
      else ⟨some 0, [], []⟩
  | offer :: later, loop =>
      if loop.bytesWritten < contentSize then
        let bytesWrittenThisCycle := writeReturns offer contentSize
        if bytesWrittenThisCycle = -1 then ⟨some 1, [], [⟨loop.contentString, contentSize⟩]⟩
        else
          let count := bytesWrittenThisCycle.toNat
          let run := writerLoop memory contentSize later (loop.advance count)
          ⟨run.status, cellsAt memory loop.contentString count ++ run.written,
            ⟨loop.contentString, contentSize⟩ :: run.requests⟩
      else ⟨some 0, [], []⟩

/-- main, with argv[2] at the start of memory. -/
def writerMain (argc : Int) (opened : Bool) (memory : Nat → UInt8) (schedule : List Int) :
    WriterRun :=
  if argc ≠ 3 then ⟨some 1, [], []⟩
  else if opened = false then ⟨some 1, [], []⟩
  else
    let contentSize := boundedLength 0 memory maxStringSize 0
    writerLoop memory contentSize schedule ⟨0, 0⟩

/-- The file was truncated by open, so it holds what the calls of write took. -/
structure StoresExactly (content : List UInt8) (run : WriterRun) : Prop where
  complete : run.status = some 0 → run.written = content
  inside : ∀ request ∈ run.requests, request.InString content

/-- The first write that does not return 0 fails, or takes the whole string. -/
def FirstWriteDecides (content : List UInt8) (schedule : List Int) : Prop :=
  ∀ offer, schedule.find? (· ≠ 0) = some offer → offer < 0 ∨ content.length ≤ offer

theorem writerLoop_done {memory : Nat → UInt8} {contentSize : Nat} (schedule : List Int)
    {loop : WriterLoop} (done : contentSize ≤ loop.bytesWritten) :
    writerLoop memory contentSize schedule loop = ⟨some 0, [], []⟩ := by
  have finished : ¬ loop.bytesWritten < contentSize := by omega
  cases schedule with
  | nil => rw [writerLoop, if_neg finished]
  | cons offer later => rw [writerLoop, if_neg finished]

/-- A cycle begins with a request for content_size bytes, whatever is left of them. -/
theorem writerLoop_requests {memory : Nat → UInt8} {contentSize : Nat} (schedule : List Int)
    {loop : WriterLoop} (more : loop.bytesWritten < contentSize) :
    ⟨loop.contentString, contentSize⟩ ∈ (writerLoop memory contentSize schedule loop).requests := by
  cases schedule with
  | nil => simp [writerLoop, more]
  | cons offer later =>
    simp only [writerLoop, more, ↓reduceIte]
    split <;> simp

theorem writerLoop_fails {memory : Nat → UInt8} {contentSize : Nat} {offer : Int}
    (later : List Int) {loop : WriterLoop} (more : loop.bytesWritten < contentSize)
    (fails : offer < 0) :
    writerLoop memory contentSize (offer :: later) loop =
      ⟨some 1, [], [⟨loop.contentString, contentSize⟩]⟩ := by
  have returned : writeReturns offer contentSize = -1 := by rw [writeReturns, if_pos fails]
  simp only [writerLoop, more, returned, ↓reduceIte]

theorem writerLoop_takes {memory : Nat → UInt8} {contentSize count : Nat} {offer : Int}
    (later : List Int) {loop : WriterLoop} (more : loop.bytesWritten < contentSize)
    (takes : 0 ≤ offer) (counted : count = (min offer contentSize).toNat) :
    writerLoop memory contentSize (offer :: later) loop =
      let run := writerLoop memory contentSize later (loop.advance count)
      ⟨run.status, cellsAt memory loop.contentString count ++ run.written,
        ⟨loop.contentString, contentSize⟩ :: run.requests⟩ := by
  have returned : writeReturns offer contentSize = min offer contentSize := by
    rw [writeReturns, if_neg (by omega)]
  have succeeds : min offer (contentSize : Int) ≠ -1 := by omega
  simp only [writerLoop, more, returned, succeeds, counted, ↓reduceIte]

theorem stores_after_nothing {content : List UInt8} {memory : Nat → UInt8} (later : List Int)
    (more : 0 < content.length) :
    StoresExactly content (writerLoop memory content.length (0 :: later) ⟨0, 0⟩) ↔
      StoresExactly content (writerLoop memory content.length later ⟨0, 0⟩) := by
  have counted : 0 = (min (0 : Int) content.length).toNat := by omega
  rw [writerLoop_takes later more (Int.le_refl 0) counted]
  constructor
  · intro stores
    constructor
    · exact stores.complete
    · intro request member
      exact stores.inside request (List.mem_cons_of_mem _ member)
  · intro stores
    constructor
    · exact stores.complete
    · intro request member
      rcases List.mem_cons.mp member with here | member
      · rw [here]
        exact Nat.le_of_eq (Nat.zero_add _)
      · exact stores.inside request member

theorem stores_after_whole {content : List UInt8} {memory : Nat → UInt8} {offer : Int}
    (later : List Int) (held : cellsAt memory 0 content.length = content)
    (more : 0 < content.length) (whole : content.length ≤ offer) :
    StoresExactly content (writerLoop memory content.length (offer :: later) ⟨0, 0⟩) := by
  have counted : content.length = (min offer content.length).toNat := by omega
  rw [writerLoop_takes later more (by omega) counted,
    writerLoop_done later (by simp [WriterLoop.advance])]
  constructor
  · intro _
    simpa using held
  · intro request member
    rw [List.mem_singleton.mp member]
    exact Nat.le_of_eq (Nat.zero_add _)

/-- After a short write the next request starts inside the string and ends behind it. -/
theorem short_write_spoils {content : List UInt8} {memory : Nat → UInt8} {offer : Int}
    (later : List Int) (gains : 0 < offer) (short : offer < content.length) :
    ¬ StoresExactly content (writerLoop memory content.length (offer :: later) ⟨0, 0⟩) := by
  intro stores
  have counted : offer.toNat = (min offer content.length).toNat := by omega
  rw [writerLoop_takes later (by simp only; omega) (Int.le_of_lt gains) counted] at stores
  have asked := @writerLoop_requests memory content.length later
    (WriterLoop.advance ⟨0, 0⟩ offer.toNat) (by simp only [WriterLoop.advance]; omega)
  have inside := stores.inside _ (List.mem_cons_of_mem _ asked)
  simp only [WriteRequest.InString, WriterLoop.advance] at inside
  omega

theorem decides_cons {content : List UInt8} {offer : Int} (later : List Int) (acts : offer ≠ 0) :
    FirstWriteDecides content (offer :: later) ↔ offer < 0 ∨ content.length ≤ offer := by
  unfold FirstWriteDecides
  rw [List.find?_cons_of_pos (by simpa using acts)]
  simp

theorem writerLoop_exact_iff {content : List UInt8} {memory : Nat → UInt8}
    (held : cellsAt memory 0 content.length = content) (more : 0 < content.length)
    (schedule : List Int) :
    StoresExactly content (writerLoop memory content.length schedule ⟨0, 0⟩) ↔
      FirstWriteDecides content schedule := by
  induction schedule with
  | nil =>
    simp only [writerLoop, more, ↓reduceIte]
    constructor
    · intro _ offer found
      simp at found
    · intro _
      exact ⟨by simp, by simp [WriteRequest.InString]⟩
  | cons offer later ih =>
    rcases Int.lt_trichotomy offer 0 with fails | zero | gains
    · rw [writerLoop_fails later more fails, decides_cons later (by omega)]
      constructor
      · intro _
        exact Or.inl fails
      · intro _
        exact ⟨by simp, by simp [WriteRequest.InString]⟩
    · subst zero
      have skip : FirstWriteDecides content (0 :: later) ↔ FirstWriteDecides content later := by
        simp [FirstWriteDecides]
      rw [skip, stores_after_nothing later more, ih]
    · rw [decides_cons later (by omega)]
      by_cases whole : content.length ≤ offer
      · exact ⟨fun _ => Or.inr whole, fun _ => stores_after_whole later held more whole⟩
      · have spoils := @short_write_spoils content memory offer later gains (by omega)
        exact ⟨fun stores => absurd stores spoils, by omega⟩

theorem empty_content_stored (memory : Nat → UInt8) (schedule : List Int) :
    StoresExactly [] (writerLoop memory 0 schedule ⟨0, 0⟩) := by
  rw [writerLoop_done schedule (Nat.le_refl 0)]
  exact ⟨fun _ => rfl, by simp⟩

theorem writer_stores_exactly_iff {content : List UInt8} (terminated : 0 ∉ content)
    (short : content.length < maxStringSize) (following : Nat → UInt8) (argc : Int)
    (opened : Bool) (schedule : List Int) :
    StoresExactly content
        (writerMain argc opened (laidOut (content ++ [0]) following) schedule) ↔
      (argc = 3 → opened = true → FirstWriteDecides content schedule) := by
  have refused : StoresExactly content ⟨some 1, [], []⟩ := ⟨by simp, by simp⟩
  unfold writerMain
  by_cases arguments : argc = 3
  case neg =>
    rw [if_pos arguments]
    exact ⟨fun _ here => absurd here arguments, fun _ => refused⟩
  rw [if_neg (by simpa using arguments)]
  cases opened with
  | false =>
    rw [if_pos rfl]
    exact ⟨fun _ _ here => by simp at here, fun _ => refused⟩
  | true =>
    have held : cellsAt (laidOut (content ++ [0]) following) 0 content.length = content := by
      rw [cellsAt_laidOut following (by simp), List.drop_zero, List.take_left]
    rw [if_neg (by simp)]
    simp only [boundedLength_string following terminated short]
    rcases Nat.eq_zero_or_pos content.length with empty | more
    · obtain rfl := List.eq_nil_of_length_eq_zero empty
      constructor
      · intro _ _ _ offer _
        simp only [List.length_nil]
        omega
      · intro _
        exact empty_content_stored _ schedule
    · rw [writerLoop_exact_iff held more schedule]
      exact ⟨fun decides _ _ => decides, fun decides => decides arguments trivial⟩

/-- A short write of the first byte: the next one takes the second byte and the NUL. -/
theorem short_write_stores_the_terminator :
    ¬ StoresExactly [97, 98] (writerMain 3 true (laidOut ([97, 98] ++ [0]) fun _ => 0) [1, 2]) := by
  intro stores
  have size := @boundedLength_string UInt8 _ 0 [97, 98] (fun _ => 0) (by decide) maxStringSize
    (by decide)
  simp only [writerMain, size] at stores
  have complete := stores.complete (by decide)
  revert complete
  decide

theorem writer_stores_after_whole_write :
    StoresExactly [97, 98] (writerMain 3 true (laidOut ([97, 98] ++ [0]) fun _ => 0) [0, 7]) ↔
      ((3 : Int) = 3 → true = true → FirstWriteDecides [97, 98] [0, 7]) :=
  writer_stores_exactly_iff (by decide) (by decide) (fun _ => 0) 3 true [0, 7]

end WriterProgram
