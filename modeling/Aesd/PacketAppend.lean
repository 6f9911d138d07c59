import Mathlib.Data.List.Induction
import Aesd.WriteAll

/-! handle_packet as one caller sees it, the file mutex held throughout. Every system
    call answers from a schedule of its own, and a call without an answer leaves the
    packet pending. -/
namespace PacketAppend
open WriteAll

/-- The data file, opened with O_APPEND, and the offset of its one descriptor. -/
structure OpenFile where
  content : List UInt8
  offset : Nat
  deriving DecidableEq, Repr

/-- O_APPEND moves the offset to the end before bytes are written, and a write that
    accepts none leaves the file alone. -/
def OpenFile.append (file : OpenFile) (bytes : List UInt8) : OpenFile :=
  if bytes = [] then file
  else ⟨file.content ++ bytes, file.content.length + bytes.length⟩

@[simp] theorem append_content (file : OpenFile) (bytes : List UInt8) :
    (file.append bytes).content = file.content ++ bytes := by
  rw [OpenFile.append]
  split
  · rename_i empty
    simp [empty]
  · rfl

abbrev maxBufSize : Nat := 1024

/-- read on the data file: -1 on an offer that is not positive, else as many bytes as the
    offer, the buffer and the file allow, none of them at its end. -/
def OpenFile.readReturns (file : OpenFile) (offer : Int) : Int :=
  if offer ≤ 0 then -1
  else min offer (min maxBufSize (file.content.length - file.offset : Nat))

structure CopyReturn where
  code : Int
  sent : List UInt8
  file : OpenFile
  unused : List Int
  deriving DecidableEq, Repr

def duplicateDataAcrossFds : List Int → OpenFile → List Int → Option CopyReturn
  | [], _, _ => none
  | offer :: later, file, socket =>
      let numBytesRead := file.readReturns offer
      if numBytesRead ≤ 0 then some ⟨0, [], file, socket⟩
      else
        let buffer := (file.content.drop file.offset).take numBytesRead.toNat
        let moved := ⟨file.content, file.offset + numBytesRead.toNat⟩
        match writeAll buffer socket with
        | none => none
        | some ret =>
            if ret.code = -1 then some ⟨-1, ret.accepted, moved, ret.unused⟩
            else (duplicateDataAcrossFds later moved ret.unused).map fun copy =>
              ⟨copy.code, ret.accepted ++ copy.sent, copy.file, copy.unused⟩

inductive PacketEnd where
  | returned
  | exited (status : Int)
  deriving DecidableEq, Repr

structure PacketRun where
  file : OpenFile
  sent : List UInt8
  ending : PacketEnd
  deriving DecidableEq, Repr

/-- rewinds and seeks tell whether lseek to the start and to the end succeed. -/
def spitFileBackOutToSocket (file : OpenFile) (rewinds seeks : Bool) (reads socket : List Int) :
    Option PacketRun :=
  if rewinds then
    (duplicateDataAcrossFds reads ⟨file.content, 0⟩ socket).map fun copy =>
      if seeks then ⟨⟨copy.file.content, copy.file.content.length⟩, copy.sent, .returned⟩
      else ⟨copy.file, copy.sent, .exited 15⟩
  else some ⟨file, [], .exited 13⟩

structure Schedules where
  diskWrites : List Int
  rewinds : Bool
  reads : List Int
  socketWrites : List Int
  seeks : Bool
  deriving DecidableEq, Repr

def newlineArray : List UInt8 := [10]

def handlePacket (file : OpenFile) (msg : List UInt8) (answers : Schedules) : Option PacketRun :=
  match writeAll msg answers.diskWrites with
  | none => none
  | some record =>
    match writeAll newlineArray record.unused with
    | none => none
    | some ending =>
        spitFileBackOutToSocket ((file.append record.accepted).append ending.accepted)
          answers.rewinds answers.seeks answers.reads answers.socketWrites

theorem copy_keeps_content {reads : List Int} {file : OpenFile} {socket : List Int}
    {copy : CopyReturn} (run : duplicateDataAcrossFds reads file socket = some copy) :
    copy.file.content = file.content := by
  induction reads generalizing file socket copy with
  | nil => simp [duplicateDataAcrossFds] at run
  | cons offer later ih =>
    simp only [duplicateDataAcrossFds] at run
    split at run
    · obtain rfl := Option.some.inj run
      rfl
    · split at run
      · simp at run
      · split at run
        · obtain rfl := Option.some.inj run
          rfl
        · obtain ⟨rest, restRun, rfl⟩ := Option.map_eq_some_iff.mp run
          have kept := ih restRun
          exact kept

theorem spit_keeps_content {file : OpenFile} {rewinds seeks : Bool} {reads socket : List Int}
    {run : PacketRun} (spit : spitFileBackOutToSocket file rewinds seeks reads socket = some run) :
    run.file.content = file.content := by
  simp only [spitFileBackOutToSocket] at spit
  split at spit
  · obtain ⟨copy, copied, same⟩ := Option.map_eq_some_iff.mp spit
    have kept := copy_keeps_content copied
    split at same <;> (subst same; exact kept)
  · obtain rfl := Option.some.inj spit
    rfl

theorem handlePacket_content {file : OpenFile} {msg : List UInt8} {answers : Schedules}
    {run : PacketRun} (handled : handlePacket file msg answers = some run) :
    ∃ record ending, writeAll msg answers.diskWrites = some record ∧
      writeAll newlineArray record.unused = some ending ∧
      run.file.content = file.content ++ (record.accepted ++ ending.accepted) := by
  simp only [handlePacket] at handled
  split at handled
  · simp at handled
  · rename_i record first
    split at handled
    · simp at handled
    · rename_i ending second
      refine ⟨record, ending, first, second, ?_⟩
      rw [spit_keeps_content handled, append_content, append_content, List.append_assoc]

def AllOrNothing (file : OpenFile) (msg : List UInt8) (run : PacketRun) : Prop :=
  run.file.content = file.content ++ (msg ++ newlineArray) ∨ run.file.content = file.content

/-- The packet's last byte goes through before a 21st failing result, and then the newline
    before another 21 in a row. -/
def RecordWritten (len : Nat) (diskWrites : List Int) : Prop :=
  ∃ first second rest, diskWrites = first ++ (second ++ rest) ∧
    Completes len 0 first ∧ Completes 1 0 second

/-- Every result fails until both calls have given up. An empty packet has one call. -/
def NothingWritten (len : Nat) (diskWrites : List Int) : Prop :=
  ∃ failing rest, diskWrites = failing ++ rest ∧ (∀ offer ∈ failing, offer ≤ 0) ∧
    failing.length = if len = 0 then maxFailCount + 1 else 2 * (maxFailCount + 1)

theorem gained_zero_iff (offers : List Int) : gained offers = 0 ↔ ∀ offer ∈ offers, offer ≤ 0 := by
  induction offers with
  | nil => simp
  | cons offer later ih =>
    rw [gained_cons, List.forall_mem_cons, ← ih]
    omega

theorem failures_all {offers : List Int} (failing : ∀ offer ∈ offers, offer ≤ 0) :
    failures offers = offers.length := by
  rw [failures, List.filter_eq_self.mpr fun offer member => decide_eq_true (failing offer member)]

theorem givesUp_failing_iff {len : Nat} {offers : List Int} (positive : 0 < len) :
    (GivesUp len 0 offers ∧ gained offers = 0) ↔
      (∀ offer ∈ offers, offer ≤ 0) ∧ offers.length = maxFailCount + 1 := by
  constructor
  · rintro ⟨givesUp, nothing⟩
    have failing := (gained_zero_iff offers).mp nothing
    refine ⟨failing, ?_⟩
    have many := givesUp.many
    rw [failures_all failing] at many
    cases offers using List.reverseRecOn with
    | nil => simp at many
    | append_singleton front last =>
      have few := givesUp.minimal front [last] rfl (by simp)
      rw [failures_all fun offer member => failing offer (List.mem_append_left _ member)] at few
      simp only [List.length_append, List.length_singleton] at many ⊢
      omega
  · rintro ⟨failing, size⟩
    have nothing := (gained_zero_iff offers).mpr failing
    refine ⟨⟨?_, by omega, ?_⟩, nothing⟩
    · rw [failures_all failing]
      omega
    · rintro front back rfl more
      rw [failures_all fun offer member => failing offer (List.mem_append_left _ member)]
      have := List.length_pos_iff.mpr more
      simp only [List.length_append] at size
      omega

theorem completes_zero {fails : Nat} {offers : List Int} (completes : Completes 0 fails offers) :
    offers = [] := by
  by_contra more
  have := completes.minimal [] offers rfl more
  omega

theorem recordWritten_iff {msg : List UInt8} {diskWrites : List Int} {record ending : WriteReturn}
    (first : Outcome msg 0 diskWrites record) (second : Outcome newlineArray 0 record.unused ending) :
    RecordWritten msg.length diskWrites ↔ record.code = 0 ∧ ending.code = 0 := by
  constructor
  · rintro ⟨front, mid, rest, eq, completesFirst, completesSecond⟩
    cases first with
    | partway used code bytes split givesUp =>
      exact (completes_not_givesUp (eq.symm.trans split) completesFirst givesUp).elim
    | whole used code bytes split completes =>
      obtain ⟨rfl, remaining⟩ := completes_unique (eq.symm.trans split) completesFirst completes
      cases second with
      | partway used code bytes split givesUp =>
        exact (completes_not_givesUp (remaining.trans split) completesSecond givesUp).elim
      | whole used code' bytes split completes => exact ⟨code, code'⟩
  · rintro ⟨codeFirst, codeSecond⟩
    cases first with
    | partway used code => exact absurd (codeFirst.symm.trans code) (by decide)
    | whole used code bytes split completes =>
      cases second with
      | partway used' code => exact absurd (codeSecond.symm.trans code) (by decide)
      | whole used' code' bytes' split' completes' =>
        exact ⟨used, used', ending.unused, by rw [split, split'], completes, completes'⟩

theorem refused_of_failing {buf : List UInt8} {schedule failing rest : List Int} {ret : WriteReturn}
    (outcome : Outcome buf 0 schedule ret) (positive : 0 < buf.length)
    (split : schedule = failing ++ rest) (all : ∀ offer ∈ failing, offer ≤ 0)
    (size : failing.length = maxFailCount + 1) :
    ret.accepted = [] ∧ ret.code = -1 ∧ ret.unused = rest := by
  obtain ⟨givesUp, nothing⟩ := (givesUp_failing_iff positive).mpr ⟨all, size⟩
  cases outcome with
  | whole used code bytes parts completes =>
    exact (completes_not_givesUp (parts.symm.trans split) completes givesUp).elim
  | partway used code bytes parts givesUpUsed =>
    obtain ⟨rfl, remaining⟩ := givesUp_unique (parts.symm.trans split) givesUpUsed givesUp
    exact ⟨by rw [bytes, nothing, List.take_zero], code, remaining⟩

theorem failing_of_refused {buf : List UInt8} {schedule : List Int} {ret : WriteReturn}
    (outcome : Outcome buf 0 schedule ret) (positive : 0 < buf.length) (nothing : ret.accepted = []) :
    ∃ failing, schedule = failing ++ ret.unused ∧ (∀ offer ∈ failing, offer ≤ 0) ∧
      failing.length = maxFailCount + 1 := by
  cases outcome with
  | whole used code bytes split completes =>
    rw [nothing] at bytes
    simp [← bytes] at positive
  | partway used code bytes split givesUp =>
    have none_gained : gained used = 0 := by
      have size := congrArg List.length bytes
      have short := givesUp.short
      rw [nothing, List.length_take, List.length_nil] at size
      omega
    exact ⟨used, split, (givesUp_failing_iff positive).mp ⟨givesUp, none_gained⟩⟩

/-- The newline is handed over or not, there is no part of it. -/
theorem newline_outcome {schedule : List Int} {ending : WriteReturn}
    (outcome : Outcome newlineArray 0 schedule ending) :
    (ending.code = 0 ∧ ending.accepted = newlineArray) ∨
      (ending.code = -1 ∧ ending.accepted = []) := by
  cases outcome with
  | whole used code bytes => exact Or.inl ⟨code, bytes⟩
  | partway used code bytes split givesUp =>
    have short := givesUp.short
    simp only [newlineArray, List.length_singleton] at short
    exact Or.inr ⟨code, by rw [bytes, show gained used = 0 by omega, List.take_zero]⟩

theorem newline_refused_iff {schedule : List Int} {ending : WriteReturn}
    (outcome : Outcome newlineArray 0 schedule ending) :
    ending.code = -1 ↔ ending.accepted = [] := by
  rcases newline_outcome outcome with ⟨code, bytes⟩ | ⟨code, bytes⟩
  · simp [code, bytes, newlineArray]
  · simp [code, bytes]

theorem empty_record {buf : List UInt8} {schedule : List Int} {ret : WriteReturn}
    (outcome : Outcome buf 0 schedule ret) (empty : buf.length = 0) :
    ret.accepted = [] ∧ ret.unused = schedule := by
  cases outcome with
  | partway used code bytes split givesUp =>
    have short := givesUp.short
    omega
  | whole used code bytes split completes =>
    rw [empty] at completes
    obtain rfl := completes_zero completes
    exact ⟨by rw [bytes, List.length_eq_zero_iff.mp empty], split.symm⟩

theorem nothingWritten_iff {msg : List UInt8} {diskWrites : List Int} {record ending : WriteReturn}
    (first : Outcome msg 0 diskWrites record) (second : Outcome newlineArray 0 record.unused ending) :
    NothingWritten msg.length diskWrites ↔ record.accepted = [] ∧ ending.code = -1 := by
  have one : 0 < newlineArray.length := Nat.one_pos
  rw [newline_refused_iff second]
  by_cases empty : msg.length = 0
  · obtain ⟨nothing, all⟩ := empty_record first empty
    rw [all] at second
    simp only [NothingWritten, empty, ↓reduceIte, nothing, true_and]
    constructor
    · rintro ⟨failing, rest, split, failed, size⟩
      exact (refused_of_failing second one split failed size).1
    · intro refused
      obtain ⟨failing, split, failed, size⟩ := failing_of_refused second one refused
      exact ⟨failing, ending.unused, split, failed, size⟩
  · have positive : 0 < msg.length := by omega
    simp only [NothingWritten, empty, ↓reduceIte]
    constructor
    · rintro ⟨failing, rest, split, failed, size⟩
      rw [← List.take_append_drop (maxFailCount + 1) failing, List.append_assoc] at split
      obtain ⟨nothing, _, left⟩ := refused_of_failing first positive split
        (fun offer member => failed offer (List.mem_of_mem_take member))
        (by rw [List.length_take, size]; decide)
      obtain ⟨refused, _⟩ := refused_of_failing second one left
        (fun offer member => failed offer (List.mem_of_mem_drop member))
        (by rw [List.length_drop, size]; decide)
      exact ⟨nothing, refused⟩
    · rintro ⟨nothing, refused⟩
      obtain ⟨front, split, frontFailed, frontSize⟩ := failing_of_refused first positive nothing
      obtain ⟨back, rest, backFailed, backSize⟩ := failing_of_refused second one refused
      refine ⟨front ++ back, ending.unused, by rw [split, rest, List.append_assoc], ?_, ?_⟩
      · intro offer member
        rcases List.mem_append.mp member with left | right
        · exact frontFailed offer left
        · exact backFailed offer right
      · rw [List.length_append, frontSize, backSize, Nat.two_mul]

/-- Appending a packet leaves a whole record or nothing exactly when the disk lets the
    packet and the newline through, or refuses every single write. -/
theorem append_all_or_nothing_iff {file : OpenFile} {msg : List UInt8} {answers : Schedules}
    {run : PacketRun} (handled : handlePacket file msg answers = some run) :
    AllOrNothing file msg run ↔ RecordWritten msg.length answers.diskWrites ∨
      NothingWritten msg.length answers.diskWrites := by
  obtain ⟨record, ending, firstRun, secondRun, content⟩ := handlePacket_content handled
  have first := writeAll_outcome firstRun
  have second := writeAll_outcome secondRun
  rw [recordWritten_iff first second, nothingWritten_iff first second, AllOrNothing, content,
    List.append_cancel_left_eq, List.append_right_eq_self, List.append_eq_nil_iff]
  have newlineBytes := newline_outcome second
  cases first with
  | whole used code bytes split completes =>
    rcases newlineBytes with ⟨codeNl, bytesNl⟩ | ⟨codeNl, bytesNl⟩
    · simp [code, bytes, codeNl, bytesNl]
    · simp [code, bytes, codeNl, bytesNl, newlineArray]
  | partway used code bytes split givesUp =>
    have shorter : record.accepted.length < msg.length := by
      rw [bytes, List.length_take]
      have := givesUp.short
      omega
    have differs : record.accepted ++ ending.accepted ≠ msg ++ newlineArray := by
      intro same
      have size := congrArg List.length same
      rcases newlineBytes with ⟨_, bytesNl⟩ | ⟨_, bytesNl⟩ <;>
        simp only [bytesNl, List.length_append, newlineArray, List.length_singleton,
          List.length_nil] at size <;> omega
    rw [or_iff_right differs, or_iff_right (by simp [code])]
    rcases newlineBytes with ⟨codeNl, bytesNl⟩ | ⟨codeNl, bytesNl⟩
    · simp [codeNl, bytesNl, newlineArray]
    · simp [codeNl, bytesNl]

theorem short_writes_append_the_record :
    AllOrNothing ⟨[120], 1⟩ [97, 98] ⟨⟨[120, 97, 98, 10], 4⟩, [120, 97, 98, 10], .returned⟩ :=
  (@append_all_or_nothing_iff _ _ ⟨[1, -1, 1, 1], true, [1024, 1024], [1024], true⟩ _ rfl).mpr
    (Or.inl ⟨[1, -1, 1], [1], [], rfl,
      completes_cons (by decide) (completes_cons (by decide) (completes_cons (by decide)
        (completes_nil 1 (by decide)))),
      completes_cons (by decide) (completes_nil 0 (by decide))⟩)

theorem fragment_is_closed_by_a_newline :
    handlePacket ⟨[120], 1⟩ [97, 98]
      ⟨[1] ++ List.replicate 21 (-1) ++ [1], true, [1024, 1024], [1024], true⟩ =
        some ⟨⟨[120, 97, 10], 3⟩, [120, 97, 10], .returned⟩ ∧
      ¬ AllOrNothing ⟨[120], 1⟩ [97, 98] ⟨⟨[120, 97, 10], 3⟩, [120, 97, 10], .returned⟩ := by
  refine ⟨rfl, ?_⟩
  simp [AllOrNothing, newlineArray]

end PacketAppend
