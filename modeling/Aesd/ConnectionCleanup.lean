import Aesd.DrainOutcome

/-! What handle_connection allocates, frees and closes, for every history of recv results.
    Memory is never short here, and handle_packet is taken to return. realloc moves the
    receive buffer and keeps it one block. -/
namespace ConnectionCleanup
open SeparatedSegments RecycledSegments TokenExtraction PacketDrain ReceiveLoop DrainOutcome

/-- Packets are numbered by the extraction that returned them. scans is a call of
    extract_token_and_consolidate_buffer, on NULL or on the receive buffer. -/
inductive CleanupEvent where
  | allocatesBuffer
  | scans (null : Bool) (len : Nat)
  | allocatesPacket (number : Nat)
  | freesPacket (number : Nat)
  | freesBuffer
  | closesSocket
  deriving DecidableEq, Repr

def drainEvents (alloc : Nat → Bool) (len : Nat) : Nat → Nat → List UInt8 → List CleanupEvent
  | 0, _, _ => []
  | fuel + 1, round, buf =>
      .scans false len ::
        match extractTokenAndConsolidateBuffer (alloc round) buf len with
        | some ⟨some _, moved⟩ =>
            .allocatesPacket round :: .freesPacket round ::
              drainEvents alloc len fuel (round + 1) moved
        | _ => []

def readEvents (junk : Nat → UInt8) (grows alloc : Nat → Bool) (fuel : Nat) :
    Nat → Receiving → List RecvResult → List CleanupEvent
  | _, _, [] => []
  | call, state, result :: later =>
      match onRecv junk (grows call) state result with
      | .again next => readEvents junk grows alloc fuel (call + 1) next later
      | .drain next => drainEvents alloc next.len fuel 0 next.buf
      | _ => []

/-- The end of handle_connection, with what read_until_stop_condition returned. free(NULL)
    does nothing, and an access outside the buffer ends the events. -/
def lastEvents (lastAlloc : Bool) (number : Nat) (fullMsg : Option (List UInt8)) (bufSize : Nat) :
    List CleanupEvent :=
  .scans fullMsg.isNone bufSize ::
    match extractTokenAndConsolidateBuffer lastAlloc (fullMsg.getD []) bufSize with
    | none => []
    | some extraction =>
        (if extraction.token.isSome then [.allocatesPacket number] else []) ++
          (if fullMsg.isSome then [.freesBuffer] else []) ++ [.closesSocket]

def connectionEvents (junk : Nat → UInt8) (grows alloc : Nat → Bool) (lastAlloc : Bool) (fuel : Nat)
    (results : List RecvResult) : List CleanupEvent :=
  let run := readUntilStopCondition junk grows alloc fuel 0 startReceiving results
  .allocatesBuffer :: (readEvents junk grows alloc fuel 0 startReceiving results ++
    match run.ending with
    | .returned fullMsg bufSize => lastEvents lastAlloc run.packets.length fullMsg bufSize
    | _ => [])

structure CleansUp (events : List CleanupEvent) : Prop where
  noNullScan : ∀ len, .scans true len ∈ events → len = 0
  buffer : events.count .freesBuffer = 1
  packets : ∀ number, .allocatesPacket number ∈ events → events.count (.freesPacket number) = 1
  socket : events.count .closesSocket = 1

structure History where
  full : List (List UInt8)
  stop : RecvResult
  deriving DecidableEq, Repr

structure History.Valid (history : History) : Prop where
  full : ∀ c ∈ history.full, c.length = bufChunkSize
  stop : ∀ bytes, history.stop = .data bytes → bytes.length < bufChunkSize

def History.results (history : History) : List RecvResult := history.full.map .data ++ [history.stop]

def HandlesCleanly (junk : Nat → UInt8) (history : History) : Prop :=
  ∃ fuel, CleansUp (connectionEvents junk (fun _ => true) (fun _ => true) true fuel history.results)

/-- The stop is no error. If it is the end of the stream, no line was received; if it is a
    short chunk, the lines of the message run out in the buffer. -/
def StopsWell (history : History) : Prop :=
  match history.stop with
  | .error => False
  | .data [] => newline ∉ history.full.flatten
  | .data (byte :: bytes) =>
      runsOut ((history.full.length + 1) * bufChunkSize)
        (segmentLengths newline (history.full.flatten ++ byte :: bytes)) = true

theorem read_full {junk : Nat → UInt8} (fuel call : Nat) {full : List (List UInt8)}
    (sizes : ∀ c ∈ full, c.length = bufChunkSize) {data : List UInt8} {state : Receiving}
    (held : Received data state) (stop : RecvResult) :
    ∃ later last, Received (data ++ full.flatten) last ∧
      readUntilStopCondition junk (fun _ => true) (fun _ => true) fuel call state
          (full.map .data ++ [stop]) =
        readUntilStopCondition junk (fun _ => true) (fun _ => true) fuel later last [stop] ∧
      readEvents junk (fun _ => true) (fun _ => true) fuel call state (full.map .data ++ [stop]) =
        readEvents junk (fun _ => true) (fun _ => true) fuel later last [stop] := by
  induction full generalizing data state call with
  | nil => exact ⟨call, state, by simpa using held, rfl, rfl⟩
  | cons c full ih =>
    rw [List.forall_mem_cons] at sizes
    obtain ⟨next, again, heldNext⟩ := onRecv_full junk held sizes.1
    obtain ⟨later, last, heldLast, run, events⟩ := ih (call + 1) sizes.2 heldNext
    rw [List.append_assoc, ← List.flatten_cons] at heldLast
    refine ⟨later, last, heldLast, ?_, ?_⟩
    · rw [← run]
      simp only [List.map_cons, List.cons_append, readUntilStopCondition, again]
    · rw [← events]
      simp only [List.map_cons, List.cons_append, readEvents, again]

theorem drainEvents_mem {alloc : Nat → Bool} {len fuel round : Nat} {buf : List UInt8}
    {event : CleanupEvent} (member : event ∈ drainEvents alloc len fuel round buf) :
    event = .scans false len ∨
      ∃ number, round ≤ number ∧ (event = .allocatesPacket number ∨ event = .freesPacket number) := by
  induction fuel generalizing round buf with
  | zero => simp [drainEvents] at member
  | succ fuel ih =>
    rw [drainEvents, List.mem_cons] at member
    rcases member with rfl | member
    · exact Or.inl rfl
    · split at member
      · rename_i token moved _
        rw [List.mem_cons, List.mem_cons] at member
        rcases member with rfl | rfl | member
        · exact Or.inr ⟨round, Nat.le_refl _, Or.inl rfl⟩
        · exact Or.inr ⟨round, Nat.le_refl _, Or.inr rfl⟩
        · rcases ih member with scan | ⟨number, later, packet⟩
          · exact Or.inl scan
          · exact Or.inr ⟨number, by omega, packet⟩
      · simp at member

/-- In the loop every packet is freed once, right after its packet was handled. -/
theorem drainEvents_packets {alloc : Nat → Bool} {len fuel round : Nat} {buf : List UInt8}
    {number : Nat} (member : .allocatesPacket number ∈ drainEvents alloc len fuel round buf) :
    (drainEvents alloc len fuel round buf).count (.freesPacket number) = 1 := by
  induction fuel generalizing round buf with
  | zero => simp [drainEvents] at member
  | succ fuel ih =>
    rw [drainEvents] at member ⊢
    split at member
    · rename_i token moved _
      simp only [List.mem_cons, reduceCtorEq, false_or, CleanupEvent.allocatesPacket.injEq] at member
      rcases member with rfl | member
      · have fresh : CleanupEvent.freesPacket number ∉ drainEvents alloc len fuel (number + 1) moved := by
          intro again
          rcases drainEvents_mem again with scan | ⟨other, later, packet⟩
          · simp at scan
          · simp only [reduceCtorEq, CleanupEvent.freesPacket.injEq, false_or] at packet
            omega
        simp [List.count_eq_zero_of_not_mem fresh]
      · have other : round ≠ number := by
          rcases drainEvents_mem member with scan | ⟨found, later, packet⟩
          · simp at scan
          · simp only [reduceCtorEq, CleanupEvent.allocatesPacket.injEq, or_false] at packet
            omega
        simp [other, ih member]
    · simp at member

theorem count_drainEvents {alloc : Nat → Bool} {len fuel round : Nat} {buf : List UInt8}
    {event : CleanupEvent} (outside : event = .freesBuffer ∨ event = .closesSocket) :
    (drainEvents alloc len fuel round buf).count event = 0 := by
  apply List.count_eq_zero_of_not_mem
  intro member
  rcases drainEvents_mem member with rfl | ⟨number, _, rfl | rfl⟩ <;> simp at outside

theorem count_readEvents {junk : Nat → UInt8} {grows alloc : Nat → Bool} {fuel call : Nat}
    {state : Receiving} {results : List RecvResult} {event : CleanupEvent}
    (outside : event = .freesBuffer ∨ event = .closesSocket) :
    (readEvents junk grows alloc fuel call state results).count event = 0 := by
  induction results generalizing call state with
  | nil => rfl
  | cons result later ih =>
    rw [readEvents]
    split
    · exact ih
    · exact count_drainEvents outside
    · rfl

theorem closes_iff_closed (junk : Nat → UInt8) (grows alloc : Nat → Bool) (lastAlloc : Bool)
    (fuel : Nat) (results : List RecvResult) :
    .closesSocket ∈ connectionEvents junk grows alloc lastAlloc fuel results ↔
      ∃ dropped, (handleConnection junk grows alloc lastAlloc fuel results).ending = .closed dropped := by
  have before : CleanupEvent.closesSocket ∉ readEvents junk grows alloc fuel 0 startReceiving results := by
    rw [← List.count_eq_zero]
    exact count_readEvents (Or.inr rfl)
  simp only [connectionEvents, handleConnection, List.mem_cons, List.mem_append, reduceCtorEq,
    false_or, before]
  split
  · rename_i fullMsg bufSize ended
    simp only [ended, lastEvents, List.mem_cons, reduceCtorEq, false_or]
    split <;> simp [*]
  · rename_i other
    simp only [List.not_mem_nil, false_iff, not_exists]
    split <;> simp_all

theorem drain_finished {len fuel round : Nat} {buf rest : List UInt8} (whole : buf.length = len)
    (ended : (drainLoop (fun _ => true) len fuel round buf).ending = .finished rest) :
    newline ∉ rest ∧ rest.length = len := by
  induction fuel generalizing round buf with
  | zero => simp [drainLoop] at ended
  | succ fuel ih =>
    cases lines : segmentLengths newline buf with
    | nil =>
      have free := no_newline_of_lengths lines
      subst whole
      rw [drain_stops free] at ended
      cases ended
      exact ⟨free, rfl⟩
    | cons first later =>
      obtain ⟨⟨token, moved, taken, size, _⟩, _⟩ := extract_next whole lines
      simp only [drainLoop, taken] at ended
      exact ih size ended

theorem lastEvents_clean {number : Nat} {buf : List UInt8} (free : newline ∉ buf) :
    lastEvents true number (some buf) buf.length =
      [.scans false buf.length, .freesBuffer, .closesSocket] := by
  rw [lastEvents, Option.getD_some, extract_free free]
  rfl

/-- A line that is still in the buffer is copied out and dropped. -/
theorem lastEvents_dirty {number : Nat} {buf : List UInt8} (line : newline ∈ buf) :
    lastEvents true number (some buf) buf.length =
      [.scans false buf.length, .allocatesPacket number, .freesBuffer, .closesSocket] := by
  obtain ⟨front, rest, rfl, free⟩ := List.eq_append_cons_of_mem line
  rw [lastEvents, Option.getD_some, extract_line free]
  rfl

theorem lastEvents_null {number bufSize : Nat} (positive : 0 < bufSize) :
    lastEvents true number none bufSize = [.scans true bufSize] := by
  obtain ⟨left, rfl⟩ := Nat.exists_eq_succ_of_ne_zero (Nat.ne_of_gt positive)
  rfl

section Stops
variable {junk : Nat → UInt8} {history : History}

theorem full_length {full : List (List UInt8)} (sizes : ∀ c ∈ full, c.length = bufChunkSize) :
    full.flatten.length = full.length * bufChunkSize := by
  induction full with
  | nil => simp
  | cons c full ih =>
    rw [List.forall_mem_cons] at sizes
    rw [List.flatten_cons, List.length_append, sizes.1, ih sizes.2, List.length_cons, Nat.succ_mul,
      Nat.add_comm]

/-- The events of a history are those of its last recv, on all bytes received before. -/
theorem events_of_stop (junk : Nat → UInt8) (fuel : Nat) (valid : history.Valid) :
    ∃ call state, Received history.full.flatten state ∧
      connectionEvents junk (fun _ => true) (fun _ => true) true fuel history.results =
        (let run := readUntilStopCondition junk (fun _ => true) (fun _ => true) fuel call state
          [history.stop]
         .allocatesBuffer ::
          (readEvents junk (fun _ => true) (fun _ => true) fuel call state [history.stop] ++
            match run.ending with
            | .returned fullMsg bufSize => lastEvents true run.packets.length fullMsg bufSize
            | _ => [])) := by
  obtain ⟨call, state, held, run, events⟩ :=
    @read_full junk fuel 0 history.full valid.full [] startReceiving received_start history.stop
  rw [List.nil_append] at held
  refine ⟨call, state, held, ?_⟩
  rw [connectionEvents, History.results, run, events]

theorem not_clean_after_error (valid : history.Valid) (stop : history.stop = .error) :
    ¬ HandlesCleanly junk history := by
  rintro ⟨fuel, clean⟩
  obtain ⟨call, state, held, events⟩ := events_of_stop junk fuel valid
  have positive : 0 < state.len := by
    rw [held.len_eq]
    exact Nat.add_pos_right _ (by decide)
  have null := clean.noNullScan state.len (by
    rw [events, stop]
    simp [readUntilStopCondition, readEvents, onRecv, lastEvents_null positive])
  omega

theorem clean_after_end_iff (valid : history.Valid) (stop : history.stop = .data []) :
    HandlesCleanly junk history ↔ newline ∉ history.full.flatten := by
  have result : ∀ fuel, connectionEvents junk (fun _ => true) (fun _ => true) true fuel history.results =
      .allocatesBuffer :: lastEvents true 0 (some (history.full.flatten ++ zeros bufChunkSize))
        (history.full.flatten ++ zeros bufChunkSize).length := by
    intro fuel
    obtain ⟨call, state, held, events⟩ := events_of_stop junk fuel valid
    rw [events, stop]
    simp only [readUntilStopCondition, readEvents, onRecv_shutdown held, List.nil_append,
      List.length_nil, held.len_eq, List.length_append, zeros_length]
  constructor
  · rintro ⟨fuel, clean⟩ line
    rw [result, lastEvents_dirty (List.mem_append_left _ line)] at clean
    have once := clean.packets 0 (by simp)
    simp at once
  · intro free
    have clean : newline ∉ history.full.flatten ++ zeros bufChunkSize := by
      simp [free, zeros_free]
    refine ⟨0, ?_⟩
    rw [result, lastEvents_clean clean]
    constructor <;> simp

def shortEvents (len fuel : Nat) (message : List UInt8) : List CleanupEvent :=
  let run := afterDrain len (drainLoop (fun _ => true) len fuel 0 (padded len message))
  .allocatesBuffer :: (drainEvents (fun _ => true) len fuel 0 (padded len message) ++
    match run.ending with
    | .returned fullMsg bufSize => lastEvents true run.packets.length fullMsg bufSize
    | _ => [])

theorem events_after_short (junk : Nat → UInt8) (fuel : Nat) (valid : history.Valid)
    {bytes : List UInt8} (some_bytes : bytes ≠ []) (stop : history.stop = .data bytes) :
    connectionEvents junk (fun _ => true) (fun _ => true) true fuel history.results =
      shortEvents ((history.full.length + 1) * bufChunkSize) fuel (history.full.flatten ++ bytes) := by
  obtain ⟨call, state, held, events⟩ := events_of_stop junk fuel valid
  have step := onRecv_short junk true held (valid.stop bytes stop) some_bytes
  have len : state.len = (history.full.length + 1) * bufChunkSize := by
    rw [held.len_eq, full_length valid.full, Nat.succ_mul]
  have pad : history.full.flatten ++ bytes ++ zeros (bufChunkSize - bytes.length) =
      padded state.len (history.full.flatten ++ bytes) := by
    rw [padded, held.len_eq, List.length_append, Nat.add_sub_add_left]
  rw [pad] at step
  rw [events, stop, shortEvents, ← len]
  simp only [readUntilStopCondition, readEvents, step]

theorem short_unclean {len : Nat} {message : List UInt8} (room : message.length < len)
    (stuck : runsOut len (segmentLengths newline message) = false) (fuel : Nat) :
    ¬ CleansUp (shortEvents len fuel message) := by
  intro clean
  have never := unfinished_of_not_runsOut stuck (padded_length room) (padded_lengths len message)
    fuel 0
  have socket := clean.socket
  simp [shortEvents, afterDrain, never, count_drainEvents] at socket

theorem short_clean {len : Nat} {message : List UInt8} (room : message.length < len)
    (out : runsOut len (segmentLengths newline message) = true) :
    ∃ fuel, CleansUp (shortEvents len fuel message) := by
  obtain ⟨fuel, rest, ended⟩ := ends_of_runsOut out (fun _ => true) 0 (padded_length room)
    (padded_lengths len message)
  obtain ⟨free, size⟩ := drain_finished (padded_length room) ended
  have all : shortEvents len fuel message = .allocatesBuffer ::
      (drainEvents (fun _ => true) len fuel 0 (padded len message) ++
        [.scans false len, .freesBuffer, .closesSocket]) := by
    simp only [shortEvents, afterDrain, ended]
    rw [← size, lastEvents_clean free]
  refine ⟨fuel, ?_⟩
  rw [all]
  constructor
  · intro count member
    simp only [List.mem_cons, reduceCtorEq, List.mem_append, CleanupEvent.scans.injEq,
      Bool.true_eq_false, false_and, List.not_mem_nil, or_false, false_or] at member
    rcases drainEvents_mem member with scan | ⟨number, _, packet⟩
    · simp at scan
    · simp at packet
  · simp [count_drainEvents]
  · intro number member
    simp only [List.mem_cons, reduceCtorEq, List.mem_append, List.not_mem_nil, or_false,
      false_or] at member
    simp [drainEvents_packets member]
  · simp [count_drainEvents]

theorem clean_after_short_iff (valid : history.Valid) {byte : UInt8} {bytes : List UInt8}
    (stop : history.stop = .data (byte :: bytes)) :
    HandlesCleanly junk history ↔ runsOut ((history.full.length + 1) * bufChunkSize)
      (segmentLengths newline (history.full.flatten ++ byte :: bytes)) = true := by
  have room : (history.full.flatten ++ byte :: bytes).length <
      (history.full.length + 1) * bufChunkSize := by
    have short := valid.stop _ stop
    rw [List.length_append, full_length valid.full, Nat.succ_mul]
    omega
  have result := fun fuel =>
    events_after_short junk fuel valid (List.cons_ne_nil byte bytes) stop
  simp only [HandlesCleanly, result]
  constructor
  · rintro ⟨fuel, clean⟩
    by_contra stuck
    rw [Bool.not_eq_true] at stuck
    exact short_unclean room stuck fuel clean
  · intro out
    exact short_clean room out

/-- Which histories handle_connection cleans up after. A recv that fails makes it scan
    NULL, a line received before the end of the stream is copied and never freed, and in a
    clogged buffer the loop never gets to the end of the function. -/
theorem handles_cleanly_iff (junk : Nat → UInt8) (valid : history.Valid) :
    HandlesCleanly junk history ↔ StopsWell history := by
  unfold StopsWell
  split
  · rename_i stop
    exact iff_of_false (not_clean_after_error valid stop) id
  · rename_i stop
    exact clean_after_end_iff valid stop
  · rename_i byte bytes stop
    exact clean_after_short_iff valid stop

end Stops

theorem one_line_is_cleaned_up : HandlesCleanly (fun _ => 0) ⟨[], .data [97, 10]⟩ := by
  have valid : History.Valid ⟨[], .data [97, 10]⟩ := by
    constructor
    · simp
    · rintro bytes same
      cases same
      decide
  refine (handles_cleanly_iff (fun _ => 0) valid).mpr ?_
  change runsOut _ [1] = true
  rw [runsOut]

theorem failed_recv_scans_null :
    History.Valid ⟨[], .error⟩ ∧ ¬ HandlesCleanly (fun _ => 0) ⟨[], .error⟩ := by
  have valid : History.Valid ⟨[], .error⟩ := ⟨by simp, by simp⟩
  exact ⟨valid, not_clean_after_error valid rfl⟩

end ConnectionCleanup
