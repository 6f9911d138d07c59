import Aesd.PacketDrain

/-! One connection from its first recv to close. The results of recv come as a list, and
    a run that outlives the list is left waiting in recv. realloc leaves unknown bytes
    behind the old ones, given by junk. -/
namespace ReceiveLoop
open SeparatedSegments TokenExtraction PacketDrain

abbrev bufChunkSize : Nat := 1024

/-- The result of recv, -1 or the bytes stored at the pointer; no bytes is the result 0. -/
inductive RecvResult where
  | error
  | data (bytes : List UInt8)
  deriving DecidableEq, Repr

structure Receiving where
  buf : List UInt8
  index : Nat
  len : Nat
  deriving DecidableEq, Repr

inductive ReceiveNext where
  | again (state : Receiving)
  | drain (state : Receiving)
  | returned (buf : Option (List UInt8)) (len : Nat)
  | exited
  | fault
  deriving DecidableEq, Repr

def zeros (count : Nat) : List UInt8 := List.replicate count nul

def startReceiving : Receiving := ⟨zeros bufChunkSize, 0, bufChunkSize⟩

/-- Stores bytes from buf[index] on, none when they do not fit the allocation. -/
def storeAt (buf : List UInt8) (index : Nat) (bytes : List UInt8) : Option (List UInt8) :=
  if index + bytes.length ≤ buf.length then
    some (buf.take index ++ bytes ++ buf.drop (index + bytes.length))
  else none

/-- realloc to one more chunk, and memset of one chunk from index on. -/
def growBuffer (junk : Nat → UInt8) (allocOk : Bool) (state : Receiving)
    (next : Receiving → ReceiveNext) : ReceiveNext :=
  if allocOk then
    match storeAt (state.buf ++ (List.range bufChunkSize).map junk) state.index
        (zeros bufChunkSize) with
    | none => .fault
    | some buf => next ⟨buf, state.index, state.len + bufChunkSize⟩
  else .exited

def onRecv (junk : Nat → UInt8) (allocOk : Bool) (state : Receiving) : RecvResult → ReceiveNext
  | .error => .returned none state.len
  | .data bytes =>
      match storeAt state.buf state.index bytes with
      | none => .fault
      | some buf =>
        if bytes.length = bufChunkSize then
          growBuffer junk allocOk ⟨buf, state.index + bytes.length, state.len⟩ .again
        else if bytes.length = 0 then .returned (some buf) state.len
        else if state.len ≤ bytes.length + state.index then
          growBuffer junk allocOk ⟨buf, state.index + bytes.length, state.len⟩ .drain
        else .drain ⟨buf, state.index, state.len⟩

inductive ReadEnd where
  | returned (buf : Option (List UInt8)) (len : Nat)
  | exited
  | fault
  | waiting
  | unfinished
  deriving DecidableEq, Repr

structure ReadRun where
  packets : List (List UInt8)
  ending : ReadEnd
  deriving DecidableEq, Repr

def afterDrain (len : Nat) (run : Drain) : ReadRun :=
  match run.ending with
  | .finished buf => ⟨run.packets, .returned (some buf) len⟩
  | .fault => ⟨run.packets, .fault⟩
  | .unfinished => ⟨run.packets, .unfinished⟩

/-- grows tells for each recv whether a realloc after it succeeds, alloc for each round
    of the drain whether its calloc does, and fuel bounds those rounds. -/
def readUntilStopCondition (junk : Nat → UInt8) (grows alloc : Nat → Bool) (fuel : Nat) :
    Nat → Receiving → List RecvResult → ReadRun
  | _, _, [] => ⟨[], .waiting⟩
  | call, state, result :: later =>
      match onRecv junk (grows call) state result with
      | .again next => readUntilStopCondition junk grows alloc fuel (call + 1) next later
      | .drain next => afterDrain next.len (drainLoop alloc next.len fuel 0 next.buf)
      | .returned buf len => ⟨[], .returned buf len⟩
      | .exited => ⟨[], .exited⟩
      | .fault => ⟨[], .fault⟩

/-- closed carries the token of the last extraction, which nothing uses or frees. -/
inductive ConnectionEnd where
  | closed (dropped : Option (List UInt8))
  | exited
  | fault
  | waiting
  | unfinished
  deriving DecidableEq, Repr

structure ConnectionRun where
  packets : List (List UInt8)
  ending : ConnectionEnd
  deriving DecidableEq, Repr

def handleConnection (junk : Nat → UInt8) (grows alloc : Nat → Bool) (lastAlloc : Bool)
    (fuel : Nat) (results : List RecvResult) : ConnectionRun :=
  let run := readUntilStopCondition junk grows alloc fuel 0 startReceiving results
  match run.ending with
  | .returned fullMsg bufSize =>
      match extractTokenAndConsolidateBuffer lastAlloc (fullMsg.getD []) bufSize with
      | none => ⟨run.packets, .fault⟩
      | some extraction => ⟨run.packets, .closed extraction.token⟩
  | .exited => ⟨run.packets, .exited⟩
  | .fault => ⟨run.packets, .fault⟩
  | .waiting => ⟨run.packets, .waiting⟩
  | .unfinished => ⟨run.packets, .unfinished⟩

/-- The receive invariant: all bytes received so far, then one zeroed chunk. -/
structure Received (data : List UInt8) (state : Receiving) : Prop where
  buf_eq : state.buf = data ++ zeros bufChunkSize
  index_eq : state.index = data.length
  len_eq : state.len = data.length + bufChunkSize

theorem received_start : Received [] startReceiving := ⟨rfl, rfl, rfl⟩

@[simp] theorem zeros_length (count : Nat) : (zeros count).length = count := by simp [zeros]

theorem received_length {data : List UInt8} {state : Receiving} (held : Received data state) :
    state.buf.length = state.len := by
  rw [held.buf_eq, held.len_eq, List.length_append, zeros_length]

theorem storeAt_end {data bytes rest : List UInt8} (fits : bytes.length ≤ rest.length) :
    storeAt (data ++ rest) data.length bytes = some (data ++ bytes ++ rest.drop bytes.length) := by
  rw [storeAt, if_pos (by rw [List.length_append]; omega)]
  simp

theorem store_received {data : List UInt8} {state : Receiving} (held : Received data state)
    {bytes : List UInt8} (fits : bytes.length ≤ bufChunkSize) :
    storeAt state.buf state.index bytes =
      some (data ++ bytes ++ zeros (bufChunkSize - bytes.length)) := by
  rw [held.buf_eq, held.index_eq, storeAt_end (by simpa using fits)]
  simp [zeros]

theorem onRecv_full (junk : Nat → UInt8) {data bytes : List UInt8} {state : Receiving}
    (held : Received data state) (full : bytes.length = bufChunkSize) :
    ∃ next, onRecv junk true state (.data bytes) = .again next ∧ Received (data ++ bytes) next := by
  have stored := store_received held (Nat.le_of_eq full)
  rw [full, Nat.sub_self, zeros, List.replicate_zero, List.append_nil] at stored
  have grown : storeAt ((data ++ bytes) ++ (List.range bufChunkSize).map junk)
      (state.index + bytes.length) (zeros bufChunkSize) =
        some (data ++ bytes ++ zeros bufChunkSize) := by
    rw [held.index_eq, ← List.length_append, storeAt_end (by simp)]
    simp
  refine ⟨⟨data ++ bytes ++ zeros bufChunkSize, state.index + bytes.length,
    state.len + bufChunkSize⟩, ?_, rfl, ?_, ?_⟩
  · simp only [onRecv, stored, full, ↓reduceIte, growBuffer]
    rw [full] at grown
    simp only [grown]
  · simp [held.index_eq]
  · simp only [held.len_eq, List.length_append, full]

theorem onRecv_no_memory {junk : Nat → UInt8} {data bytes : List UInt8} {state : Receiving}
    (held : Received data state) (full : bytes.length = bufChunkSize) :
    onRecv junk false state (.data bytes) = .exited := by
  simp only [onRecv, store_received held (Nat.le_of_eq full), full, ↓reduceIte, growBuffer,
    Bool.false_eq_true]

theorem onRecv_short (junk : Nat → UInt8) (grows : Bool) {data bytes : List UInt8}
    {state : Receiving} (held : Received data state) (short : bytes.length < bufChunkSize)
    (some_bytes : bytes ≠ []) :
    onRecv junk grows state (.data bytes) =
      .drain ⟨data ++ bytes ++ zeros (bufChunkSize - bytes.length), state.index, state.len⟩ := by
  have positive : bytes.length ≠ 0 := by simpa using some_bytes
  have room : ¬ state.len ≤ bytes.length + state.index := by
    rw [held.len_eq, held.index_eq]
    omega
  simp only [onRecv, store_received held (Nat.le_of_lt short), Nat.ne_of_lt short, positive, room,
    ↓reduceIte]

theorem onRecv_shutdown {junk : Nat → UInt8} {grows : Bool} {data : List UInt8} {state : Receiving}
    (held : Received data state) :
    onRecv junk grows state (.data []) = .returned (some (data ++ zeros bufChunkSize)) state.len := by
  have stored := @store_received data state held [] (by simp)
  simp only [onRecv, stored, List.length_nil, List.append_nil, Nat.sub_zero,
    show (0 : Nat) ≠ bufChunkSize by decide, ↓reduceIte]

def padded (len : Nat) (data : List UInt8) : List UInt8 := data ++ zeros (len - data.length)

theorem zeros_free (count : Nat) : newline ∉ zeros count := by
  simp [zeros, List.mem_replicate]

theorem padded_length {len : Nat} {data : List UInt8} (room : data.length < len) :
    (padded len data).length = len := by
  simp only [padded, List.length_append, zeros_length]
  omega

theorem padded_eq {len : Nat} {data : List UInt8} (room : data.length < len) :
    padded len data = data ++ nul :: zeros (len - data.length - 1) ∧
      data.length + 1 + (zeros (len - data.length - 1)).length = len := by
  obtain ⟨more, split⟩ : ∃ more, len - data.length = more + 1 := ⟨len - data.length - 1, by omega⟩
  constructor
  · rw [padded, split, zeros, List.replicate_succ]
    rfl
  · rw [zeros_length]
    omega

theorem drain_padded_clean {len fuel : Nat} {data : List UInt8} (noNul : nul ∉ data)
    (room : data.length < len) (fits : ResidueFree len (segments newline data))
    (enough : (segments newline data).length < fuel) :
    ∃ buf, drainLoop (fun _ => true) len fuel 0 (padded len data) =
      ⟨segments newline data, .finished buf⟩ ∧ buf.length = len ∧ newline ∉ buf := by
  obtain ⟨shape, size⟩ := padded_eq room
  rw [shape]
  exact drain_clean data fuel 0 noNul (zeros_free _) size fits enough

theorem drain_padded_repeats {len fuel : Nat} {data : List UInt8} (noNul : nul ∉ data)
    (room : data.length < len) (overlap : ¬ ResidueFree len (segments newline data))
    (enough : (segments newline data).length < fuel) :
    ∃ more, (drainLoop (fun _ => true) len fuel 0 (padded len data)).packets =
      segments newline data ++ remainder newline data :: more := by
  obtain ⟨shape, size⟩ := padded_eq room
  rw [shape]
  exact drain_repeats data noNul size (Or.inr overlap) enough

end ReceiveLoop
