import Aesd.TransitionRuns
import Aesd.ReceiveLoop

/-! The receive buffer at every recv of a connection, and what a short chunk hands on to
    the drain loop, while each realloc succeeds. -/
namespace ReceiveBuffer
open TransitionRuns TokenExtraction PacketDrain ReceiveLoop

def recvStep (junk : Nat → UInt8) (state : Receiving) (result : RecvResult) : Option Receiving :=
  match onRecv junk true state result with
  | .again next => some next
  | _ => none

def recvMachine (junk : Nat → UInt8) : Machine Receiving RecvResult := ⟨recvStep junk⟩

def chunkOf : RecvResult → List UInt8
  | .error => []
  | .data bytes => bytes

def receivedBytes (results : List RecvResult) : List UInt8 := results.flatMap chunkOf

structure AtRecv (received : List UInt8) (state : Receiving) : Prop where
  index_chunk : state.index + bufChunkSize = state.len
  holds : state.buf = received ++ zeros bufChunkSize
  allocated : state.buf.length = state.len
  stores_inside : ∀ bytes : List UInt8, bytes.length ≤ bufChunkSize →
    state.index + bytes.length ≤ state.buf.length

/-- The test of the second resize, on a chunk that is neither empty nor full. -/
def Resizes (state : Receiving) (bytes : List UInt8) : Prop :=
  state.len ≤ bytes.length + state.index

theorem recvStep_iff {junk : Nat → UInt8} {state next : Receiving} {result : RecvResult} :
    recvStep junk state result = some next ↔ onRecv junk true state result = .again next := by
  unfold recvStep
  cases onRecv junk true state result with
  | again mid => simp
  | drain mid => simp
  | returned buf len => simp
  | exited => simp
  | fault => simp

theorem receivedBytes_snoc (results : List RecvResult) (result : RecvResult) :
    receivedBytes (results ++ [result]) = receivedBytes results ++ chunkOf result := by
  simp [receivedBytes]

theorem grown_not_again {junk : Nat → UInt8} {allocOk : Bool} {state next : Receiving} :
    growBuffer junk allocOk state .drain ≠ .again next := by
  intro again
  unfold growBuffer at again
  split at again
  · split at again
    · cases again
    · cases again
  · cases again

theorem again_full {junk : Nat → UInt8} {data : List UInt8} {state next : Receiving}
    {result : RecvResult} (held : Received data state)
    (again : onRecv junk true state result = .again next) : Received (data ++ chunkOf result) next := by
  cases result with
  | error => simp [onRecv] at again
  | data bytes =>
    by_cases full : bytes.length = bufChunkSize
    · obtain ⟨grown, step, received⟩ := onRecv_full junk held full
      rw [step] at again
      obtain rfl := ReceiveNext.again.inj again
      exact received
    · exfalso
      cases stored : storeAt state.buf state.index bytes with
      | none =>
        simp only [onRecv, stored] at again
        cases again
      | some buf =>
        simp only [onRecv, stored, full, ↓reduceIte] at again
        split at again
        · cases again
        · split at again
          · exact grown_not_again again
          · cases again

theorem received_of_run {junk : Nat → UInt8} {results : List RecvResult} {state : Receiving}
    (run : (recvMachine junk).run startReceiving results = some state) :
    Received (receivedBytes results) state := by
  have step : ∀ past (mid : Receiving) (result : RecvResult) (next : Receiving),
      Received (receivedBytes past) mid → True → (recvMachine junk).step mid result = some next →
      Received (receivedBytes (past ++ [result])) next := by
    intro past mid result next held _ taken
    rw [receivedBytes_snoc]
    exact again_full held (recvStep_iff.mp taken)
  have start : Received (receivedBytes []) startReceiving := received_start
  have reached := history_along step start (along_true _ _ _) run
  rwa [List.nil_append] at reached

theorem at_recv {received : List UInt8} {state : Receiving} (held : Received received state) :
    AtRecv received state where
  index_chunk := by rw [held.index_eq, held.len_eq]
  holds := held.buf_eq
  allocated := received_length held
  stores_inside := by
    intro bytes size
    rw [received_length held, held.index_eq, held.len_eq]
    omega

theorem read_of_run {junk : Nat → UInt8} {alloc : Nat → Bool} {fuel : Nat}
    {past : List RecvResult} {start state : Receiving} (call : Nat) (later : List RecvResult)
    (run : (recvMachine junk).run start past = some state) :
    readUntilStopCondition junk (fun _ => true) alloc fuel call start (past ++ later) =
      readUntilStopCondition junk (fun _ => true) alloc fuel (call + past.length) state later := by
  induction past generalizing start call with
  | nil =>
    obtain rfl := Option.some.inj run
    rfl
  | cons result rest ih =>
    obtain ⟨mid, taken, run⟩ := run_cons_iff.mp run
    have again := recvStep_iff.mp taken
    simp only [List.cons_append, readUntilStopCondition, again]
    rw [ih (call + 1) run, List.length_cons, Nat.add_assoc, Nat.add_comm 1]

theorem short_chunk_handed_on {junk : Nat → UInt8} {data bytes : List UInt8} {state : Receiving}
    (held : Received data state) (some_bytes : bytes ≠ []) (short : bytes.length < bufChunkSize)
    (alloc : Nat → Bool) (fuel call : Nat) (later : List RecvResult) :
    readUntilStopCondition junk (fun _ => true) alloc fuel call state (.data bytes :: later) =
      afterDrain state.len (drainLoop alloc state.len fuel 0
        (data ++ bytes ++ zeros (bufChunkSize - bytes.length))) := by
  simp only [readUntilStopCondition, onRecv_short junk true held short some_bytes]

/-- At every recv the buffer is what was received and one chunk of zeros, and the drain
    loop gets all of it with at least one zero left, whatever comes after that chunk. -/
theorem receive_buffer_exact {junk : Nat → UInt8} {results : List RecvResult} {state : Receiving}
    (run : (recvMachine junk).run startReceiving results = some state) :
    AtRecv (receivedBytes results) state ∧
      ∀ bytes : List UInt8, bytes ≠ [] → bytes.length < bufChunkSize →
        ¬ Resizes state bytes ∧
          ∃ left, 0 < left ∧ (receivedBytes results ++ bytes ++ zeros left).length = state.len ∧
            ∀ (alloc : Nat → Bool) (fuel : Nat) (later : List RecvResult),
              readUntilStopCondition junk (fun _ => true) alloc fuel 0 startReceiving
                  (results ++ .data bytes :: later) =
                afterDrain state.len (drainLoop alloc state.len fuel 0
                  (receivedBytes results ++ bytes ++ zeros left)) := by
  have held := received_of_run run
  constructor
  · exact at_recv held
  · intro bytes some_bytes short
    constructor
    · unfold Resizes
      rw [held.len_eq, held.index_eq]
      omega
    · refine ⟨bufChunkSize - bytes.length, Nat.sub_pos_of_lt short, ?_, ?_⟩
      · rw [held.len_eq, List.length_append, List.length_append, zeros_length]
        omega
      · intro alloc fuel later
        rw [read_of_run 0 _ run]
        exact short_chunk_handed_on held some_bytes short alloc fuel _ later

theorem full_chunk_runs (junk : Nat → UInt8) {data bytes : List UInt8} {state : Receiving}
    (held : Received data state) (full : bytes.length = bufChunkSize) :
    ∃ next, (recvMachine junk).run state [.data bytes] = some next := by
  obtain ⟨next, again, _⟩ := onRecv_full junk held full
  have taken := recvStep_iff.mpr again
  exact ⟨next, run_cons_iff.mpr ⟨next, taken, rfl⟩⟩

/-- A message of exactly one chunk so far. -/
theorem full_chunk_received_exactly :
    ∃ state, AtRecv (receivedBytes [.data (List.replicate bufChunkSize 97)]) state := by
  have full : (List.replicate bufChunkSize (97 : UInt8)).length = bufChunkSize :=
    List.length_replicate
  obtain ⟨state, run⟩ := full_chunk_runs (fun _ => 7) received_start full
  exact ⟨state, (receive_buffer_exact run).1⟩

end ReceiveBuffer
