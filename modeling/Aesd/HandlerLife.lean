import Aesd.ClientDelivery
import Aesd.DrainOutcome
import Aesd.SectionTotals

/-! How long a handler goes on. Unless its message is one whose lines keep coming back, the
    number of its steps, from its first malloc to close, is bounded by the sizes of the
    message and of the file. -/
namespace HandlerLife
open TransitionRuns SeparatedSegments RecycledSegments PacketAppend PacketSteps TokenExtraction
  PacketDrain ReceiveLoop ReceiveBuffer DrainOutcome PacketFraming ServerState ServerSteps ServerMoves
  HandlerTransitions LogRefinement ConnectionRefinement PacketProvenance SectionBounds
  SectionTotals ClientDelivery

def linesRunOut (message : List UInt8) : Bool :=
  runsOut (bufferLength message) (segmentLengths newline message)

def EndsShort (results : List RecvResult) : Prop :=
  ∃ before bytes, results = before ++ [.data bytes] ∧ bytes ≠ [] ∧ bytes.length < bufChunkSize

def Endless (results : List RecvResult) : Prop :=
  EndsShort results ∧ linesRunOut (receivedBytes results) = false

theorem extract_lines {len : Nat} {buf token after : List UInt8} (whole : buf.length = len)
    (gives : extractTokenAndConsolidateBuffer true buf len = some ⟨some token, after⟩) :
    ∃ first later, segmentLengths newline buf = first :: later ∧ after.length = len ∧
      segmentLengths newline after = nextLengths len (first :: later) := by
  cases lines : segmentLengths newline buf with
  | nil =>
    have absent := extract_free (no_newline_of_lengths lines) true
    rw [whole, gives] at absent
    cases absent
  | cons first later =>
    obtain ⟨⟨token, moved, taken, size, next⟩, _⟩ := extract_next whole lines
    rw [gives] at taken
    cases taken
    exact ⟨first, later, rfl, size, next⟩

theorem token_fits {len : Nat} {buf token after : List UInt8} (whole : buf.length = len)
    (gives : extractTokenAndConsolidateBuffer true buf len = some ⟨some token, after⟩) :
    (cString token).length ≤ len := by
  subst whole
  by_cases member : newline ∈ buf
  · obtain ⟨line, rest, rfl, free⟩ := List.eq_append_cons_of_mem member
    rw [extract_line free] at gives
    cases gives
    have shorter := (List.takeWhile_prefix (l := line) (· ≠ nul)).length_le
    rw [packet_of_line, cString, List.length_append]
    omega
  · rw [extract_free member] at gives
    cases gives

/-- The rounds of a drain keep whether its lines run out, and if they do each round takes
    one of a bounded number. -/
structure Rounds (len : Nat) (first buf : List UInt8) (packets : List (List UInt8)) : Prop where
  whole : buf.length = len
  fit : ∀ msg ∈ packets, msg.length ≤ len
  out : runsOut len (segmentLengths newline buf) = runsOut len (segmentLengths newline first)
  left : runsOut len (segmentLengths newline first) = true →
    packets.length + rank len (segmentLengths newline buf) ≤ rank len (segmentLengths newline first)

theorem drained_rounds {len : Nat} {first buf : List UInt8} {packets : List (List UInt8)}
    (whole : first.length = len) (drained : Drained len first packets buf) :
    Rounds len first buf packets := by
  induction drained with
  | start => exact ⟨whole, by simp, rfl, by simp⟩
  | round drained gives ih =>
    rename_i packets buf token after
    obtain ⟨size, fit, out, left⟩ := ih
    obtain ⟨line, later, lines, sizeAfter, next⟩ := extract_lines size gives
    constructor
    · exact sizeAfter
    · simp only [List.forall_mem_append, List.forall_mem_singleton]
      exact ⟨fit, token_fits size gives⟩
    · rw [next, runsOut_next, ← lines, out]
    · intro runs
      have before := left runs
      rw [← out, lines] at runs
      have less := rank_next runs
      rw [next, List.length_append, List.length_singleton]
      rw [lines] at before
      omega

section Messages
variable {results : List RecvResult} {packets : List (List UInt8)}

theorem message_rounds {first : Receiving} {buf : List UInt8} (stopped : Stopped results (.drain first))
    (drained : Drained first.len first.buf packets buf) :
    Rounds (bufferLength (receivedBytes results))
      (padded (bufferLength (receivedBytes results)) (receivedBytes results)) buf packets := by
  obtain ⟨size, content, _⟩ := stopped_drain stopped
  rw [content, size] at drained
  exact drained_rounds (padded_length (bufferLength_room _)) drained

theorem drain_ends_short {first : Receiving} (stopped : Stopped results (.drain first)) :
    EndsShort results := by
  obtain ⟨before, last, state, rfl, run, goes⟩ := stopped
  have drains := goes fun _ => nul
  cases last with
  | error => simp [onRecv] at drains
  | data bytes =>
    rcases received_cases (fun _ => nul) (received_of_run (run fun _ => nul)) bytes with
      ⟨_, shut⟩ | ⟨some_bytes, short, _⟩ | ⟨_, _, again, _⟩ | fault
    · simp [shut] at drains
    · exact ⟨before, bytes, rfl, some_bytes, short⟩
    · simp [again] at drains
    · simp [fault] at drains

theorem packets_bounded (passed : FromDrain results packets) (ends : ¬ Endless results) :
    packets.length ≤ ((receivedBytes results).length + 1) * ((receivedBytes results).length + 1) := by
  rcases passed with rfl | ⟨first, buf, more, stopped, drained⟩
  · exact Nat.zero_le _
  · have left := (message_rounds stopped drained).left
    rw [padded_lengths] at left
    have out : linesRunOut (receivedBytes results) = true := by
      by_contra stuck
      exact ends ⟨drain_ends_short stopped, Bool.eq_false_iff.mpr stuck⟩
    have bound := left out
    have lines := @span_segmentLengths _ _ newline (receivedBytes results)
    rw [List.length_append] at bound
    calc
      packets.length ≤ rank (bufferLength (receivedBytes results))
          (segmentLengths newline (receivedBytes results)) := by omega
      _ ≤ _ := rank_bound _ _
      _ ≤ _ := Nat.mul_le_mul (by omega) (by omega)

theorem packets_fit (passed : FromDrain results packets) :
    ∀ msg ∈ packets, msg.length ≤ bufferLength (receivedBytes results) := by
  rcases passed with rfl | ⟨first, buf, more, stopped, drained⟩
  · simp
  · intro msg member
    exact (message_rounds stopped drained).fit msg (List.mem_append_left more member)

end Messages

def ownStep (conn : Nat) : Action → Bool
  | .handler _ (.system _) => false
  | .handler index _ => index = conn
  | _ => false

/-- The steps that a handler has made, but for one for each recv and three for each packet. -/
def stepsInPhase : HandlerPhase → Nat
  | .begin => 0
  | .critical _ _ => 0
  | .recv _ => 1
  | .extract _ => 1
  | .lock _ _ => 2
  | .lastExtract _ _ => 2
  | .close => 3
  | .finished => 4

def stepsAt (s : Server) (conn : Nat) : Nat :=
  (((s.handlers.map HandlerThread.phase)[conn]?).map stepsInPhase).getD 0

/-- The last step may be the one on which the process ends. -/
def otherSteps (s : Server) (conn : Nat) : Nat := if s.status = .running then stepsAt s conn else 4

theorem stepsInPhase_bound (phase : HandlerPhase) : stepsInPhase phase ≤ 4 := by
  cases phase <;> simp [stepsInPhase]

theorem otherSteps_bound (s : Server) (conn : Nat) : otherSteps s conn ≤ 4 := by
  unfold otherSteps
  split
  · unfold stepsAt
    cases (s.handlers.map HandlerThread.phase)[conn]? with
    | none => simp
    | some phase => exact stepsInPhase_bound phase
  · exact Nat.le_refl 4

section Steps
variable {s t : Server} {index conn : Nat} {handler : HandlerThread} {answer : HandlerAnswer}

theorem otherSteps_found (running : s.status = .running) (found : s.handlers[index]? = some handler) :
    otherSteps s index = stepsInPhase handler.phase := by
  simp [otherSteps, stepsAt, running, found]

theorem counts_moved {cost earned : Nat} {next : HandlerThread} (running : s.status = .running)
    (found : s.handlers[index]? = some handler) (status : t.status = s.status)
    (handlers : t.handlers = s.handlers.set index next)
    (pays : cost + stepsInPhase handler.phase ≤ earned + stepsInPhase next.phase) :
    cost + otherSteps s index ≤ earned + otherSteps t index := by
  obtain ⟨inside, _⟩ := List.getElem?_eq_some_iff.mp found
  have after : t.handlers[index]? = some next := by simp [handlers, inside]
  rw [otherSteps_found running found, otherSteps_found (status.trans running) after]
  exact pays

theorem otherSteps_kept (running : s.status = .running)
    (same : stepsAt t conn = stepsAt s conn) : otherSteps s conn ≤ otherSteps t conn := by
  by_cases goes : t.status = .running
  · simp only [otherSteps, running, goes, same, ↓reduceIte]
    exact Nat.le_refl _
  · have bound := otherSteps_bound s conn
    simpa [otherSteps, goes] using bound

theorem transition_counts (running : s.status = .running)
    (found : s.handlers[index]? = some handler) (transition : Transition s index handler answer t) :
    (if ownStep index (.handler index answer) then 1 else 0) + otherSteps s index ≤
      (recvOf answer).length + 3 * (packetsOf index (handlerEvents index handler.phase answer)).length +
        otherSteps t index := by
  cases transition with
  | begins here =>
    apply counts_moved running found
    · rfl
    · rfl
    · simp [ownStep, here, stepsInPhase, recvOf, handlerEvents]
  | receives here received goes =>
    apply counts_moved running found
    · rfl
    · rfl
    · simp [ownStep, here, stepsInPhase, recvOf, handlerEvents]
  | receivesLast here received goes =>
    apply counts_moved running found
    · rfl
    · rfl
    · simp [ownStep, here, stepsInPhase, recvOf, handlerEvents]
  | receivesNothing here received goes =>
    apply counts_moved running found
    · rfl
    · rfl
    · simp [ownStep, here, stepsInPhase, recvOf, handlerEvents]
  | extractsNothing here gives =>
    apply counts_moved running found
    · rfl
    · rfl
    · simp [ownStep, here, stepsInPhase, recvOf, handlerEvents]
  | extracts here gives =>
    apply counts_moved running found
    · rfl
    · rfl
    · simp [ownStep, here, stepsInPhase, recvOf, handlerEvents]
  | locks here free =>
    apply counts_moved running found
    · rfl
    · rfl
    · simp [ownStep, here, stepsInPhase, recvOf, handlerEvents]
  | answers here granted gives =>
    apply counts_moved running found
    · rfl
    · rfl
    · simp [ownStep, here, stepsInPhase, recvOf, handlerEvents]
  | exits here granted gives =>
    have bound := stepsInPhase_bound handler.phase
    rw [otherSteps_found running found]
    simpa [ownStep, otherSteps, Server.ends] using Nat.le_add_left_of_le bound
  | unlocks here =>
    apply counts_moved running found
    · rfl
    · rfl
    · simp [ownStep, here, stepsInPhase, recvOf, handlerEvents]
  | extractsLast here gives =>
    apply counts_moved running found
    · rfl
    · rfl
    · simp [ownStep, here, stepsInPhase, recvOf, handlerEvents]
  | closes here =>
    apply counts_moved running found
    · rfl
    · rfl
    · simp [ownStep, here, stepsInPhase, recvOf, handlerEvents]
  | ends live called receiving raises stops =>
    rename_i status
    have ended : otherSteps (s.ends status) index = 4 := by simp [otherSteps, Server.ends, stops]
    have bound : stepsInPhase handler.phase ≤ 3 := by
      cases here : handler.phase <;> simp_all [stepsInPhase]
    rw [otherSteps_found running found, ended]
    split <;> omega

theorem ownStep_apart {action : Action} (apart : ∀ answer, action ≠ .handler conn answer) :
    ownStep conn action = false := by
  cases action with
  | handler index answer =>
    have other : index ≠ conn := by
      rintro rfl
      exact apart answer rfl
    cases answer <;> simp [ownStep, other]
  | _ => rfl

theorem stepsAt_set {phase : HandlerPhase} (apart : index ≠ conn)
    (phases : t.handlers.map HandlerThread.phase =
      (s.handlers.map HandlerThread.phase).set index phase) : stepsAt t conn = stepsAt s conn := by
  rw [stepsAt, phases, List.getElem?_set_ne apart, ← stepsAt]

theorem stepsAt_kept (kept : PhasesKept s t) (conn : Nat) : stepsAt t conn = stepsAt s conn := by
  rcases kept with same | added
  · rw [stepsAt, same, ← stepsAt]
  · rw [stepsAt, stepsAt, added, List.getElem?_append]
    split
    · rfl
    · rename_i outside
      rw [List.getElem?_eq_none (Nat.le_of_not_lt outside)]
      cases conn - (s.handlers.map HandlerThread.phase).length <;> rfl

end Steps

section Runs
variable {daemonMode : Bool} {file : OpenFile} {s t : Server} {past : List Action}

def Counted (daemonMode : Bool) (file : OpenFile) (past : List Action) (s : Server) : Prop :=
  ∀ conn, past.countP (ownStep conn) ≤
    (resultsOf conn past).length + 3 * (packetsOf conn (logTrace daemonMode file past)).length +
      otherSteps s conn

theorem counted_step {action : Action} (held : Counted daemonMode file past s)
    (run : machine.run (boot daemonMode file) past = some s) (taken : step s action = some t) :
    Counted daemonMode file (past ++ [action]) t := by
  have running := step_running taken
  have events := logTrace_snoc run taken
  have progress := allProgress_run run
  intro conn
  have before := held conn
  rw [List.countP_append, List.countP_singleton, events, packetsOf_append, List.length_append]
  rcases step_transition taken with ⟨index, answer, handler, rfl, found, transition⟩ | ⟨other, kept⟩
  · simp only [logEvents, found]
    rw [resultsOf_handler, List.length_append]
    by_cases same : index = conn
    · subst same
      have counts := transition_counts running found transition
      rw [if_pos rfl]
      omega
    · have here : (s.handlers.map HandlerThread.phase)[index]? = some handler.phase := by
        simp [found]
      obtain ⟨next, phases, _⟩ := transition_progress found
        (progress.started index _ here (Or.inl running))
        (progress.memory index _ here (Or.inl running)) transition
      have stays := otherSteps_kept running (stepsAt_set same phases)
      rw [ownStep_apart (by simp [same]), packetsOf_other same, if_neg same]
      simp only [List.length_nil, Bool.false_eq_true, ↓reduceIte]
      omega
  · have stays := otherSteps_kept running (stepsAt_kept kept conn)
    rw [ownStep_apart (other conn), resultsOf_other other, logEvents_other other]
    simp only [packetsOf_nil, List.length_nil, Bool.false_eq_true, ↓reduceIte]
    omega

theorem counted_run (run : machine.run (boot daemonMode file) past = some s) :
    Counted daemonMode file past s := by
  have keeps (before : List Action) (mid : Server) (action : Action) (t : Server)
      (_ : before ++ [action] <+: past) (reached : machine.run (boot daemonMode file) before = some mid)
      (held : Counted daemonMode file before mid) (taken : machine.step mid action = some t) :
      Counted daemonMode file (before ++ [action]) t :=
    counted_step held reached taken
  have start : Counted daemonMode file [] (boot daemonMode file) := by
    intro conn
    exact Nat.zero_le _
  exact history_front start keeps List.prefix_rfl run

theorem recv_phase {index : Nat} {handler : HandlerThread} {result : RecvResult} {grows : Bool}
    {junk : Nat → UInt8} (transition : Transition s index handler (.recv result grows junk) t) :
    ∃ state, handler.phase = .recv state := by
  cases transition with
  | receives here _ _ => exact ⟨_, here⟩
  | receivesLast here _ _ => exact ⟨_, here⟩
  | receivesNothing here _ _ => exact ⟨_, here⟩
  | ends _ _ receiving _ _ => exact receiving result grows junk rfl

theorem recvs_bounded (run : machine.run (boot daemonMode file) past = some s) (conn : Nat) :
    (resultsOf conn past).length ≤ (receivedBytes (resultsOf conn past)).length / bufChunkSize + 1 := by
  induction past using List.reverseRecOn generalizing s with
  | nil => exact Nat.zero_le _
  | append_singleton before action ih =>
    obtain ⟨mid, earlier, goes⟩ := run_snoc_iff.mp run
    have taken : step mid action = some s := goes
    by_cases receives : ∃ result grows junk, action = .handler conn (.recv result grows junk)
    · obtain ⟨result, grows, junk, rfl⟩ := receives
      obtain ⟨_, _, handler, same, found, transition⟩ | ⟨other, _⟩ := step_transition taken
      · obtain ⟨rfl, rfl⟩ := Action.handler.inj same
        obtain ⟨state, here⟩ := recv_phase transition
        obtain ⟨_, reads⟩ := (allProgress_run earlier).started conn (.recv state)
          (by simp [found, here]) (Or.inl (step_running taken))
        have chunks := run_chunks (reads fun _ => nul)
        rw [resultsOf_handler, if_pos rfl, recvOf, receivedBytes_snoc, List.length_append,
          List.length_append, List.length_singleton, chunks]
        simp only [bufChunkSize]
        omega
      · exact absurd rfl (other _ _)
    · rw [resultsOf_same receives]
      exact ih earlier

def ofHandler (conn : Nat) : Action → Bool
  | .handler index _ => index = conn
  | _ => false

/-- At most so many packets come out of the message, and each costs its extraction, the mutex
    and the system calls of its critical section. -/
def lifeBound (message : List UInt8) (fileSize : Nat) : Nat :=
  message.length / bufChunkSize + 5 +
    (message.length + 1) * (message.length + 1) * (24 * bufferLength message + 23 * fileSize + 72)

theorem ofHandler_count (conn : Nat) (actions : List Action) :
    actions.countP (ofHandler conn) =
      actions.countP (ownStep conn) + actions.countP (systemCall conn) := by
  induction actions with
  | nil => rfl
  | cons action rest ih =>
    rw [List.countP_cons, List.countP_cons, List.countP_cons, ih]
    have once : (if ofHandler conn action then 1 else 0) =
        (if ownStep conn action then 1 else 0) + (if systemCall conn action then 1 else 0) := by
      cases action with
      | handler index answer => cases answer <;> simp [ofHandler, ownStep, systemCall]
      | _ => rfl
    omega

theorem steps_bounded (run : machine.run (boot daemonMode file) past = some s) (conn : Nat)
    (ends : ¬ Endless (resultsOf conn past)) :
    past.countP (ownStep conn) + past.countP (systemCall conn) ≤
      lifeBound (receivedBytes (resultsOf conn past)) s.file.content.length := by
  have passed := passed_drained run conn
  have counted := counted_run run conn
  have recvs := recvs_bounded run conn
  have other := otherSteps_bound s conn
  have paid := (credited_run run conn).paid
  have budget := budget_bound s.file.content.length (packets_fit passed)
  have product := Nat.mul_le_mul (packets_bounded passed ends)
    (Nat.le_refl (24 * bufferLength (receivedBytes (resultsOf conn past)) +
      23 * s.file.content.length + 72))
  have each : ∀ cost, (packetsOf conn (logTrace daemonMode file past)).length * (cost + 72) =
      (packetsOf conn (logTrace daemonMode file past)).length * (cost + 69) +
        3 * (packetsOf conn (logTrace daemonMode file past)).length := by
    intro cost
    rw [Nat.mul_add, Nat.mul_add]
    omega
  rw [each] at product
  rw [lifeBound]
  omega

/-- Whatever the other threads and the clients do and whatever the system calls return, a
    handler whose lines run out makes no more steps than its message and the file allow. -/
theorem handler_life_is_bounded {actions : List Action}
    (run : machine.run (boot daemonMode file) actions = some s) (conn : Nat)
    (ends : ¬ Endless (resultsOf conn actions)) :
    actions.countP (ofHandler conn) ≤
      lifeBound (receivedBytes (resultsOf conn actions)) s.file.content.length := by
  rw [ofHandler_count]
  exact steps_bounded run conn ends

end Runs

theorem spoken_line_runs_out : ¬ Endless [.data [97, newline]] := by
  rintro ⟨_, again⟩
  rw [linesRunOut, show segmentLengths newline (receivedBytes [.data [97, newline]]) = [1] from rfl,
    runsOut] at again
  cases again

theorem spoken_life_is_bounded :
    spokenLife.countP (ofHandler 0) ≤ lifeBound [97, newline] 2 :=
  handler_life_is_bounded spoken_life_run 0 spoken_line_runs_out

end HandlerLife
