import Aesd.HandlerSoundness
import Aesd.LogRefinement
import Aesd.ReceiveBuffer

/-! A handler thread between all others does what handle_connection does alone, on the
    results that recv gives this handler: the other threads, other clients and the order of
    steps cannot be seen in the packets that it passes on. -/
namespace ConnectionRefinement
open TransitionRuns PacketAppend PacketSteps TokenExtraction PacketDrain ReceiveLoop ReceiveBuffer
  ServerState ServerSteps ServerMoves HandlerSoundness HandlerTransitions LogRefinement

/-- The rounds of the drain loop that deliver packets, from buffer first to the last one. -/
inductive Drained (len : Nat) (first : List UInt8) : List (List UInt8) → List UInt8 → Prop where
  | start : Drained len first [] first
  | round {packets : List (List UInt8)} {buf token after : List UInt8}
      (drained : Drained len first packets buf)
      (gives : extractTokenAndConsolidateBuffer true buf len = some ⟨some token, after⟩) :
      Drained len first (packets ++ [cString token]) after

def Stopped (results : List RecvResult) (next : ReceiveNext) : Prop :=
  ∃ before last state, results = before ++ [last] ∧
    (∀ junk, (recvMachine junk).run startReceiving before = some state) ∧
    ∀ junk, onRecv junk true state last = next

def InDrain (results : List RecvResult) (packets : List (List UInt8)) (state : Receiving) : Prop :=
  ∃ first, Stopped results (.drain first) ∧ state.len = first.len ∧
    Drained first.len first.buf packets state.buf

def callocIn (rounds : List Bool) (round : Nat) : Bool := rounds.getD round true

def ReadTo (results : List RecvResult) (rounds : List Bool) (packets : List (List UInt8))
    (fullMsg : Option (List UInt8)) (bufSize : Nat) : Prop :=
  ∀ junk fuel, packets.length < fuel →
    readUntilStopCondition junk (fun _ => true) (callocIn rounds) fuel 0 startReceiving results =
      ⟨packets, .returned fullMsg bufSize⟩

/-- All that handle_connection does, on the answers of its callocs: one for the buffer, one
    for each round of the drain loop, and one for the last extraction. -/
def Closing (results : List RecvResult) (callocs : List Bool) (packets : List (List UInt8)) : Prop :=
  ∃ rounds last dropped, callocs = true :: (rounds ++ [last]) ∧ ∀ junk fuel, packets.length < fuel →
    handleConnection junk (fun _ => true) (callocIn rounds) last fuel results =
      ⟨packets, .closed dropped⟩

def Progress (results : List RecvResult) (packets : List (List UInt8)) : HandlerPhase → Prop
  | .begin => results = [] ∧ packets = []
  | .recv state => packets = [] ∧
      ∀ junk, (recvMachine junk).run startReceiving results = some state
  | .extract state => InDrain results packets state
  | .lock state msg => InDrain results (packets ++ [msg]) state
  | .critical state _ => InDrain results packets state
  | _ => True

/-- The answers of its callocs so far. A packet that is passed on has needed one. -/
def Allocated (results : List RecvResult) (callocs : List Bool) (packets : List (List UInt8)) :
    HandlerPhase → Prop
  | .begin => callocs = []
  | .recv _ => callocs = [true]
  | .extract _ => callocs = List.replicate (packets.length + 1) true
  | .lock _ _ => callocs = List.replicate (packets.length + 2) true
  | .critical _ _ => callocs = List.replicate (packets.length + 1) true
  | .lastExtract fullMsg bufSize =>
      ∃ rounds, callocs = true :: rounds ∧ ReadTo results rounds packets fullMsg bufSize
  | .close => Closing results callocs packets
  | .finished => Closing results callocs packets

theorem drainLoop_drained {alloc : Nat → Bool} {len : Nat} {first buf : List UInt8}
    {packets : List (List UInt8)} (drained : Drained len first packets buf)
    (succeeds : ∀ round < packets.length, alloc round = true) (fuel : Nat) :
    drainLoop alloc len (packets.length + fuel) 0 first =
      ⟨packets ++ (drainLoop alloc len fuel packets.length buf).packets,
        (drainLoop alloc len fuel packets.length buf).ending⟩ := by
  induction drained generalizing fuel with
  | start => simp
  | round drained gives ih =>
    rename_i packets buf token after
    simp only [List.length_append, List.length_singleton] at succeeds ⊢
    have here := ih (fun round earlier => succeeds round (by omega)) (fuel + 1)
    rw [Nat.add_assoc, Nat.add_comm 1, here, drainLoop, succeeds packets.length (by omega), gives]
    simp

theorem received_unique {data : List UInt8} {state other : Receiving} (held : Received data state)
    (same : Received data other) : state = other := by
  cases state
  cases other
  simp only [Receiving.mk.injEq]
  exact ⟨held.buf_eq.trans same.buf_eq.symm, held.index_eq.trans same.index_eq.symm,
    held.len_eq.trans same.len_eq.symm⟩

theorem onRecv_any_junk {junk other : Nat → UInt8} {grows : Bool} {data : List UInt8}
    {state : Receiving} {result : RecvResult} {next : ReceiveNext} (held : Received data state)
    (bounded : ∀ bytes, result = .data bytes → bytes.length ≤ bufChunkSize)
    (goes : onRecv junk grows state result = next) (survives : next ≠ .exited) :
    onRecv other true state result = next := by
  cases result with
  | error => exact goes
  | data bytes =>
    rcases Nat.lt_or_eq_of_le (bounded bytes rfl) with short | full
    · by_cases empty : bytes = []
      · subst empty
        rw [onRecv_shutdown held] at goes ⊢
        exact goes
      · rw [onRecv_short _ _ held short empty] at goes ⊢
        exact goes
    · cases grows with
      | false =>
        rw [onRecv_no_memory held full] at goes
        exact absurd goes.symm survives
      | true =>
        obtain ⟨one, here, heldOne⟩ := onRecv_full junk held full
        obtain ⟨two, there, heldTwo⟩ := onRecv_full other held full
        rw [there, received_unique heldTwo heldOne, ← here, goes]

theorem token_needs_memory {succeeds : Bool} {buf token after : List UInt8} {len : Nat}
    (gives : extractTokenAndConsolidateBuffer succeeds buf len = some ⟨some token, after⟩) :
    succeeds = true := by
  unfold extractTokenAndConsolidateBuffer at gives
  split at gives
  · simp at gives
  · simp at gives
  · cases succeeds with
    | true => rfl
    | false => simp at gives

theorem readTo_returned {results : List RecvResult} {fullMsg : Option (List UInt8)} {len : Nat}
    (rounds : List Bool) (stopped : Stopped results (.returned fullMsg len)) :
    ReadTo results rounds [] fullMsg len := by
  obtain ⟨before, last, state, rfl, run, goes⟩ := stopped
  intro junk fuel _
  rw [read_of_run 0 [last] (run junk)]
  simp only [readUntilStopCondition, goes junk]

theorem callocIn_replicate {count round : Nat} (earlier : round < count) (later : List Bool) :
    callocIn (List.replicate count true ++ later) round = true := by
  simp [callocIn, List.getElem?_append, earlier]

theorem callocIn_last (count : Nat) (last : Bool) :
    callocIn (List.replicate count true ++ [last]) count = last := by
  simp [callocIn]

theorem readTo_drained {results : List RecvResult} {packets : List (List UInt8)}
    {state : Receiving} {succeeds : Bool} {after : List UInt8}
    (drain : InDrain results packets state)
    (gives : extractTokenAndConsolidateBuffer succeeds state.buf state.len = some ⟨none, after⟩) :
    ReadTo results (List.replicate packets.length true ++ [succeeds]) packets (some after)
      state.len := by
  obtain ⟨first, ⟨before, last, mid, rfl, run, goes⟩, sized, drained⟩ := drain
  intro junk fuel enough
  obtain ⟨more, rfl⟩ : ∃ more, fuel = packets.length + (more + 1) := ⟨fuel - packets.length - 1, by omega⟩
  have loop := drainLoop_drained drained
    (fun round earlier => callocIn_replicate earlier [succeeds]) (more + 1)
  rw [read_of_run 0 [last] (run junk)]
  simp only [readUntilStopCondition, goes junk, loop]
  rw [sized] at gives
  simp only [drainLoop, callocIn_last, gives, afterDrain, List.append_nil, sized]

theorem closing_of_readTo {results : List RecvResult} {packets : List (List UInt8)}
    {rounds : List Bool} {fullMsg : Option (List UInt8)} {bufSize : Nat} {succeeds : Bool}
    {extraction : Extraction} (read : ReadTo results rounds packets fullMsg bufSize)
    (gives : extractTokenAndConsolidateBuffer succeeds (fullMsg.getD []) bufSize =
      some extraction) : Closing results (true :: rounds ++ [succeeds]) packets := by
  refine ⟨rounds, succeeds, extraction.token, rfl, ?_⟩
  intro junk fuel enough
  unfold handleConnection
  simp only [read junk fuel enough, gives]

def recvOf : HandlerAnswer → List RecvResult
  | .recv result _ _ => [result]
  | _ => []

def callocOf : HandlerAnswer → List Bool
  | .alloc succeeds => [succeeds]
  | _ => []

def resultsOf (index : Nat) (actions : List Action) : List RecvResult :=
  actions.flatMap fun action =>
    match action with
    | .handler other answer => if other = index then recvOf answer else []
    | _ => []

def callocsOf (index : Nat) (actions : List Action) : List Bool :=
  actions.flatMap fun action =>
    match action with
    | .handler other answer => if other = index then callocOf answer else []
    | _ => []

section Steps
variable {s t : Server} {index : Nat} {handler : HandlerThread} {answer : HandlerAnswer}
  {results : List RecvResult} {callocs : List Bool} {packets : List (List UInt8)}

theorem recv_alone {state : Receiving} {result : RecvResult} {grows : Bool} {junk : Nat → UInt8}
    {peer : Peer} {next : ReceiveNext}
    (run : ∀ junk, (recvMachine junk).run startReceiving results = some state)
    (received : handler.peer.receive result = some peer)
    (goes : onRecv junk grows state result = next) (survives : next ≠ .exited) (other : Nat → UInt8) :
    onRecv other true state result = next := by
  apply onRecv_any_junk (received_of_run (run other)) _ goes survives
  intro bytes same
  subst same
  exact receive_bounded received

/-- The step lemma. Only a handler on whose recv or calloc the process ends may stay behind. -/
theorem transition_progress (found : s.handlers[index]? = some handler)
    (held : Progress results packets handler.phase)
    (memory : Allocated results callocs packets handler.phase)
    (transition : Transition s index handler answer t) :
    ∃ next, t.handlers.map HandlerThread.phase =
        (s.handlers.map HandlerThread.phase).set index next ∧
      ((t.status = .running ∨ ∀ state, next ≠ .recv state) →
        Progress (results ++ recvOf answer)
          (packets ++ packetsOf index (handlerEvents index handler.phase answer)) next) ∧
      (t.status = .running ∨ next = .finished →
        Allocated (results ++ recvOf answer) (callocs ++ callocOf answer)
          (packets ++ packetsOf index (handlerEvents index handler.phase answer)) next) := by
  have stays : s.handlers.map HandlerThread.phase =
      (s.handlers.map HandlerThread.phase).set index handler.phase := by
    have same := @setHandler_map _ s index handler handler HandlerThread.phase found rfl
    simpa [Server.setHandler] using same.symm
  cases transition with
  | begins here =>
    rw [here] at held memory ⊢
    obtain ⟨rfl, rfl⟩ := held
    obtain rfl : callocs = [] := memory
    refine ⟨.recv startReceiving, by simp [Server.setHandler], fun _ => ?_, fun _ => rfl⟩
    exact ⟨rfl, fun _ => rfl⟩
  | receives here received goes =>
    rename_i state next result grows junk peer
    rw [here] at held memory ⊢
    obtain ⟨rfl, run⟩ := held
    refine ⟨.recv next, by simp [Server.setHandler], fun _ => ?_, fun _ => ?_⟩
    · refine ⟨rfl, ?_⟩
      intro other
      have alone := recv_alone run received goes (by simp) other
      exact run_snoc_iff.mpr ⟨state, run other, recvStep_iff.mpr alone⟩
    · simpa [Allocated, callocOf] using memory
  | receivesLast here received goes =>
    rename_i state next result grows junk peer
    rw [here] at held memory ⊢
    obtain ⟨rfl, run⟩ := held
    refine ⟨.extract next, by simp [Server.setHandler], fun _ => ?_, fun _ => ?_⟩
    · exact ⟨next, ⟨results, result, state, rfl, run, recv_alone run received goes (by simp)⟩, rfl,
        .start⟩
    · simpa [Allocated, callocOf, handlerEvents] using memory
  | receivesNothing here received goes =>
    rename_i state result grows junk peer buf len
    rw [here] at held memory ⊢
    obtain ⟨rfl, run⟩ := held
    obtain rfl : callocs = [true] := memory
    refine ⟨.lastExtract buf len, by simp [Server.setHandler], fun _ => trivial, fun _ => ?_⟩
    have alone := recv_alone run received goes (by simp)
    exact ⟨[], rfl, readTo_returned [] ⟨results, result, state, rfl, run, alone⟩⟩
  | extractsNothing here gives =>
    rename_i state succeeds buf
    rw [here] at held memory ⊢
    refine ⟨.lastExtract (some buf) state.len, by simp [Server.setHandler], fun _ => trivial,
      fun _ => ?_⟩
    rw [show callocs = _ from memory]
    simp only [recvOf, callocOf, handlerEvents, packetsOf_nil, List.append_nil]
    exact ⟨_, rfl, readTo_drained held gives⟩
  | extracts here gives =>
    rename_i state succeeds token buf
    rw [here] at held memory ⊢
    obtain ⟨first, stopped, sized, drained⟩ := held
    have succeeded := token_needs_memory gives
    refine ⟨.lock ⟨buf, state.index, state.len⟩ (cString token), by simp [Server.setHandler],
      fun _ => ?_, fun _ => ?_⟩
    · simp only [recvOf, handlerEvents, packetsOf_nil, List.append_nil]
      rw [succeeded, sized] at gives
      exact ⟨first, stopped, sized, .round drained gives⟩
    · rw [show callocs = _ from memory, succeeded]
      simp only [Allocated, callocOf, handlerEvents, packetsOf_nil, List.append_nil]
      exact List.replicate_succ'.symm
  | locks here free =>
    rename_i state msg
    rw [here] at held memory ⊢
    refine ⟨.critical state (beginPacket msg), by simp [Server.setHandler], fun _ => ?_, fun _ => ?_⟩
    · simpa [recvOf, handlerEvents, Progress] using held
    · simpa [callocOf, handlerEvents, Allocated] using memory
  | answers here granted gives =>
    rename_i state call next result peer file
    rw [here] at held memory ⊢
    refine ⟨.critical state next, by simp [Server.setHandler], fun _ => ?_, fun _ => ?_⟩
    · simpa [recvOf, handlerEvents, Progress] using held
    · simpa [callocOf, handlerEvents, Allocated] using memory
  | exits here granted gives =>
    refine ⟨handler.phase, stays, fun _ => ?_, fun goes => ?_⟩
    · simpa [recvOf, handlerEvents, here] using held
    · simp [Server.ends, here] at goes
  | unlocks here =>
    rename_i state sent
    rw [here] at held memory ⊢
    refine ⟨.extract state, by simp [Server.setHandler], fun _ => ?_, fun _ => ?_⟩
    · simpa [recvOf, handlerEvents, Progress] using held
    · simpa [callocOf, handlerEvents, Allocated] using memory
  | extractsLast here gives =>
    rw [here] at memory ⊢
    obtain ⟨rounds, rfl, reads⟩ := memory
    refine ⟨.close, by simp [Server.setHandler], fun _ => trivial, fun _ => ?_⟩
    simp only [recvOf, callocOf, handlerEvents, packetsOf_nil, List.append_nil]
    exact closing_of_readTo reads gives
  | closes here =>
    rw [here] at memory ⊢
    refine ⟨.finished, by simp [Server.setHandler], fun _ => trivial, fun _ => ?_⟩
    simpa [recvOf, callocOf, handlerEvents, Allocated] using memory
  | ends live called receiving raises stops =>
    refine ⟨handler.phase, stays, fun goes => ?_, fun goes => ?_⟩
    · rw [(ends_quiet called raises index).1, packetsOf_nil, List.append_nil]
      cases answer with
      | recv result grows junk =>
        obtain ⟨state, here⟩ := receiving result grows junk rfl
        rcases goes with running | elsewhere
        · exact absurd running stops
        · exact absurd here (elsewhere state)
      | _ => simpa [recvOf] using held
    · rcases goes with running | done
      · exact absurd running stops
      · exact absurd done live

end Steps

structure AllProgress (daemonMode : Bool) (file : OpenFile) (past : List Action) (s : Server) :
    Prop where
  started : ∀ index phase, (s.handlers.map HandlerThread.phase)[index]? = some phase →
    (s.status = .running ∨ ∀ state, phase ≠ .recv state) →
    Progress (resultsOf index past) (packetsOf index (logTrace daemonMode file past)) phase
  memory : ∀ index phase, (s.handlers.map HandlerThread.phase)[index]? = some phase →
    s.status = .running ∨ phase = .finished →
    Allocated (resultsOf index past) (callocsOf index past)
      (packetsOf index (logTrace daemonMode file past)) phase
  absent : ∀ index, s.handlers.length ≤ index →
    resultsOf index past = [] ∧ packetsOf index (logTrace daemonMode file past) = []
  unallocated : ∀ index, s.handlers.length ≤ index → callocsOf index past = []

section Runs
variable {daemonMode : Bool} {file : OpenFile} {s t : Server} {past : List Action}

@[simp] theorem resultsOf_handler (conn index : Nat) (past : List Action) (answer : HandlerAnswer) :
    resultsOf conn (past ++ [.handler index answer]) =
      resultsOf conn past ++ if index = conn then recvOf answer else [] := by
  simp [resultsOf]

theorem resultsOf_other {action : Action} (other : ∀ index answer, action ≠ .handler index answer)
    (conn : Nat) (past : List Action) :
    resultsOf conn (past ++ [action]) = resultsOf conn past := by
  cases action with
  | handler index answer => exact absurd rfl (other index answer)
  | _ => simp [resultsOf]

@[simp] theorem callocsOf_handler (conn index : Nat) (past : List Action) (answer : HandlerAnswer) :
    callocsOf conn (past ++ [.handler index answer]) =
      callocsOf conn past ++ if index = conn then callocOf answer else [] := by
  simp [callocsOf]

theorem callocsOf_other {action : Action} (other : ∀ index answer, action ≠ .handler index answer)
    (conn : Nat) (past : List Action) :
    callocsOf conn (past ++ [action]) = callocsOf conn past := by
  cases action with
  | handler index answer => exact absurd rfl (other index answer)
  | _ => simp [callocsOf]

theorem logEvents_other {action : Action} (other : ∀ index answer, action ≠ .handler index answer) :
    logEvents s action = [] := by
  cases action with
  | handler index answer => exact absurd rfl (other index answer)
  | _ => rfl

theorem packetsOf_other {index conn : Nat} (apart : index ≠ conn) (phase : HandlerPhase)
    (answer : HandlerAnswer) : packetsOf conn (handlerEvents index phase answer) = [] := by
  unfold handlerEvents
  split <;> simp [apart]

theorem logTrace_snoc {action : Action} (run : machine.run (boot daemonMode file) past = some s)
    (taken : step s action = some t) :
    logTrace daemonMode file (past ++ [action]) =
      logTrace daemonMode file past ++ logEvents s action :=
  collect_snoc run taken

theorem allProgress_boot (daemonMode : Bool) (file : OpenFile) :
    AllProgress daemonMode file [] (boot daemonMode file) where
  started := by
    intro index phase found
    simp [boot] at found
  memory := by
    intro index phase found
    simp [boot] at found
  absent _ _ := ⟨rfl, rfl⟩
  unallocated _ _ := rfl

theorem allProgress_handler {index : Nat} {answer : HandlerAnswer} {handler : HandlerThread}
    (held : AllProgress daemonMode file past s) (running : s.status = .running)
    (found : s.handlers[index]? = some handler)
    (transition : Transition s index handler answer t)
    (events : logTrace daemonMode file (past ++ [.handler index answer]) =
      logTrace daemonMode file past ++ handlerEvents index handler.phase answer) :
    AllProgress daemonMode file (past ++ [.handler index answer]) t := by
  obtain ⟨inside, _⟩ := List.getElem?_eq_some_iff.mp found
  have phase : (s.handlers.map HandlerThread.phase)[index]? = some handler.phase := by
    simp [found]
  obtain ⟨next, phases, progress, memory⟩ := transition_progress found
    (held.started index handler.phase phase (Or.inl running))
    (held.memory index handler.phase phase (Or.inl running)) transition
  have size : t.handlers.length = s.handlers.length := by
    simpa using congrArg List.length phases
  constructor
  · intro conn after foundAfter goes
    rw [resultsOf_handler, events, packetsOf_append]
    rw [phases, List.getElem?_set] at foundAfter
    by_cases same : index = conn
    · subst same
      simp only [List.length_map, inside, ↓reduceIte, Option.some.injEq] at foundAfter ⊢
      subst foundAfter
      exact progress goes
    · rw [if_neg same] at foundAfter
      rw [if_neg same, packetsOf_other same, List.append_nil, List.append_nil]
      exact held.started conn after foundAfter (Or.inl running)
  · intro conn after foundAfter goes
    rw [resultsOf_handler, callocsOf_handler, events, packetsOf_append]
    rw [phases, List.getElem?_set] at foundAfter
    by_cases same : index = conn
    · subst same
      simp only [List.length_map, inside, ↓reduceIte, Option.some.injEq] at foundAfter ⊢
      subst foundAfter
      exact memory goes
    · rw [if_neg same] at foundAfter
      rw [if_neg same, if_neg same, packetsOf_other same, List.append_nil, List.append_nil,
        List.append_nil]
      exact held.memory conn after foundAfter (Or.inl running)
  · intro conn outside
    obtain ⟨noResults, noPackets⟩ := held.absent conn (by omega)
    have apart : index ≠ conn := by omega
    rw [resultsOf_handler, events, packetsOf_append, if_neg apart, packetsOf_other apart,
      noResults, noPackets]
    exact ⟨rfl, rfl⟩
  · intro conn outside
    have apart : index ≠ conn := by omega
    rw [callocsOf_handler, if_neg apart, held.unallocated conn (by omega)]
    rfl

theorem allProgress_kept {action : Action} (held : AllProgress daemonMode file past s)
    (running : s.status = .running) (kept : PhasesKept s t)
    (other : ∀ index answer, action ≠ .handler index answer)
    (events : logTrace daemonMode file (past ++ [action]) = logTrace daemonMode file past) :
    AllProgress daemonMode file (past ++ [action]) t := by
  have size : s.handlers.length ≤ t.handlers.length := by
    rcases kept with same | added
    · simpa using (congrArg List.length same).ge
    · have grown := congrArg List.length added
      simp only [List.length_map, List.length_append, List.length_singleton] at grown
      omega
  have known (conn : Nat) (phase : HandlerPhase)
      (foundAfter : (t.handlers.map HandlerThread.phase)[conn]? = some phase) :
      (s.handlers.map HandlerThread.phase)[conn]? = some phase ∨
        phase = .begin ∧ s.handlers.length ≤ conn := by
    rcases kept with same | added
    · exact Or.inl (by rwa [same] at foundAfter)
    · rw [added, List.getElem?_append] at foundAfter
      split at foundAfter
      · exact Or.inl foundAfter
      · rename_i outside
        exact Or.inr ⟨by simpa using List.mem_of_getElem? foundAfter, by simpa using outside⟩
  constructor
  · intro conn phase foundAfter goes
    rw [resultsOf_other other, events]
    rcases known conn phase foundAfter with here | ⟨rfl, outside⟩
    · exact held.started conn phase here (Or.inl running)
    · exact held.absent conn outside
  · intro conn phase foundAfter goes
    rw [resultsOf_other other, callocsOf_other other, events]
    rcases known conn phase foundAfter with here | ⟨rfl, outside⟩
    · exact held.memory conn phase here (Or.inl running)
    · exact held.unallocated conn outside
  · intro conn outside
    rw [resultsOf_other other, events]
    exact held.absent conn (by omega)
  · intro conn outside
    rw [callocsOf_other other]
    exact held.unallocated conn (by omega)

theorem allProgress_step {action : Action} (held : AllProgress daemonMode file past s)
    (run : machine.run (boot daemonMode file) past = some s) (taken : step s action = some t) :
    AllProgress daemonMode file (past ++ [action]) t := by
  have running := step_running taken
  have events := logTrace_snoc run taken
  rcases step_transition taken with ⟨index, answer, handler, rfl, found, transition⟩ | ⟨other, kept⟩
  · simp only [logEvents, found] at events
    exact allProgress_handler held running found transition events
  · rw [logEvents_other other, List.append_nil] at events
    exact allProgress_kept held running kept other events

theorem allProgress_run (run : machine.run (boot daemonMode file) past = some s) :
    AllProgress daemonMode file past s := by
  have keeps (before : List Action) (mid : Server) (action : Action) (t : Server)
      (_ : before ++ [action] <+: past) (reached : machine.run (boot daemonMode file) before = some mid)
      (held : AllProgress daemonMode file before mid) (taken : machine.step mid action = some t) :
      AllProgress daemonMode file (before ++ [action]) t :=
    allProgress_step held reached taken
  exact history_front (allProgress_boot daemonMode file) keeps List.prefix_rfl run

/-- A handler that is done has passed on just the packets that handle_connection, run alone
    on the results of its recvs and callocs, passes on, whatever realloc leaves in new
    memory. -/
theorem handler_does_what_handle_connection_does {actions : List Action}
    (run : machine.run (boot daemonMode file) actions = some s) {index : Nat}
    {handler : HandlerThread} (found : s.handlers[index]? = some handler)
    (done : handler.phase = .finished) :
    ∃ rounds last dropped, callocsOf index actions = true :: (rounds ++ [last]) ∧ ∀ junk fuel,
      (packetsOf index (logTrace daemonMode file actions)).length < fuel →
        handleConnection junk (fun _ => true) (callocIn rounds) last fuel (resultsOf index actions) =
          ⟨packetsOf index (logTrace daemonMode file actions), .closed dropped⟩ := by
  have phase : (s.handlers.map HandlerThread.phase)[index]? = some .finished := by
    simp [found, done]
  exact (allProgress_run run).memory index .finished phase (Or.inr rfl)

end Runs

theorem step_drains {s : Server} {index : Nat} {handler : HandlerThread} {state next : Receiving}
    {result : RecvResult} {grows : Bool} {junk : Nat → UInt8} {peer : Peer}
    (running : s.status = .running) (found : s.handlers[index]? = some handler)
    (here : handler.phase = .recv state) (received : handler.peer.receive result = some peer)
    (goes : onRecv junk grows state result = .drain next) :
    machine.step s (.handler index (.recv result grows junk)) =
      some (s.setHandler index { handler with peer := peer, phase := .extract next }) := by
  simp only [machine, step, running, ↓reduceIte, handlerStep, found, here, received, goes]

theorem step_extracts {s : Server} {index : Nat} {handler : HandlerThread} {state : Receiving}
    {succeeds : Bool} {token buf : List UInt8} (running : s.status = .running)
    (found : s.handlers[index]? = some handler) (here : handler.phase = .extract state)
    (gives : extractTokenAndConsolidateBuffer succeeds state.buf state.len =
      some ⟨some token, buf⟩) :
    machine.step s (.handler index (.alloc succeeds)) =
      some (s.setHandler index
        { handler with phase := .lock ⟨buf, state.index, state.len⟩ (cString token) }) := by
  simp only [machine, step, running, ↓reduceIte, handlerStep, found, here, gives]

theorem step_extractsNothing {s : Server} {index : Nat} {handler : HandlerThread} {state : Receiving}
    {succeeds : Bool} {buf : List UInt8} (running : s.status = .running)
    (found : s.handlers[index]? = some handler) (here : handler.phase = .extract state)
    (gives : extractTokenAndConsolidateBuffer succeeds state.buf state.len = some ⟨none, buf⟩) :
    machine.step s (.handler index (.alloc succeeds)) =
      some (s.setHandler index { handler with phase := .lastExtract (some buf) state.len }) := by
  simp only [machine, step, running, ↓reduceIte, handlerStep, found, here, gives]

theorem step_lastExtract {s : Server} {index : Nat} {handler : HandlerThread}
    {fullMsg : Option (List UInt8)} {bufSize : Nat} {succeeds : Bool} {extraction : Extraction}
    (running : s.status = .running) (found : s.handlers[index]? = some handler)
    (here : handler.phase = .lastExtract fullMsg bufSize)
    (gives : extractTokenAndConsolidateBuffer succeeds (fullMsg.getD []) bufSize =
      some extraction) :
    machine.step s (.handler index (.alloc succeeds)) =
      some (s.setHandler index { handler with phase := .close }) := by
  simp only [machine, step, running, ↓reduceIte, handlerStep, found, here, gives]

def speakingClient : List Action :=
  [.client 0 (.sends [97, newline]), .handler 0 (.recv (.data [97, newline]) true fun _ => 0),
    .handler 0 (.alloc true)]

def servedClient : List Action :=
  [.handler 0 .ok, .handler 0 (.system (.diskWrite 1)), .handler 0 (.system (.diskWrite 1)),
    .handler 0 (.system (.seek true)), .handler 0 (.system (.read 2)), .client 0 (.reads 2),
    .handler 0 (.system (.socketWrite 2)), .handler 0 (.system (.read 2)),
    .handler 0 (.system (.seek true)), .handler 0 .ok]

def closedClient : List Action := [.handler 0 (.alloc true), .handler 0 (.alloc true), .handler 0 .ok]

def speakingAt (inbox : List UInt8) (phase : HandlerPhase) : Server :=
  { clientInRecv with handlers := [⟨5, ⟨inbox, false, false, 0⟩, phase, false⟩] }

def servedAt (phase : HandlerPhase) : Server :=
  { speakingAt [] phase with file := ⟨[97, newline], 2⟩ }

def spokenRest : Receiving :=
  ⟨zeros 1022 ++ ([97] ++ nul :: zeros 1022).drop (zeros 1022).length, startReceiving.index,
    startReceiving.len⟩

theorem speaking_reads (junk : Nat → UInt8) :
    onRecv junk true startReceiving (.data [97, newline]) =
      .drain ⟨[97] ++ newline :: zeros 1022, startReceiving.index, startReceiving.len⟩ := by
  rw [onRecv_short junk true received_start (by simp [bufChunkSize]) (by simp)]
  rfl

theorem speaking_extracts :
    ∃ token, extractTokenAndConsolidateBuffer true ([97] ++ newline :: zeros 1022)
        startReceiving.len = some ⟨some token, spokenRest.buf⟩ ∧ cString token = [97] := by
  have line := @extract_line [97] (zeros 1022) (by decide)
  have size : ([97] ++ newline :: zeros 1022).length = startReceiving.len := by
    simp [startReceiving, bufChunkSize]
  rw [size] at line
  exact ⟨_, line, packet_of_line [97] (zeros 1022)⟩

theorem spokenRest_extracts :
    extractTokenAndConsolidateBuffer true spokenRest.buf spokenRest.len =
      some ⟨none, spokenRest.buf⟩ := by
  have free : newline ∉ spokenRest.buf := by
    intro member
    rcases List.mem_append.mp member with zero | left
    · exact zeros_free 1022 zero
    · have kept := List.mem_of_mem_drop left
      rcases List.mem_append.mp kept with first | after
      · simp [newline] at first
      · rcases List.mem_cons.mp after with ends | zero
        · simp [newline, nul] at ends
        · exact zeros_free 1022 zero
  have size : spokenRest.buf.length = spokenRest.len := by
    simp [spokenRest, startReceiving, bufChunkSize]
  have absent := extract_free free true
  rwa [size] at absent

theorem speaking_steps :
    machine.step clientInRecv (.client 0 (.sends [97, newline])) =
        some (speakingAt [97, newline] (.recv startReceiving)) ∧
      ∃ drained, machine.step (speakingAt [97, newline] (.recv startReceiving))
          (.handler 0 (.recv (.data [97, newline]) true fun _ => 0)) =
        some (speakingAt [] (.extract drained)) ∧
      machine.step (speakingAt [] (.extract drained)) (.handler 0 (.alloc true)) =
        some (speakingAt [] (.lock spokenRest [97])) := by
  obtain ⟨token, gives, reads⟩ := speaking_extracts
  have received := @step_drains (speakingAt [97, newline] (.recv startReceiving)) 0
    ⟨5, ⟨[97, newline], false, false, 0⟩, .recv startReceiving, false⟩ startReceiving _
    (.data [97, newline]) true (fun _ => 0) ⟨[], false, false, 0⟩ rfl rfl rfl rfl (speaking_reads _)
  have extracted := @step_extracts (speakingAt [] (.extract
      ⟨[97] ++ newline :: zeros 1022, startReceiving.index, startReceiving.len⟩)) 0
    ⟨5, ⟨[], false, false, 0⟩, .extract
      ⟨[97] ++ newline :: zeros 1022, startReceiving.index, startReceiving.len⟩, false⟩
    _ true token spokenRest.buf rfl rfl rfl gives
  rw [reads] at extracted
  exact ⟨rfl, _, received, extracted⟩

theorem speaking_client_run :
    machine.run (boot false ⟨[], 0⟩) (startup ++ oneClient ++ speakingClient) =
      some (speakingAt [] (.lock spokenRest [97])) := by
  obtain ⟨sends, drained, received, extracted⟩ := speaking_steps
  rw [run_append, one_client_run, Option.bind_some, speakingClient, run_cons_iff]
  refine ⟨_, sends, ?_⟩
  rw [run_cons_iff]
  refine ⟨_, received, ?_⟩
  rw [run_cons_iff]
  exact ⟨_, extracted, rfl⟩

theorem served_client_run (state : Receiving) :
    machine.run (speakingAt [] (.lock state [97])) servedClient = some (servedAt (.extract state)) :=
  rfl

theorem closing_steps :
    machine.step (servedAt (.extract spokenRest)) (.handler 0 (.alloc true)) =
        some (servedAt (.lastExtract (some spokenRest.buf) spokenRest.len)) ∧
      machine.step (servedAt (.lastExtract (some spokenRest.buf) spokenRest.len))
          (.handler 0 (.alloc true)) = some (servedAt .close) := by
  constructor
  · exact @step_extractsNothing (servedAt (.extract spokenRest)) 0
      ⟨5, ⟨[], false, false, 0⟩, .extract spokenRest, false⟩ _ _ _ rfl rfl rfl spokenRest_extracts
  · exact @step_lastExtract
      (servedAt (.lastExtract (some spokenRest.buf) spokenRest.len)) 0
      ⟨5, ⟨[], false, false, 0⟩, .lastExtract (some spokenRest.buf) spokenRest.len, false⟩
      (some spokenRest.buf) spokenRest.len true _ rfl rfl rfl spokenRest_extracts

theorem closed_client_run :
    machine.run (servedAt (.extract spokenRest)) closedClient = some { servedAt .finished with
      descriptors := [.obtained 3, .obtained 4, .obtained 5, .closed 5] } := by
  obtain ⟨nothing, last⟩ := closing_steps
  rw [closedClient, run_cons_iff]
  refine ⟨_, nothing, ?_⟩
  rw [run_cons_iff]
  exact ⟨_, last, rfl⟩

def spokenLife : List Action :=
  startup ++ oneClient ++ speakingClient ++ (servedClient ++ closedClient)

theorem spoken_life_run :
    machine.run (boot false ⟨[], 0⟩) spokenLife = some { servedAt .finished with
      descriptors := [.obtained 3, .obtained 4, .obtained 5, .closed 5] } := by
  rw [spokenLife, run_append, speaking_client_run, Option.bind_some, run_append, served_client_run,
    Option.bind_some, closed_client_run]

theorem spoken_trace :
    logTrace false ⟨[], 0⟩ spokenLife = [.packet 0 [97], .echo 0 [97, newline]] := by
  obtain ⟨sends, drained, received, extracted⟩ := speaking_steps
  obtain ⟨nothing, last⟩ := closing_steps
  rw [logTrace, spokenLife, collect_append speaking_client_run, collect_append one_client_run,
    collect_append (served_client_run spokenRest), speakingClient, closedClient,
    SimulatedRuns.collect_cons sends, SimulatedRuns.collect_cons received,
    SimulatedRuns.collect_cons extracted, SimulatedRuns.collect_cons nothing,
    SimulatedRuns.collect_cons last]
  rfl

theorem spoken_packets : packetsOf 0 (logTrace false ⟨[], 0⟩ spokenLife) = [[97]] := by
  rw [spoken_trace]
  rfl

theorem spoken_echoes : echoesOf 0 (logTrace false ⟨[], 0⟩ spokenLife) = [[97, newline]] := by
  rw [spoken_trace]
  rfl

theorem spoken_line_is_passed_on_alone :
    ∃ rounds last dropped, [true, true, true, true] = true :: (rounds ++ [last]) ∧ ∀ junk fuel,
      1 < fuel → handleConnection junk (fun _ => true) (callocIn rounds) last fuel
        [.data [97, newline]] = ⟨[[97]], .closed dropped⟩ := by
  have alone := @handler_does_what_handle_connection_does false ⟨[], 0⟩ _ spokenLife spoken_life_run
    0 _ rfl rfl
  rw [spoken_packets] at alone
  exact alone

end ConnectionRefinement
