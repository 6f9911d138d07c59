import Aesd.PacketProvenance
import Aesd.PacketFraming

/-! From a client to the data file. The first recv that returns less than a full chunk ends
    the message, and its lines are what the handler appends and is echoed, each once and in
    their order, as long as they leave no newline among the stale bytes. -/
namespace ClientDelivery
open TransitionRuns SeparatedSegments SerialLog PacketAppend PacketSteps TokenExtraction PacketDrain
  ReceiveLoop ReceiveBuffer PacketFraming ServerState ServerSteps ServerMoves HandlerTransitions
  LogRefinement ConnectionRefinement PacketProvenance
open SharedLog (timestampRecord packetRecord)

/-- The lines that a handler gets from what recv gives it. A stream that ends with a full
    chunk is not drained. -/
def deliveredLines (results : List RecvResult) : List (List UInt8) :=
  match results.getLast? with
  | some (.data (_ :: _)) => segments newline (receivedBytes results)
  | _ => []

/-- How a handler has left the receive loop; whole tells that every calloc has succeeded. -/
inductive Left (whole : Prop) (results : List RecvResult) : List (List UInt8) → Prop where
  | unread {buf : Option (List UInt8)} {len : Nat} (stopped : Stopped results (.returned buf len)) :
      Left whole results []
  | drained {first : Receiving} {packets : List (List UInt8)} {buf after : List UInt8}
      {succeeds : Bool} (stopped : Stopped results (.drain first))
      (drained : Drained first.len first.buf packets buf)
      (gives : extractTokenAndConsolidateBuffer succeeds buf first.len = some ⟨none, after⟩)
      (memory : whole → succeeds = true) : Left whole results packets

def Leaving (whole : Prop) (results : List RecvResult) (packets : List (List UInt8)) :
    HandlerPhase → Prop
  | .recv _ => packets = []
  | .lastExtract _ _ => Left whole results packets
  | .close => Left whole results packets
  | .finished => Left whole results packets
  | _ => True

theorem left_weaker {whole later : Prop} {results : List RecvResult} {packets : List (List UInt8)}
    (weaker : later → whole) (left : Left whole results packets) : Left later results packets := by
  cases left with
  | unread stopped => exact .unread stopped
  | drained stopped drained gives memory =>
    exact .drained stopped drained gives fun holds => memory (weaker holds)

theorem leaving_weaker {whole later : Prop} {results : List RecvResult}
    {packets : List (List UInt8)} {phase : HandlerPhase} (weaker : later → whole)
    (held : Leaving whole results packets phase) : Leaving later results packets phase := by
  cases phase with
  | recv state => exact held
  | lastExtract buf len => exact left_weaker weaker held
  | close => exact left_weaker weaker held
  | finished => exact left_weaker weaker held
  | _ => trivial

section Lines
variable {results : List RecvResult} {packets : List (List UInt8)}

theorem delivered_snoc (before : List RecvResult) {bytes : List UInt8} (some_bytes : bytes ≠ []) :
    deliveredLines (before ++ [.data bytes]) =
      segments newline (receivedBytes (before ++ [.data bytes])) := by
  cases bytes with
  | nil => exact absurd rfl some_bytes
  | cons byte rest => simp [deliveredLines]

theorem run_chunks {junk : Nat → UInt8} {state : Receiving}
    (run : (recvMachine junk).run startReceiving results = some state) :
    (receivedBytes results).length = results.length * bufChunkSize := by
  induction results using List.reverseRecOn generalizing state with
  | nil => simp [receivedBytes]
  | append_singleton before last ih =>
    obtain ⟨mid, earlier, taken⟩ := run_snoc_iff.mp run
    have held := received_of_run earlier
    have again := recvStep_iff.mp taken
    rw [receivedBytes_snoc, List.length_append, ih earlier, List.length_append,
      List.length_singleton, Nat.add_mul, Nat.one_mul]
    cases last with
    | error => simp [onRecv] at again
    | data bytes =>
      rcases received_cases junk held bytes with
        ⟨_, shut⟩ | ⟨_, _, drains⟩ | ⟨full, _⟩ | fault
      · simp [shut] at again
      · simp [drains] at again
      · rw [chunkOf, full]
      · simp [fault] at again

theorem stopped_drain {first : Receiving} (stopped : Stopped results (.drain first)) :
    first.len = bufferLength (receivedBytes results) ∧
      first.buf = padded first.len (receivedBytes results) ∧
      deliveredLines results = segments newline (receivedBytes results) := by
  obtain ⟨before, last, state, rfl, run, goes⟩ := stopped
  have held := received_of_run (run fun _ => nul)
  have chunks := run_chunks (run fun _ => nul)
  have drains := goes fun _ => nul
  cases last with
  | error => simp [onRecv] at drains
  | data bytes =>
    rcases received_cases (fun _ => nul) held bytes with
      ⟨_, shut⟩ | ⟨some_bytes, short, here⟩ | ⟨_, _, again, _⟩ | fault
    · simp [shut] at drains
    · rw [here] at drains
      obtain rfl := ReceiveNext.drain.inj drains
      have size : state.len = bufferLength (receivedBytes (before ++ [.data bytes])) := by
        rw [held.len_eq, bufferLength, receivedBytes_snoc, chunkOf, List.length_append]
        simp only [bufChunkSize] at *
        omega
      constructor
      · exact size
      · constructor
        · have left : state.len - (receivedBytes before ++ bytes).length =
              bufChunkSize - bytes.length := by
            rw [held.len_eq, List.length_append]
            omega
          simp only [padded, receivedBytes_snoc, chunkOf, left]
        · exact delivered_snoc before some_bytes
    · simp [again] at drains
    · simp [fault] at drains

theorem stopped_returned {buf : Option (List UInt8)} {len : Nat}
    (stopped : Stopped results (.returned buf len)) : deliveredLines results = [] := by
  obtain ⟨before, last, state, rfl, run, goes⟩ := stopped
  have held := received_of_run (run fun _ => nul)
  have returns := goes fun _ => nul
  cases last with
  | error => simp [deliveredLines]
  | data bytes =>
    rcases received_cases (fun _ => nul) held bytes with
      ⟨rfl, _⟩ | ⟨_, _, drains⟩ | ⟨_, _, again, _⟩ | fault
    · simp [deliveredLines]
    · simp [drains] at returns
    · simp [again] at returns
    · simp [fault] at returns

theorem drained_all {first : Receiving} {buf : List UInt8} (stopped : Stopped results (.drain first))
    (drained : Drained first.len first.buf packets buf) (noNul : nul ∉ receivedBytes results)
    (fits : ResidueFree (bufferLength (receivedBytes results))
      (segments newline (receivedBytes results))) :
    ∃ fuel, deliveredLines results =
      packets ++ (drainLoop (fun _ => true) first.len (fuel + 1) packets.length buf).packets := by
  obtain ⟨size, shape, lines⟩ := stopped_drain stopped
  have room := bufferLength_room (receivedBytes results)
  rw [← size] at fits room
  obtain ⟨_, whole, _⟩ := @drain_padded_clean first.len
    (packets.length + ((segments newline (receivedBytes results)).length + 1)) _ noNul room fits
    (by omega)
  have loop := drainLoop_drained drained (fun _ _ => rfl)
    ((segments newline (receivedBytes results)).length + 1)
  rw [shape, whole] at loop
  exact ⟨_, lines.trans (Drain.mk.inj loop).1⟩

theorem drained_front {first : Receiving} {buf : List UInt8}
    (stopped : Stopped results (.drain first)) (drained : Drained first.len first.buf packets buf)
    (noNul : nul ∉ receivedBytes results) (fits : ResidueFree (bufferLength (receivedBytes results))
      (segments newline (receivedBytes results))) : packets <+: deliveredLines results := by
  obtain ⟨fuel, all⟩ := drained_all stopped drained noNul fits
  rw [all]
  exact List.prefix_append _ _

def FromDrain (results : List RecvResult) (packets : List (List UInt8)) : Prop :=
  packets = [] ∨ ∃ first buf more, Stopped results (.drain first) ∧
    Drained first.len first.buf (packets ++ more) buf

theorem drained_here {first : Receiving} {buf : List UInt8} (stopped : Stopped results (.drain first))
    (drained : Drained first.len first.buf packets buf) : FromDrain results packets :=
  Or.inr ⟨first, buf, [], stopped, by rwa [List.append_nil]⟩

theorem left_drained {whole : Prop} (left : Left whole results packets) :
    FromDrain results packets := by
  cases left with
  | unread stopped => exact Or.inl rfl
  | drained stopped drained gives memory => exact drained_here stopped drained

theorem left_all {whole : Prop} (left : Left whole results packets) (holds : whole)
    (noNul : nul ∉ receivedBytes results) (fits : ResidueFree (bufferLength (receivedBytes results))
      (segments newline (receivedBytes results))) : packets = deliveredLines results := by
  cases left with
  | unread stopped => exact (stopped_returned stopped).symm
  | drained stopped drained gives memory =>
    obtain ⟨fuel, all⟩ := drained_all stopped drained noNul fits
    rw [memory holds] at gives
    rw [all, drainLoop, gives, List.append_nil]

end Lines

def AllocationsSucceed (conn : Nat) (actions : List Action) : Prop :=
  ∀ succeeds, Action.handler conn (.alloc succeeds) ∈ actions → succeeds = true

theorem allocations_before {conn : Nat} {past : List Action} {action : Action}
    (succeed : AllocationsSucceed conn (past ++ [action])) : AllocationsSucceed conn past :=
  fun succeeds member => succeed succeeds (List.mem_append_left _ member)

section Steps
variable {s t : Server} {index : Nat} {handler : HandlerThread} {answer : HandlerAnswer}
  {results : List RecvResult} {packets : List (List UInt8)} {whole later : Prop}

theorem transition_leaving (found : s.handlers[index]? = some handler)
    (progress : Progress results packets handler.phase)
    (held : Leaving whole results packets handler.phase)
    (weaker : later → whole) (memory : ∀ succeeds, answer = .alloc succeeds → later → succeeds = true)
    (transition : Transition s index handler answer t) :
    ∃ next, t.handlers.map HandlerThread.phase =
        (s.handlers.map HandlerThread.phase).set index next ∧
      Leaving later (results ++ recvOf answer)
        (packets ++ packetsOf index (handlerEvents index handler.phase answer)) next := by
  have stays : s.handlers.map HandlerThread.phase =
      (s.handlers.map HandlerThread.phase).set index handler.phase := by
    have same := @setHandler_map _ s index handler handler HandlerThread.phase found rfl
    simpa [Server.setHandler] using same.symm
  cases transition with
  | begins here =>
    rw [here] at progress
    refine ⟨.recv startReceiving, by simp [Server.setHandler], ?_⟩
    simp [Leaving, here, handlerEvents, progress.2]
  | receives here received goes =>
    rename_i state next result grows junk peer
    rw [here] at progress
    refine ⟨.recv next, by simp [Server.setHandler], ?_⟩
    simp [Leaving, here, handlerEvents, progress.1]
  | receivesLast here received goes =>
    rename_i state next result grows junk peer
    exact ⟨.extract next, by simp [Server.setHandler], trivial⟩
  | receivesNothing here received goes =>
    rename_i state result grows junk peer buf len
    rw [here] at progress
    obtain ⟨rfl, run⟩ := progress
    refine ⟨.lastExtract buf len, by simp [Server.setHandler], ?_⟩
    rw [here]
    exact .unread ⟨results, result, state, rfl, run, recv_alone run received goes (by simp)⟩
  | extractsNothing here gives =>
    rename_i state succeeds buf
    rw [here] at progress
    obtain ⟨first, stopped, sized, drained⟩ := progress
    refine ⟨.lastExtract (some buf) state.len, by simp [Server.setHandler], ?_⟩
    rw [here]
    simp only [recvOf, handlerEvents, packetsOf_nil, List.append_nil]
    rw [sized] at gives
    exact .drained stopped drained gives (memory succeeds rfl)
  | extracts here gives =>
    rename_i state succeeds token buf
    exact ⟨.lock ⟨buf, state.index, state.len⟩ (cString token), by simp [Server.setHandler], trivial⟩
  | locks here free =>
    rename_i state msg
    exact ⟨.critical state (beginPacket msg), by simp [Server.setHandler], trivial⟩
  | answers here granted gives =>
    rename_i state call next result peer file
    exact ⟨.critical state next, by simp [Server.setHandler], trivial⟩
  | exits here granted gives => exact ⟨handler.phase, stays, by rw [here]; trivial⟩
  | unlocks here =>
    rename_i state sent
    exact ⟨.extract state, by simp [Server.setHandler], trivial⟩
  | extractsLast here gives =>
    rw [here] at held
    refine ⟨.close, by simp [Server.setHandler], ?_⟩
    rw [here]
    simpa [recvOf, handlerEvents, Leaving] using left_weaker weaker held
  | closes here =>
    rw [here] at held
    refine ⟨.finished, by simp [Server.setHandler], ?_⟩
    rw [here]
    simpa [recvOf, handlerEvents, Leaving] using left_weaker weaker held
  | ends live called receiving raises stops =>
    refine ⟨handler.phase, stays, ?_⟩
    rw [(ends_quiet called raises index).1, packetsOf_nil, List.append_nil]
    cases answer with
    | recv result grows junk =>
      obtain ⟨state, here⟩ := receiving result grows junk rfl
      rw [here] at held ⊢
      exact held
    | _ =>
      simpa [recvOf] using leaving_weaker weaker held

end Steps

def AllLeaving (daemonMode : Bool) (file : OpenFile) (past : List Action) (s : Server) : Prop :=
  ∀ conn phase, (s.handlers.map HandlerThread.phase)[conn]? = some phase →
    Leaving (AllocationsSucceed conn past) (resultsOf conn past)
      (packetsOf conn (logTrace daemonMode file past)) phase

section Runs
variable {daemonMode : Bool} {file : OpenFile} {s t : Server} {past : List Action}

theorem allLeaving_step {action : Action} (held : AllLeaving daemonMode file past s)
    (run : machine.run (boot daemonMode file) past = some s) (taken : step s action = some t) :
    AllLeaving daemonMode file (past ++ [action]) t := by
  have running := step_running taken
  have events := logTrace_snoc run taken
  have progress := allProgress_run run
  intro conn phase foundAfter
  rcases step_transition taken with ⟨index, answer, handler, rfl, found, transition⟩ | ⟨other, kept⟩
  · simp only [logEvents, found] at events
    obtain ⟨inside, _⟩ := List.getElem?_eq_some_iff.mp found
    have here : (s.handlers.map HandlerThread.phase)[index]? = some handler.phase := by
      simp [found]
    have memory (succeeds : Bool) (is_alloc : answer = .alloc succeeds)
        (succeed : AllocationsSucceed index (past ++ [.handler index answer])) :
        succeeds = true :=
      succeed succeeds (by simp [is_alloc])
    obtain ⟨next, phases, leaving⟩ := transition_leaving found
      (progress.started index _ here (Or.inl running)) (held index _ here) allocations_before memory
      transition
    rw [events, resultsOf_handler, packetsOf_append]
    rw [phases, List.getElem?_set] at foundAfter
    by_cases same : index = conn
    · subst same
      simp only [List.length_map, inside, ↓reduceIte, Option.some.injEq] at foundAfter ⊢
      rw [← foundAfter]
      exact leaving
    · rw [if_neg same] at foundAfter
      rw [if_neg same, packetsOf_other same, List.append_nil, List.append_nil]
      exact leaving_weaker allocations_before (held conn phase foundAfter)
  · rw [logEvents_other other, List.append_nil] at events
    rw [events, resultsOf_other other]
    rcases kept with same | added
    · rw [same] at foundAfter
      exact leaving_weaker allocations_before (held conn phase foundAfter)
    · rw [added, List.getElem?_append] at foundAfter
      split at foundAfter
      · exact leaving_weaker allocations_before (held conn phase foundAfter)
      · obtain rfl : phase = .begin := by
          simpa using List.mem_of_getElem? foundAfter
        trivial

theorem allLeaving_run (run : machine.run (boot daemonMode file) past = some s) :
    AllLeaving daemonMode file past s := by
  have keeps (before : List Action) (mid : Server) (action : Action) (t : Server)
      (_ : before ++ [action] <+: past) (reached : machine.run (boot daemonMode file) before = some mid)
      (held : AllLeaving daemonMode file before mid) (taken : machine.step mid action = some t) :
      AllLeaving daemonMode file (before ++ [action]) t :=
    allLeaving_step held reached taken
  have start : AllLeaving daemonMode file [] (boot daemonMode file) := by
    intro conn phase found
    simp [boot] at found
  exact history_front start keeps List.prefix_rfl run

theorem passed_drained (run : machine.run (boot daemonMode file) past = some s) (conn : Nat) :
    FromDrain (resultsOf conn past) (packetsOf conn (logTrace daemonMode file past)) := by
  have progress := allProgress_run run
  cases here : (s.handlers.map HandlerThread.phase)[conn]? with
  | none =>
    obtain ⟨_, none⟩ := progress.absent conn (by simpa using here)
    exact Or.inl none
  | some phase =>
    have leaving := allLeaving_run run conn phase here
    have held := progress.started conn phase here
    cases phase with
    | begin => exact Or.inl (held (Or.inr (by simp))).2
    | recv state => exact Or.inl leaving
    | extract state =>
      obtain ⟨first, stopped, _, drained⟩ := held (Or.inr (by simp))
      exact drained_here stopped drained
    | lock state msg =>
      obtain ⟨first, stopped, _, drained⟩ := held (Or.inr (by simp))
      exact Or.inr ⟨first, state.buf, [msg], stopped, drained⟩
    | critical state call =>
      obtain ⟨first, stopped, _, drained⟩ := held (Or.inr (by simp))
      exact drained_here stopped drained
    | lastExtract fullMsg bufSize => exact left_drained leaving
    | close => exact left_drained leaving
    | finished => exact left_drained leaving

theorem passed_lines (run : machine.run (boot daemonMode file) past = some s) (conn : Nat)
    (noNul : nul ∉ receivedBytes (resultsOf conn past))
    (fits : ResidueFree (bufferLength (receivedBytes (resultsOf conn past)))
      (segments newline (receivedBytes (resultsOf conn past)))) :
    packetsOf conn (logTrace daemonMode file past) <+: deliveredLines (resultsOf conn past) := by
  rcases passed_drained run conn with none | ⟨first, buf, more, stopped, drained⟩
  · rw [none]
    exact List.nil_prefix
  · exact (List.prefix_append _ more).trans (drained_front stopped drained noNul fits)

theorem recv_takes {index : Nat} {result : RecvResult} {grows : Bool} {junk : Nat → UInt8}
    (taken : handlerStep s index (.recv result grows junk) = some t) :
    ∃ handler peer, s.handlers[index]? = some handler ∧ handler.peer.receive result = some peer := by
  unfold handlerStep at taken
  cases found : s.handlers[index]? with
  | none => simp [found] at taken
  | some handler =>
    cases received : handler.peer.receive result with
    | some peer => exact ⟨handler, peer, rfl, received⟩
    | none => cases phase : handler.phase <;> simp [found, phase, received] at taken

theorem resultsOf_same {conn : Nat} {action : Action}
    (receives : ¬ ∃ result grows junk, action = .handler conn (.recv result grows junk)) :
    resultsOf conn (past ++ [action]) = resultsOf conn past := by
  cases action with
  | handler index answer =>
    rw [resultsOf_handler]
    by_cases own : index = conn
    · cases answer with
      | recv result grows junk => exact absurd ⟨result, grows, junk, by rw [own]⟩ receives
      | _ => simp [recvOf]
    · simp [own]
  | _ => exact resultsOf_other (by simp) conn past

theorem received_was_sent (run : machine.run (boot daemonMode file) past = some s) (conn : Nat) :
    receivedBytes (resultsOf conn past) <+: sentBytes daemonMode file conn past := by
  cases past using List.reverseRecOn with
  | nil => exact List.nil_prefix
  | append_singleton before action =>
    obtain ⟨mid, earlier, taken⟩ := run_snoc_iff.mp run
    have running := step_running taken
    have conserved := conserved_run earlier
    have known : receivedBytes (resultsOf conn before) <+: sentBytes daemonMode file conn before := by
      cases found : (mid.handlers.map HandlerThread.peer)[conn]? with
      | none =>
        rw [(conserved.absent conn (by simpa using found)).1]
        exact List.nil_prefix
      | some peer => exact ⟨peer.inbox, conserved.sent running conn peer found⟩
    rw [sentBytes_snoc conn earlier taken]
    by_cases receives : ∃ result grows junk, action = .handler conn (.recv result grows junk)
    · obtain ⟨result, grows, junk, rfl⟩ := receives
      have handled : handlerStep mid conn (.recv result grows junk) = some s := by
        have here := taken
        simp only [machine, step, running, ↓reduceIte] at here
        exact here
      obtain ⟨handler, peer, found, received⟩ := recv_takes handled
      have sent := conserved.sent running conn handler.peer (by simp [found])
      rw [← receive_conserves received] at sent
      refine ⟨peer.inbox, ?_⟩
      rw [resultsOf_handler, if_pos rfl, recvOf, receivedBytes_snoc, List.append_assoc, sent]
      simp [inputs]
    · rw [resultsOf_same receives]
      exact known.trans (List.prefix_append _ _)

/-- From end to end. What the server takes of a client is the first part of what the client
    sends; of the handler's records the file holds, in their order and each once, the lines
    of that message, in the end all of them, and the client is echoed the log up to each. -/
theorem client_message_is_logged {actions : List Action}
    (undisturbed : machine.Along Undisturbed (boot daemonMode file) actions)
    (run : machine.run (boot daemonMode file) actions = some s) (conn : Nat)
    (noNul : nul ∉ sentBytes daemonMode file conn actions)
    (fits : ResidueFree (bufferLength (receivedBytes (resultsOf conn actions)))
      (segments newline (receivedBytes (resultsOf conn actions)))) :
    receivedBytes (resultsOf conn actions) <+: sentBytes daemonMode file conn actions ∧
      ∃ appends : List (SharedLog.Thread Nat × List UInt8),
        s.file.content <+: contents file.content appends ∧
        (s.mutex = none → s.file.content = contents file.content appends) ∧
        recordsOf (.handler conn) appends <+:
          (deliveredLines (resultsOf conn actions)).map packetRecord ∧
        ∀ handler, s.handlers[conn]? = some handler → handler.phase = .finished →
          AllocationsSucceed conn actions →
            recordsOf (.handler conn) appends =
              (deliveredLines (resultsOf conn actions)).map packetRecord ∧
            echoesOf conn (logTrace daemonMode file actions) =
              snapshotsOf (.handler conn) file.content appends := by
  have sent := received_was_sent run conn
  have free : nul ∉ receivedBytes (resultsOf conn actions) := fun member => noNul (sent.subset member)
  obtain ⟨x, appends, shown, held⟩ := shown_serialised undisturbed run
  obtain ⟨front, whole⟩ := shown_file shown held
  have records := shown_records shown held conn
  refine ⟨sent, appends, front, fun unlocked => (whole unlocked).1, ?_, ?_⟩
  · rw [records]
    exact (passed_lines run conn free fits).map _
  · intro handler found done succeed
    have left := allLeaving_run run conn .finished (by simp [found, done])
    constructor
    · rw [records, left_all left succeed free fits]
    · exact shown_echoes shown held (by simp [callOf, found, done, phaseCall])

end Runs

theorem spoken_sent : sentBytes false ⟨[], 0⟩ 0 spokenLife = [97, newline] := by
  obtain ⟨sends, drained, received, extracted⟩ := speaking_steps
  obtain ⟨nothing, last⟩ := closing_steps
  rw [sentBytes, spokenLife, collect_append speaking_client_run, collect_append one_client_run,
    collect_append (served_client_run spokenRest), speakingClient, closedClient,
    SimulatedRuns.collect_cons sends, SimulatedRuns.collect_cons received,
    SimulatedRuns.collect_cons extracted, SimulatedRuns.collect_cons nothing,
    SimulatedRuns.collect_cons last]
  rfl

theorem spoken_undisturbed : machine.Along Undisturbed (boot false ⟨[], 0⟩) spokenLife := by
  refine SimulatedRuns.along_append speaking_client_run ?_
    (SimulatedRuns.along_append (served_client_run spokenRest) (by decide) ?_)
  · apply along_of_forall
    simp [startup, oneClient, speakingClient, Undisturbed]
  · apply along_of_forall
    simp [closedClient, Undisturbed]

theorem spoken_line_is_logged :
    ∃ appends : List (SharedLog.Thread Nat × List UInt8),
      [97, newline] = contents [] appends ∧ recordsOf (.handler 0) appends = [[97, newline]] ∧
        echoesOf 0 (logTrace false ⟨[], 0⟩ spokenLife) = snapshotsOf (.handler 0) [] appends := by
  obtain ⟨_, appends, _, whole, _, last⟩ := client_message_is_logged spoken_undisturbed
    spoken_life_run 0 (by rw [spoken_sent]; decide) (by decide)
  obtain ⟨records, echoes⟩ := last _ rfl rfl (by
    intro succeeds member
    simpa [spokenLife, startup, oneClient, speakingClient, servedClient, closedClient] using member)
  exact ⟨appends, whole rfl, records, echoes⟩

end ClientDelivery
