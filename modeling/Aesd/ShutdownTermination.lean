import Mathlib.Algebra.BigOperators.Group.Finset.Piecewise
import Mathlib.Algebra.Order.BigOperators.Group.Finset
import Aesd.BoundedShutdown
import Aesd.HandlerLife

/-! Whether the shutdown comes to an end. While the lines of all messages run out it does,
    after a bounded number of steps of all threads together. Lines that do not run out keep
    their handler from ending, and main waits in the join of that handler. -/
namespace ShutdownTermination
open TransitionRuns SeparatedSegments RecycledSegments PacketAppend TokenExtraction PacketDrain ReceiveLoop
  ReceiveBuffer DrainOutcome PacketFraming ServerState ServerSteps ServerMoves ThreadListing
  HandlerTransitions LogRefinement ConnectionRefinement PacketProvenance ClientDelivery BoundedShutdown
  HandlerLife

def anyHandler : Action → Bool
  | .handler _ _ => true
  | _ => false

def serverStep (action : Action) : Bool := service action || anyHandler action

section Bound
variable {s t : Server}

theorem handlers_grow (s : Server) (action : Action) (t : Server)
    (taken : machine.step s action = some t) : s.handlers.length ≤ t.handlers.length := by
  have here : step s action = some t := taken
  rcases step_transition here with ⟨index, answer, handler, _, found, transition⟩ | ⟨_, kept⟩
  · cases transition with
    | exits => exact Nat.le_refl _
    | ends => exact Nat.le_refl _
    | _ => simp [Server.setHandler]
  · rcases kept with same | added
    · have size := congrArg List.length same
      simp only [List.length_map] at size
      omega
    · have size := congrArg List.length added
      simp only [List.length_map, List.length_append] at size
      omega

theorem handlers_grow_run {later : List Action} (further : machine.run s later = some t) :
    s.handlers.length ≤ t.handlers.length := by
  induction later generalizing s with
  | nil =>
    obtain rfl := Option.some.inj further
    exact Nat.le_refl _
  | cons action rest ih =>
    obtain ⟨mid, taken, after⟩ := run_cons_iff.mp further
    exact Nat.le_trans (handlers_grow s action mid taken) (ih after)

theorem handlers_exist {later : List Action} (further : machine.run s later = some t)
    {index : Nat} {answer : HandlerAnswer} (member : Action.handler index answer ∈ later) :
    index < t.handlers.length := by
  induction later generalizing s with
  | nil => simp at member
  | cons action rest ih =>
    obtain ⟨mid, taken, after⟩ := run_cons_iff.mp further
    rcases List.mem_cons.mp member with rfl | member
    · have here : step s (.handler index answer) = some mid := taken
      obtain ⟨_, _, handler, same, found, _⟩ | ⟨other, _⟩ := step_transition here
      · cases same
        obtain ⟨inside, _⟩ := List.getElem?_eq_some_iff.mp found
        have first := handlers_grow s _ mid taken
        have grown := handlers_grow_run after
        omega
      · exact absurd rfl (other index answer)
    · exact ih after member

theorem handlers_counted {later : List Action} {total : Nat}
    (exist : ∀ index answer, Action.handler index answer ∈ later → index < total) :
    later.countP anyHandler = ∑ conn ∈ Finset.range total, later.countP (ofHandler conn) := by
  induction later with
  | nil => simp
  | cons action rest ih =>
    have before := ih fun index answer member => exist index answer (List.mem_cons_of_mem _ member)
    have here : (if anyHandler action then 1 else 0) =
        ∑ conn ∈ Finset.range total, if ofHandler conn action then 1 else 0 := by
      cases action with
      | handler index answer =>
        have inside := exist index answer List.mem_cons_self
        simp [anyHandler, ofHandler, inside]
      | _ => simp [anyHandler, ofHandler]
    simp only [List.countP_cons, Finset.sum_add_distrib, before, here]

theorem serverStep_count (actions : List Action) :
    actions.countP serverStep = actions.countP service + actions.countP anyHandler := by
  induction actions with
  | nil => rfl
  | cons action rest ih =>
    have once : (if serverStep action then 1 else 0) =
        (if service action then 1 else 0) + (if anyHandler action then 1 else 0) := by
      cases action <;> rfl
    rw [List.countP_cons, List.countP_cons, List.countP_cons, ih]
    omega

end Bound

section Messages
variable {results : List RecvResult} {packets : List (List UInt8)}

theorem stopped_by_short {past : List RecvResult} {next : ReceiveNext} (endless : Endless past)
    (front : past <+: results) (stopped : Stopped results next) :
    results = past ∧ ∃ first, next = .drain first := by
  obtain ⟨⟨before, bytes, rfl, some_bytes, short⟩, _⟩ := endless
  obtain ⟨earlier, last, state, rfl, run, goes⟩ := stopped
  have reads := run fun _ => nul
  rcases List.prefix_concat_iff.mp front with same | inside
  · obtain ⟨rfl, parts⟩ := List.append_inj' same rfl
    obtain rfl := (List.cons.inj parts).1
    have drains := onRecv_short (fun _ => nul) true (received_of_run reads) short some_bytes
    rw [goes] at drains
    exact ⟨rfl, _, drains⟩
  · obtain ⟨rest, rfl⟩ := inside
    obtain ⟨mid, reached, _⟩ := Option.bind_eq_some_iff.mp ((run_append _ _ _ _).symm.trans reads)
    obtain ⟨at_last, arrives, taken⟩ := run_snoc_iff.mp reached
    have drains := onRecv_short (fun _ => nul) true (received_of_run arrives) short some_bytes
    rw [recvStep_iff.mp taken] at drains
    cases drains

theorem not_left {whole : Prop} {past : List RecvResult} (endless : Endless past)
    (front : past <+: results) (memory : whole) : ¬ Left whole results packets := by
  intro left
  cases left with
  | unread stopped =>
    obtain ⟨_, first, drains⟩ := stopped_by_short endless front stopped
    cases drains
  | drained stopped drained gives succeeds =>
    rename_i first buf after allocated
    obtain ⟨rfl, _⟩ := stopped_by_short endless front stopped
    obtain ⟨same, _, out, _⟩ := message_rounds stopped drained
    obtain ⟨size, _, _⟩ := stopped_drain stopped
    rw [succeeds memory, size] at gives
    have stuck := endless.2
    rw [linesRunOut, ← padded_lengths (bufferLength _), ← out] at stuck
    cases lines : segmentLengths newline buf with
    | nil => simp [lines, runsOut] at stuck
    | cons line rest =>
      obtain ⟨⟨token, moved, taken, _, _⟩, _⟩ := extract_next same lines
      rw [gives] at taken
      cases taken

end Messages

section Runs
variable {daemonMode : Bool} {file : OpenFile} {s t : Server} {past : List Action}

/-- After a stop signal all threads of the server together make no more steps than this,
    whatever the clients and the other signals do, unless there is a message whose lines do
    not run out. -/
theorem shutdown_terminates {later : List Action}
    (run : machine.run (boot daemonMode file) past = some s) (lowered : s.runFlag = .live false)
    (further : machine.run s later = some t)
    (ends : ∀ conn, ¬ Endless (resultsOf conn (past ++ later))) :
    later.countP serverStep ≤
      4 * s.handlers.length + 40 + unprinted s.stamp + (later.map textLength).sum +
        ∑ conn ∈ Finset.range t.handlers.length,
          lifeBound (receivedBytes (resultsOf conn (past ++ later))) t.file.content.length := by
  have whole : machine.run (boot daemonMode file) (past ++ later) = some t := by
    rw [run_append, run, Option.bind_some]
    exact further
  obtain ⟨shutting, rank⟩ := lowered_rank run lowered
  have paid := service_paid shutting further
  have lives : later.countP anyHandler ≤ ∑ conn ∈ Finset.range t.handlers.length,
      lifeBound (receivedBytes (resultsOf conn (past ++ later))) t.file.content.length := by
    rw [handlers_counted fun index answer member => handlers_exist further member]
    apply Finset.sum_le_sum
    intro conn _
    have bound := steps_bounded whole conn (ends conn)
    rw [← ofHandler_count, List.countP_append] at bound
    omega
  rw [serverStep_count]
  omega

/-- A message whose lines do not run out keeps its handler from ending. main waits for it in
    its join for ever, whatever all other threads and the clients do. -/
theorem endless_message_blocks_shutdown {later : List Action}
    (run : machine.run (boot daemonMode file) past = some s) {conn : Nat}
    (endless : Endless (resultsOf conn past)) (further : machine.run s later = some t)
    (memory : AllocationsSucceed conn (past ++ later)) :
    (∀ handler, t.handlers[conn]? = some handler → handler.phase ≠ .finished) ∧
      drainPoint t.main ≠ .done := by
  have whole : machine.run (boot daemonMode file) (past ++ later) = some t := by
    rw [run_append, run, Option.bind_some]
    exact further
  have front : resultsOf conn past <+: resultsOf conn (past ++ later) := by simp [resultsOf]
  have unfinished (handler : HandlerThread) (found : t.handlers[conn]? = some handler) :
      handler.phase ≠ .finished := by
    intro done
    have left := allLeaving_run whole conn .finished (by simp [found, done])
    exact not_left endless front memory left
  refine ⟨unfinished, ?_⟩
  intro drained
  cases found : t.handlers[conn]? with
  | none =>
    obtain ⟨none, _⟩ := (allProgress_run whole).absent conn (List.getElem?_eq_none_iff.mp found)
    obtain ⟨⟨before, bytes, same, _⟩, _⟩ := endless
    rw [none, same] at front
    simp at front
  | some handler =>
    obtain ⟨_, listing, _⟩ := ShutdownProgress.settled_run whole
    have joined := (listing.joined conn handler found).mpr (by rw [drained]; exact Nat.zero_le conn)
    exact unfinished handler found (listing.ended handler (List.mem_of_getElem? found) joined)

end Runs

def stopped : List Action :=
  closedClient ++ [.main .ok, .listen .ok, .listen .ok, .main .ok, .stamp .ok, .main .ok, .main .ok,
    .main .ok, .main .ok, .main .ok, .main .ok, .main .ok]

def stoppedAt (phase : HandlerPhase) : Server := { servedAt phase with runFlag := .live false }

theorem stopped_run :
    ∃ t, machine.run (stoppedAt (.extract spokenRest)) stopped = some t ∧ t.handlers.length = 1 ∧
      t.file.content = [97, newline] := by
  have nothing := @step_extractsNothing (stoppedAt (.extract spokenRest)) 0
    ⟨5, ⟨[], false, false, 0⟩, .extract spokenRest, false⟩ _ _ _ rfl rfl rfl spokenRest_extracts
  have last := @step_lastExtract
    (stoppedAt (.lastExtract (some spokenRest.buf) spokenRest.len)) 0
    ⟨5, ⟨[], false, false, 0⟩, .lastExtract (some spokenRest.buf) spokenRest.len, false⟩
    (some spokenRest.buf) spokenRest.len true _ rfl rfl rfl spokenRest_extracts
  rw [stopped, closedClient]
  exact ⟨_, run_cons_iff.mpr ⟨_, nothing, run_cons_iff.mpr ⟨_, last, rfl⟩⟩, rfl, rfl⟩

theorem stopped_in_bounded_steps :
    stopped.countP serverStep ≤ 44 + lifeBound [97, newline] 2 := by
  have run : machine.run (boot false ⟨[], 0⟩)
      (startup ++ oneClient ++ speakingClient ++ (servedClient ++ [.signal .sigterm])) =
        some (stoppedAt (.extract spokenRest)) := by
    rw [run_append, speaking_client_run, Option.bind_some, run_append, served_client_run]
    rfl
  obtain ⟨t, further, size, content⟩ := stopped_run
  have results (conn : Nat) : resultsOf conn
      (startup ++ oneClient ++ speakingClient ++ (servedClient ++ [.signal .sigterm]) ++ stopped) =
        if conn = 0 then [.data [97, newline]] else [] := by
    simp [resultsOf, startup, oneClient, speakingClient, servedClient, closedClient, stopped, recvOf,
      eq_comm]
  have ends (conn : Nat) : ¬ Endless (resultsOf conn
      (startup ++ oneClient ++ speakingClient ++ (servedClient ++ [.signal .sigterm]) ++ stopped)) := by
    rw [results]
    split
    · exact spoken_line_runs_out
    · rintro ⟨⟨before, bytes, same, _⟩, _⟩
      simp at same
  have bound := shutdown_terminates run rfl further ends
  rw [size, content, Finset.sum_range_one, results] at bound
  exact bound

def cloggingClient : List Action :=
  [.client 0 (.sends shortThenLong), .handler 0 (.recv (.data shortThenLong) true fun _ => 0)]

theorem shortThenLong_ne_nil : shortThenLong ≠ [] := by
  intro empty
  have size := shortThenLong_length
  rw [empty] at size
  cases size

theorem shortThenLong_short : shortThenLong.length < bufChunkSize := by
  rw [shortThenLong_length]
  decide

theorem receive_whole {peer : Peer} (some_bytes : peer.inbox ≠ [])
    (bounded : peer.inbox.length ≤ bufChunkSize) :
    peer.receive (.data peer.inbox) = some { peer with inbox := [] } := by
  obtain ⟨inbox, ended, reset, room⟩ := peer
  cases inbox with
  | nil => exact absurd rfl some_bytes
  | cons byte bytes =>
    simpa [Peer.receive] using bounded

theorem clogging_client_run :
    ∃ s t, machine.run (boot false ⟨[], 0⟩) (startup ++ oneClient ++ cloggingClient) = some s ∧
      machine.run s [.signal .sigterm] = some t := by
  have sends : machine.step clientInRecv (.client 0 (.sends shortThenLong)) =
      some (speakingAt shortThenLong (.recv startReceiving)) := rfl
  have reads := onRecv_short (fun _ => 0) true received_start shortThenLong_short shortThenLong_ne_nil
  have takes := @receive_whole ⟨shortThenLong, false, false, 0⟩ shortThenLong_ne_nil
    (Nat.le_of_lt shortThenLong_short)
  have received := @step_drains (speakingAt shortThenLong (.recv startReceiving)) 0
    ⟨5, ⟨shortThenLong, false, false, 0⟩, .recv startReceiving, false⟩ startReceiving _
    (.data shortThenLong) true (fun _ => 0) ⟨[], false, false, 0⟩ rfl rfl rfl takes reads
  rw [run_append, one_client_run, Option.bind_some, cloggingClient]
  exact ⟨_, _, run_cons_iff.mpr ⟨_, sends, run_cons_iff.mpr ⟨_, received, rfl⟩⟩, rfl⟩

theorem shortThenLong_clogged : linesRunOut shortThenLong = false := by
  have size : bufferLength shortThenLong = 1024 := by rw [bufferLength, shortThenLong_length]; rfl
  have lines : segmentLengths newline shortThenLong = [1, 1020] := by
    have short : newline ∉ [(97 : UInt8)] := by decide
    rw [shortThenLong, show ([97, 10] : List UInt8) ++ (List.replicate 1020 120 ++ [10]) =
      [97] ++ newline :: (List.replicate 1020 120 ++ newline :: []) from rfl,
      segmentLengths_line short, segmentLengths_line (replicate_free (by decide) 1020),
      List.length_replicate]
    rfl
  rw [linesRunOut, size, lines, runsOut, if_pos (by decide)]

theorem one_client_blocks_the_shutdown :
    ∃ s t, machine.run (boot false ⟨[], 0⟩) (startup ++ oneClient ++ cloggingClient) = some s ∧
      machine.run s [.signal .sigterm] = some t ∧ drainPoint t.main ≠ .done := by
  obtain ⟨s, t, run, further⟩ := clogging_client_run
  have endless : Endless (resultsOf 0 (startup ++ oneClient ++ cloggingClient)) := by
    constructor
    · exact ⟨[], shortThenLong, rfl, shortThenLong_ne_nil, shortThenLong_short⟩
    · rw [show resultsOf 0 (startup ++ oneClient ++ cloggingClient) = [] ++ [.data shortThenLong] from rfl,
        receivedBytes_snoc]
      exact shortThenLong_clogged
  have memory : AllocationsSucceed 0
      (startup ++ oneClient ++ cloggingClient ++ [.signal .sigterm]) := by
    intro succeeds member
    simpa [startup, oneClient, cloggingClient] using member
  have blocked := endless_message_blocks_shutdown run endless further memory
  exact ⟨s, t, run, further, blocked.2⟩

end ShutdownTermination
