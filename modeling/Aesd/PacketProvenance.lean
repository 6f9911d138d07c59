import Aesd.ConnectionRefinement
import Aesd.CutFreeInfixes

/-! Where the packets come from. Stale bytes stay behind in the receive buffer and may be
    scanned again, but whatever the drain makes of them, a packet is a contiguous part of
    what the client of this very connection has sent. -/
namespace PacketProvenance
open TransitionRuns CutFreeInfixes PacketAppend PacketSteps TokenExtraction PacketDrain ReceiveLoop
  ReceiveBuffer ServerState ServerSteps ServerMoves HandlerTransitions LogRefinement
  ConnectionRefinement

structure Piece (stream msg : List UInt8) : Prop where
  inside : msg <:+: stream
  noNul : nul ∉ msg
  noNewline : newline ∉ msg

/-- A receive buffer whose content stems from the stream, with a terminator at its end. -/
structure Stems (stream : List UInt8) (len : Nat) (buf : List UInt8) : Prop where
  made : MadeFrom nul stream buf
  ends : buf.getLast? = some nul
  size : buf.length = len

theorem piece_longer {stream msg : List UInt8} (piece : Piece stream msg) (more : List UInt8) :
    Piece (stream ++ more) msg :=
  ⟨piece.inside.trans (List.prefix_append stream more).isInfix, piece.noNul, piece.noNewline⟩

theorem cString_avoids (bytes : List UInt8) : nul ∉ cString bytes := by
  intro member
  have other := List.mem_takeWhile_imp member
  simp at other

theorem piece_of_line {stream line rest : List UInt8} (free : newline ∉ line)
    (made : MadeFrom nul stream (line ++ newline :: rest)) : Piece stream (cString line) := by
  have front : cString line <+: line := List.takeWhile_prefix _
  have inside : cString line <:+: line ++ newline :: rest :=
    (front.trans (List.prefix_append line _)).isInfix
  exact ⟨made _ inside (cString_avoids line), cString_avoids line,
    fun member => free (front.subset member)⟩

theorem rest_ends {line rest : List UInt8} (ends : (line ++ newline :: rest).getLast? = some nul) :
    rest.getLast? = some nul := by
  cases last : rest.getLast? with
  | none =>
    rw [List.getLast?_eq_none_iff] at last
    simp [last] at ends
  | some byte =>
    rw [List.getLast?_append, List.getLast?_cons, last] at ends
    simpa using ends

theorem extract_stems {stream buf token after : List UInt8} {len : Nat} (held : Stems stream len buf)
    (gives : extractTokenAndConsolidateBuffer true buf len = some ⟨some token, after⟩) :
    Piece stream (cString token) ∧ Stems stream len after := by
  obtain ⟨made, ends, rfl⟩ := held
  by_cases member : newline ∈ buf
  · obtain ⟨line, rest, rfl, free⟩ := List.eq_append_cons_of_mem member
    rw [extract_line free] at gives
    obtain ⟨sameToken, sameAfter⟩ := Extraction.mk.inj (Option.some.inj gives)
    obtain rfl := Option.some.inj sameToken
    subst sameAfter
    rw [packet_of_line]
    have restEnds := rest_ends ends
    obtain ⟨front, shape⟩ := List.getLast?_eq_some_iff.mp restEnds
    have restMade : MadeFrom nul stream (front ++ [nul]) := by
      rw [← shape]
      exact madeFrom_infix made ⟨line ++ [newline], [], by simp⟩
    have behind : MadeFrom nul stream ((line ++ nul :: rest).drop rest.length) :=
      madeFrom_infix (madeFrom_overwrite made) (List.drop_suffix _ _).isInfix
    refine ⟨piece_of_line free made, ?_, ?_, ?_⟩
    · have both := madeFrom_append restMade behind
      rwa [← shape] at both
    · have kept : ¬(line ++ nul :: rest).length ≤ rest.length := by
        simp only [List.length_append, List.length_cons]
        omega
      rw [List.getLast?_append, List.getLast?_drop, if_neg kept, List.getLast?_append,
        List.getLast?_cons, restEnds]
      rfl
    · simp only [List.length_append, List.length_drop, List.length_cons]
      omega
  · rw [extract_free member] at gives
    simp at gives

theorem drained_stems {stream first buf : List UInt8} {len : Nat} {packets : List (List UInt8)}
    (held : Stems stream len first) (drained : Drained len first packets buf) :
    (∀ msg ∈ packets, Piece stream msg) ∧ Stems stream len buf := by
  induction drained with
  | start => exact ⟨by simp, held⟩
  | round drained gives ih =>
    obtain ⟨pieces, here⟩ := ih
    obtain ⟨piece, next⟩ := extract_stems here gives
    refine ⟨?_, next⟩
    intro msg member
    rcases List.mem_append.mp member with earlier | last
    · exact pieces msg earlier
    · rw [List.mem_singleton.mp last]
      exact piece

theorem received_cases (junk : Nat → UInt8) {data : List UInt8} {state : Receiving}
    (held : Received data state) (bytes : List UInt8) :
    (bytes = [] ∧ onRecv junk true state (.data bytes) =
        .returned (some (data ++ zeros bufChunkSize)) state.len) ∨
      (bytes ≠ [] ∧ bytes.length < bufChunkSize ∧ onRecv junk true state (.data bytes) =
        .drain ⟨data ++ bytes ++ zeros (bufChunkSize - bytes.length), state.index, state.len⟩) ∨
      (bytes.length = bufChunkSize ∧ ∃ next,
        onRecv junk true state (.data bytes) = .again next ∧ Received (data ++ bytes) next) ∨
      onRecv junk true state (.data bytes) = .fault := by
  rcases Nat.lt_trichotomy bytes.length bufChunkSize with short | full | long
  · by_cases empty : bytes = []
    · subst empty
      exact Or.inl ⟨rfl, onRecv_shutdown held⟩
    · exact Or.inr (Or.inl ⟨empty, short, onRecv_short junk true held short empty⟩)
  · exact Or.inr (Or.inr (Or.inl ⟨full, onRecv_full junk held full⟩))
  · have overflow : storeAt state.buf state.index bytes = none := by
      rw [storeAt, if_neg]
      rw [held.buf_eq, held.index_eq, List.length_append, zeros_length]
      omega
    exact Or.inr (Or.inr (Or.inr (by simp [onRecv, overflow])))

theorem drain_starts {junk : Nat → UInt8} {data : List UInt8} {state first : Receiving}
    {result : RecvResult} (held : Received data state)
    (goes : onRecv junk true state result = .drain first) :
    Stems (data ++ chunkOf result) first.len first.buf := by
  cases result with
  | error => simp [onRecv] at goes
  | data bytes =>
    rcases received_cases junk held bytes with ⟨_, shut⟩ | ⟨_, short, drains⟩ | ⟨_, _, again, _⟩ | fault
    · simp [shut] at goes
    · rw [drains] at goes
      obtain rfl := ReceiveNext.drain.inj goes
      obtain ⟨more, left⟩ : ∃ more, bufChunkSize - bytes.length = more + 1 :=
        ⟨bufChunkSize - bytes.length - 1, by omega⟩
      refine ⟨madeFrom_padded _ _, ?_, ?_⟩
      · simp [left, zeros, List.replicate_succ']
      · simp only [List.length_append, zeros_length, held.len_eq]
        omega
    · simp [again] at goes
    · simp [fault] at goes

theorem inDrain_pieces {results : List RecvResult} {packets : List (List UInt8)} {state : Receiving}
    (drain : InDrain results packets state) :
    ∀ msg ∈ packets, Piece (receivedBytes results) msg := by
  obtain ⟨first, ⟨before, last, mid, rfl, run, goes⟩, _, drained⟩ := drain
  have stems := drain_starts (received_of_run (run fun _ => nul)) (goes fun _ => nul)
  rw [← receivedBytes_snoc] at stems
  exact (drained_stems stems drained).1

structure Input where
  conn : Nat
  bytes : List UInt8
  deriving DecidableEq, Repr

def Input.bytesTo (conn : Nat) (input : Input) : List UInt8 :=
  if input.conn = conn then input.bytes else []

/-- A connection may have bytes waiting when it gets its handler. -/
def listenInputs (s : Server) (answer : ListenAnswer) : List Input :=
  match s.listen, answer with
  | .createThread connection, .ok => [⟨s.handlers.length, connection.peer.inbox⟩]
  | _, _ => []

def inputs (s : Server) : Action → List Input
  | .client index (.sends bytes) => [⟨index, bytes⟩]
  | .listen answer => listenInputs s answer
  | _ => []

def sentBytes (daemonMode : Bool) (file : OpenFile) (conn : Nat) (actions : List Action) :
    List UInt8 :=
  (machine.collect inputs (boot daemonMode file) actions).flatMap (Input.bytesTo conn)

section Conserved
variable {daemonMode : Bool} {file : OpenFile} {s t : Server} {past : List Action}

theorem sentBytes_snoc {action : Action} (conn : Nat)
    (run : machine.run (boot daemonMode file) past = some s) (taken : step s action = some t) :
    sentBytes daemonMode file conn (past ++ [action]) =
      sentBytes daemonMode file conn past ++ (inputs s action).flatMap (Input.bytesTo conn) := by
  rw [sentBytes, collect_snoc run taken, List.flatMap_append]
  rfl

theorem receive_conserves {peer after : Peer} {result : RecvResult}
    (received : peer.receive result = some after) : chunkOf result ++ after.inbox = peer.inbox := by
  unfold Peer.receive at received
  split at received
  · split at received
    · cases received
      rfl
    · simp at received
  · split at received
    · cases received
      rfl
    · simp at received
  · split at received
    · rename_i guard
      cases received
      obtain ⟨later, inbox⟩ := List.isPrefixOf_iff_prefix.mp guard.1
      simp only [chunkOf, ← inbox, List.drop_left]
    · simp at received

theorem grants_inbox {peer after : Peer} {call : PacketCall} {answer : PacketAnswer}
    (granted : peer.grants call answer = .proceeds after) : after.inbox = peer.inbox := by
  unfold Peer.grants at granted
  split at granted
  · split at granted
    · simp at granted
    · split at granted
      · simp at granted
      · cases granted
        rfl
  · cases granted
    rfl

theorem transition_conserves {index : Nat} {handler : HandlerThread} {answer : HandlerAnswer}
    (transition : Transition s index handler answer t) (running : t.status = .running) :
    ∃ next, t.handlers = s.handlers.set index next ∧
      (recvOf answer).flatMap chunkOf ++ next.peer.inbox = handler.peer.inbox := by
  cases transition with
  | receives _ received _ =>
    exact ⟨_, rfl, by simpa [recvOf] using receive_conserves received⟩
  | receivesLast _ received _ =>
    exact ⟨_, rfl, by simpa [recvOf] using receive_conserves received⟩
  | receivesNothing _ received _ =>
    exact ⟨_, rfl, by simpa [recvOf] using receive_conserves received⟩
  | answers _ granted _ =>
    exact ⟨_, rfl, grants_inbox granted⟩
  | exits => cases running
  | ends _ _ _ _ stops => exact absurd running stops
  | _ => exact ⟨_, rfl, rfl⟩

theorem transition_length {index : Nat} {handler : HandlerThread} {answer : HandlerAnswer}
    (transition : Transition s index handler answer t) : t.handlers.length = s.handlers.length := by
  cases transition with
  | exits => rfl
  | ends => rfl
  | _ => simp [Server.setHandler]

/-- What a handler has received and what is still under way to it is what was sent. -/
structure Conserved (daemonMode : Bool) (file : OpenFile) (past : List Action) (s : Server) :
    Prop where
  sent : s.status = .running → ∀ conn peer, (s.handlers.map HandlerThread.peer)[conn]? = some peer →
    receivedBytes (resultsOf conn past) ++ peer.inbox = sentBytes daemonMode file conn past
  absent : ∀ conn, s.handlers.length ≤ conn →
    resultsOf conn past = [] ∧ sentBytes daemonMode file conn past = []

theorem conserved_boot (daemonMode : Bool) (file : OpenFile) :
    Conserved daemonMode file [] (boot daemonMode file) where
  sent := by
    intro _ conn peer found
    simp [boot] at found
  absent _ _ := ⟨rfl, rfl⟩

theorem conserved_kept {action : Action} (held : Conserved daemonMode file past s)
    (running : s.status = .running)
    (same : t.handlers.map HandlerThread.peer = s.handlers.map HandlerThread.peer)
    (results : ∀ conn, resultsOf conn (past ++ [action]) = resultsOf conn past)
    (sent : ∀ conn, sentBytes daemonMode file conn (past ++ [action]) =
      sentBytes daemonMode file conn past) : Conserved daemonMode file (past ++ [action]) t := by
  constructor
  · intro _ conn peer found
    rw [same] at found
    rw [results, sent]
    exact held.sent running conn peer found
  · intro conn outside
    have size := congrArg List.length same
    simp only [List.length_map] at size
    rw [results, sent]
    exact held.absent conn (by omega)

theorem conserved_handler {index : Nat} {answer : HandlerAnswer} {handler : HandlerThread}
    (held : Conserved daemonMode file past s) (running : s.status = .running)
    (found : s.handlers[index]? = some handler)
    (transition : Transition s index handler answer t)
    (sent : ∀ conn, sentBytes daemonMode file conn (past ++ [.handler index answer]) =
      sentBytes daemonMode file conn past) :
    Conserved daemonMode file (past ++ [.handler index answer]) t := by
  obtain ⟨inside, _⟩ := List.getElem?_eq_some_iff.mp found
  constructor
  · intro live conn peer foundAfter
    obtain ⟨next, handlers, balance⟩ := transition_conserves transition live
    rw [handlers, List.map_set, List.getElem?_set] at foundAfter
    rw [resultsOf_handler, sent]
    by_cases same : index = conn
    · subst same
      simp only [List.length_map, inside, ↓reduceIte, Option.some.injEq] at foundAfter ⊢
      subst foundAfter
      have before := held.sent running index handler.peer (by simp [found])
      rw [← balance] at before
      simpa [receivedBytes] using before
    · rw [if_neg same] at foundAfter
      rw [if_neg same, List.append_nil]
      exact held.sent running conn peer foundAfter
  · intro conn outside
    rw [transition_length transition] at outside
    obtain ⟨noResults, noBytes⟩ := held.absent conn outside
    rw [resultsOf_handler, if_neg (by omega), sent, noResults, noBytes]
    exact ⟨rfl, rfl⟩

theorem listen_handlers {answer : ListenAnswer} (taken : listenStep s answer = some t) :
    (t.handlers = s.handlers ∧ listenInputs s answer = []) ∨
      ∃ connection : Accepted,
        t.handlers = s.handlers ++ [⟨connection.fd, connection.peer, .begin, false⟩] ∧
          listenInputs s answer = [⟨s.handlers.length, connection.peer.inbox⟩] := by
  unfold listenStep at taken
  split at taken
  case h_13 connection here =>
    cases taken
    exact Or.inr ⟨connection, rfl, by simp [listenInputs, here]⟩
  all_goals
    left
    unfold listenInputs
    first
    | exact ⟨withFlag_handlers (Option.some.inj taken) fun _ => rfl, by simp [*]⟩
    | split at taken
      · cases taken
        exact ⟨rfl, by simp [*]⟩
      · simp at taken
    | cases taken <;> exact ⟨rfl, by simp [*]⟩

theorem stamp_handlers {answer : StampAnswer} (taken : stampStep s answer = some t) :
    t.handlers = s.handlers := by
  cases stampStep_moves taken with
  | _ => rfl

theorem signal_handlers (s : Server) (signal : Signal) :
    (signalStep s signal).handlers = s.handlers := by
  unfold signalStep
  split
  · split <;> rfl
  · rfl

theorem conserved_creates {answer : ListenAnswer} {connection : Accepted}
    (held : Conserved daemonMode file past s) (running : s.status = .running)
    (added : t.handlers = s.handlers ++ [⟨connection.fd, connection.peer, .begin, false⟩])
    (sent : ∀ conn, sentBytes daemonMode file conn (past ++ [.listen answer]) =
      sentBytes daemonMode file conn past ++
        [(⟨s.handlers.length, connection.peer.inbox⟩ : Input)].flatMap (Input.bytesTo conn)) :
    Conserved daemonMode file (past ++ [.listen answer]) t := by
  have results (conn : Nat) : resultsOf conn (past ++ [.listen answer]) = resultsOf conn past :=
    resultsOf_other (by simp) conn past
  constructor
  · intro _ conn peer found
    rw [results, sent]
    rw [added, List.map_append, List.getElem?_append] at found
    split at found
    · rename_i inside
      rw [List.length_map] at inside
      have apart : s.handlers.length ≠ conn := by omega
      have before := held.sent running conn peer found
      simp [Input.bytesTo, apart, before]
    · rename_i outside
      rw [List.length_map] at outside
      obtain ⟨noResults, noBytes⟩ := held.absent conn (by omega)
      rw [noResults, noBytes]
      obtain ⟨zero, same⟩ : conn - s.handlers.length = 0 ∧ connection.peer = peer := by
        simpa [List.getElem?_cons, List.getElem?_nil, imp_false] using found
      have here : s.handlers.length = conn := by omega
      simp [Input.bytesTo, here, receivedBytes, same]
  · intro conn outside
    have size := congrArg List.length added
    simp only [List.length_append, List.length_singleton] at size
    obtain ⟨noResults, noBytes⟩ := held.absent conn (by omega)
    have apart : s.handlers.length ≠ conn := by omega
    rw [results, sent, noResults, noBytes]
    simp [Input.bytesTo, apart]

theorem conserved_client {index : Nat} {handler : HandlerThread} {event : ClientEvent}
    (held : Conserved daemonMode file past s) (running : s.status = .running)
    (found : s.handlers[index]? = some handler)
    (sent : ∀ conn, sentBytes daemonMode file conn (past ++ [.client index event]) =
      sentBytes daemonMode file conn past ++
        (inputs s (.client index event)).flatMap (Input.bytesTo conn)) :
    Conserved daemonMode file (past ++ [.client index event])
      (s.setHandler index { handler with peer := handler.peer.onEvent event }) := by
  have results (conn : Nat) : resultsOf conn (past ++ [.client index event]) = resultsOf conn past :=
    resultsOf_other (by simp) conn past
  have arrives : (handler.peer.onEvent event).inbox =
      handler.peer.inbox ++ (inputs s (.client index event)).flatMap (Input.bytesTo index) := by
    cases event with
    | sends bytes => simp [Peer.onEvent, inputs, Input.bytesTo]
    | _ => simp [Peer.onEvent, inputs]
  have elsewhere (conn : Nat) (apart : index ≠ conn) :
      (inputs s (.client index event)).flatMap (Input.bytesTo conn) = [] := by
    cases event with
    | sends bytes => simp [inputs, Input.bytesTo, apart]
    | _ => simp [inputs]
  obtain ⟨inside, _⟩ := List.getElem?_eq_some_iff.mp found
  constructor
  · intro _ conn peer foundAfter
    rw [Server.setHandler, List.map_set, List.getElem?_set] at foundAfter
    rw [results, sent]
    by_cases same : index = conn
    · subst same
      simp only [List.length_map, inside, ↓reduceIte, Option.some.injEq] at foundAfter
      subst foundAfter
      rw [arrives, ← held.sent running index handler.peer (by simp [found]), List.append_assoc]
    · rw [if_neg same] at foundAfter
      rw [elsewhere conn same, List.append_nil]
      exact held.sent running conn peer foundAfter
  · intro conn outside
    rw [Server.setHandler, List.length_set] at outside
    obtain ⟨noResults, noBytes⟩ := held.absent conn outside
    rw [results, sent, noResults, noBytes, elsewhere conn (by omega)]
    exact ⟨rfl, rfl⟩

theorem conserved_step {action : Action} (held : Conserved daemonMode file past s)
    (run : machine.run (boot daemonMode file) past = some s) (taken : step s action = some t) :
    Conserved daemonMode file (past ++ [action]) t := by
  have running := step_running taken
  have sent (conn : Nat) := sentBytes_snoc conn run taken
  unfold step at taken
  rw [if_pos running] at taken
  have stays (quiet : inputs s action = []) (conn : Nat) :
      sentBytes daemonMode file conn (past ++ [action]) = sentBytes daemonMode file conn past := by
    rw [sent, quiet]
    simp
  cases action with
  | main answer =>
    have same := main_keeps (f := HandlerThread.peer) (fun _ _ => rfl) taken
    exact conserved_kept held running same (resultsOf_other (by simp) · past) (stays rfl)
  | listen answer =>
    rcases listen_handlers taken with ⟨same, quiet⟩ | ⟨connection, added, input⟩
    · exact conserved_kept held running (by rw [same]) (resultsOf_other (by simp) · past) (stays quiet)
    · apply conserved_creates held running added
      intro conn
      rw [sent, inputs, input]
  | stamp answer =>
    have same := stamp_handlers taken
    exact conserved_kept held running (by rw [same]) (resultsOf_other (by simp) · past) (stays rfl)
  | handler index answer =>
    obtain ⟨handler, found, transition⟩ := handlerStep_transition taken
    exact conserved_handler held running found transition (stays rfl)
  | client index event =>
    obtain ⟨handler, found, rfl⟩ := clientStep_moves taken
    exact conserved_client held running found sent
  | signal signal =>
    cases taken
    have same := signal_handlers s signal
    exact conserved_kept held running (by rw [same]) (resultsOf_other (by simp) · past) (stays rfl)

theorem conserved_run (run : machine.run (boot daemonMode file) past = some s) :
    Conserved daemonMode file past s := by
  have keeps (before : List Action) (mid : Server) (action : Action) (t : Server)
      (_ : before ++ [action] <+: past) (reached : machine.run (boot daemonMode file) before = some mid)
      (held : Conserved daemonMode file before mid) (taken : machine.step mid action = some t) :
      Conserved daemonMode file (before ++ [action]) t :=
    conserved_step held reached taken
  exact history_front (conserved_boot daemonMode file) keeps List.prefix_rfl run

/-- Only the step that takes the mutex passes on a packet. -/
theorem packet_passed {index conn : Nat} {phase : HandlerPhase} {answer : HandlerAnswer}
    {msg : List UInt8} (member : msg ∈ packetsOf conn (handlerEvents index phase answer)) :
    index = conn ∧ ∃ state, phase = .lock state msg := by
  unfold handlerEvents at member
  split at member
  · rename_i state other
    rw [packetsOf_packet] at member
    split at member
    · rename_i same
      obtain rfl : msg = other := by simpa using member
      exact ⟨same, state, rfl⟩
    · simp at member
  · simp at member
  · simp at member

def AllPieces (daemonMode : Bool) (file : OpenFile) (past : List Action) (_ : Server) : Prop :=
  ∀ conn, ∀ msg ∈ packetsOf conn (logTrace daemonMode file past),
    Piece (sentBytes daemonMode file conn past) msg

theorem allPieces_step {action : Action} (held : AllPieces daemonMode file past s)
    (run : machine.run (boot daemonMode file) past = some s) (taken : step s action = some t) :
    AllPieces daemonMode file (past ++ [action]) t := by
  intro conn msg member
  rw [sentBytes_snoc conn run taken]
  apply piece_longer
  rw [logTrace_snoc run taken, packetsOf_append] at member
  rcases List.mem_append.mp member with earlier | now
  · exact held conn msg earlier
  · have running := step_running taken
    rcases step_transition taken with ⟨index, answer, handler, rfl, found, _⟩ | ⟨other, _⟩
    · simp only [logEvents, found] at now
      obtain ⟨rfl, state, here⟩ := packet_passed now
      have progress := (allProgress_run run).started index handler.phase (by simp [found]) (Or.inl running)
      rw [here] at progress
      have conserved := (conserved_run run).sent running index handler.peer (by simp [found])
      rw [← conserved]
      exact piece_longer (inDrain_pieces progress msg (by simp)) _
    · simp [logEvents_other other] at now

theorem allPieces_run (run : machine.run (boot daemonMode file) past = some s) :
    AllPieces daemonMode file past s := by
  have keeps (before : List Action) (mid : Server) (action : Action) (t : Server)
      (_ : before ++ [action] <+: past)
      (reached : machine.run (boot daemonMode file) before = some mid)
      (held : AllPieces daemonMode file before mid) (taken : machine.step mid action = some t) :
      AllPieces daemonMode file (before ++ [action]) t :=
    allPieces_step held reached taken
  have start : AllPieces daemonMode file [] (boot daemonMode file) := by
    intro conn msg member
    simp [logTrace, Machine.collect] at member
  exact history_front start keeps List.prefix_rfl run

/-- Whatever other clients send, however recv cuts the stream, and whatever stale bytes the
    drain scans again: every packet that is appended and echoed for a connection is a
    contiguous part of what the client of this connection has sent, and one line. -/
theorem packets_come_from_their_client {actions : List Action}
    (run : machine.run (boot daemonMode file) actions = some s) (conn : Nat) (msg : List UInt8)
    (passed : msg ∈ packetsOf conn (logTrace daemonMode file actions)) :
    msg <:+: sentBytes daemonMode file conn actions ∧ nul ∉ msg ∧ newline ∉ msg := by
  have piece := allPieces_run run conn msg passed
  exact ⟨piece.inside, piece.noNul, piece.noNewline⟩

end Conserved

theorem spoken_line_is_passed_on :
    [97] <:+: sentBytes false ⟨[], 0⟩ 0 spokenLife ∧ nul ∉ [97] ∧ newline ∉ [97] := by
  have passed : [97] ∈ packetsOf 0 (logTrace false ⟨[], 0⟩ spokenLife) := by
    rw [spoken_packets]
    exact List.mem_singleton.mpr rfl
  exact packets_come_from_their_client spoken_life_run 0 [97] passed

end PacketProvenance
