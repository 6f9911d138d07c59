import Aesd.ThreadListing

/-! Whether the server can go on by itself. A thread waits for the file mutex, for another
    thread to end, or for a client, and only the last kind of wait has no end of its own. -/
namespace ShutdownProgress
open TransitionRuns LinkedCells PacketAppend PacketSteps ReceiveLoop ServerState ServerSteps
  ServerMoves ServerLifetimes ThreadListing

def ByServer : Action → Prop
  | .client _ _ => False
  | .signal _ => False
  | _ => True

def CanStep (s : Server) : Prop := ∃ action, ByServer action ∧ (machine.step s action).isSome

/-- recv has nothing to return, or the socket has no room for the echo. -/
def WaitsForClient (handler : HandlerThread) : Prop :=
  handler.peer.reset = false ∧
    match handler.phase with
    | .recv _ => handler.peer.inbox = [] ∧ handler.peer.ended = false
    | .critical _ ⟨.echo _, _⟩ => handler.peer.room = 0
    | _ => False

def WaitsForMutex (s : Server) (handler : HandlerThread) : Prop :=
  (∃ state msg, handler.phase = .lock state msg) ∧ s.mutex ≠ none

def MainWaits (s : Server) : Prop :=
  (s.main = .joinStamp ∧ s.stamp = .lock ∧ s.mutex ≠ none) ∨
    ∃ node handler, s.main = .joinNode node ∧ s.handlers[node]? = some handler ∧
      handler.phase ≠ .finished

/-- main waits in a join, and every handler that has not ended waits for its client or for
    the mutex, one of them for its client. -/
structure Stalled (s : Server) : Prop where
  main : MainWaits s
  client : ∃ handler ∈ s.handlers, WaitsForClient handler
  handlers : ∀ handler ∈ s.handlers,
    handler.phase = .finished ∨ WaitsForClient handler ∨ WaitsForMutex s handler

structure Guarded (s : Server) : Prop where
  handler : ∀ index, s.mutex = some (.handler index) →
    ∃ handler, s.handlers[index]? = some handler ∧ InPacket handler.phase
  timestamp : s.mutex = some .timestamp → Stamping s.stamp

variable {s t : Server}

theorem guarded_boot (daemonMode : Bool) (file : OpenFile) : Guarded (boot daemonMode file) :=
  ⟨by simp [boot], by simp [boot]⟩

theorem guarded_same (held : Guarded s) (mutex : t.mutex = s.mutex) (stamp : t.stamp = s.stamp)
    (phases : t.handlers.map HandlerThread.phase = s.handlers.map HandlerThread.phase) :
    Guarded t := by
  constructor
  · intro index owner
    rw [mutex] at owner
    obtain ⟨handler, found, inside⟩ := held.handler index owner
    obtain ⟨later, foundLater, same⟩ := lookup_of_map phases.symm found
    exact ⟨later, foundLater, by rwa [same]⟩
  · intro owner
    rw [mutex] at owner
    rw [stamp]
    exact held.timestamp owner

theorem guarded_main {answer : MainAnswer} (life : Lifetimes s) (held : Guarded s)
    (moves : MainMoves s answer t) : Guarded t := by
  cases moves with
  | startsStamp here =>
    have idle := life.stamp
    rw [here] at idle
    refine ⟨held.handler, ?_⟩
    intro owner
    have inside := held.timestamp owner
    rw [show s.stamp = .notStarted from idle] at inside
    exact inside.elim
  | drains here there same => exact guarded_same held rfl rfl same
  | _ => exact guarded_same held rfl rfl rfl

theorem guarded_listen {answer : ListenAnswer} (held : Guarded s)
    (moves : ListenMoves s answer t) : Guarded t := by
  cases moves with
  | creates here =>
    refine ⟨?_, held.timestamp⟩
    intro index owner
    obtain ⟨handler, found, inside⟩ := held.handler index owner
    obtain ⟨bound, _⟩ := List.getElem?_eq_some_iff.mp found
    exact ⟨handler, by rw [List.getElem?_append_left bound, found], inside⟩
  | _ => exact guarded_same held rfl rfl rfl

theorem guarded_stamp {answer : StampAnswer} (held : Guarded s)
    (moves : StampMoves s answer t) : Guarded t := by
  cases moves with
  | goes here there outside nextOutside =>
    exact ⟨held.handler, fun owner => absurd (held.timestamp owner) outside⟩
  | locks here free => exact ⟨by simp, fun _ => trivial⟩
  | formats here => exact ⟨held.handler, fun _ => trivial⟩
  | prints here there => exact ⟨held.handler, fun _ => there⟩
  | unlocks here => exact ⟨by simp, by simp⟩
  | clears here flag =>
    refine ⟨held.handler, ?_⟩
    intro owner
    have inside := held.timestamp owner
    rw [here] at inside
    exact inside.elim
  | ends here cause => exact guarded_same held rfl rfl rfl

theorem guarded_set (held : Guarded s) {index : Nat} {handler next : HandlerThread}
    (found : s.handlers[index]? = some handler)
    (kept : InPacket handler.phase → InPacket next.phase) : Guarded (s.setHandler index next) := by
  refine ⟨?_, held.timestamp⟩
  intro i owner
  obtain ⟨other, before, inside⟩ := held.handler i owner
  obtain ⟨bound, _⟩ := List.getElem?_eq_some_iff.mp found
  by_cases same : index = i
  · subst same
    obtain rfl := Option.some.inj (before.symm.trans found)
    exact ⟨next, List.getElem?_set_self bound, kept inside⟩
  · exact ⟨other, by rw [Server.setHandler, List.getElem?_set_ne same, before], inside⟩

theorem guarded_handler {index : Nat} (held : Guarded s) (moves : HandlerMoves s index t) :
    Guarded t := by
  cases moves with
  | goes found live nextLive outside nextOutside =>
    exact guarded_set held found fun inside => absurd inside outside
  | locks found here free =>
    refine ⟨?_, by simp⟩
    intro i owner
    obtain rfl : index = i := Owner.handler.inj (Option.some.inj owner)
    obtain ⟨bound, _⟩ := List.getElem?_eq_some_iff.mp found
    exact ⟨_, List.getElem?_set_self bound, trivial⟩
  | @writes handler state call next peer file found here =>
    obtain ⟨guard, timestamp⟩ := @guarded_set s held index handler
      { handler with peer := peer, phase := .critical state next } found fun _ => trivial
    exact ⟨guard, timestamp⟩
  | unlocks found here => exact ⟨by simp, by simp⟩
  | @closes handler found here =>
    obtain ⟨guard, timestamp⟩ := @guarded_set s held index handler
      { handler with phase := .finished } found (by simp [here, InPacket])
    exact ⟨guard, timestamp⟩
  | ends found live => exact guarded_same held rfl rfl rfl

theorem guarded_signal {signal : Signal} (held : Guarded s) (moves : SignalMoves s signal t) :
    Guarded t := by
  cases moves <;> exact guarded_same held rfl rfl rfl

structure Settled (s : Server) : Prop where
  life : Lifetimes s
  listing : Listing s
  guarded : Guarded s

theorem settled_step (s : Server) (action : Action) (t : Server) (held : Settled s)
    (taken : machine.step s action = some t) : Settled t := by
  obtain ⟨life, listing, guarded⟩ := held
  obtain ⟨lifeNext, listingNext⟩ := listing_step s action t ⟨life, listing⟩ taken
  refine ⟨lifeNext, listingNext, ?_⟩
  cases step_moves taken with
  | main _ moves => exact guarded_main life guarded moves
  | listen moves => exact guarded_listen guarded moves
  | stamp moves => exact guarded_stamp guarded moves
  | handler _ moves => exact guarded_handler guarded moves
  | client found => exact guarded_same guarded rfl rfl (setHandler_map found rfl)
  | signal moves => exact guarded_signal guarded moves

theorem settled_run {daemonMode : Bool} {file : OpenFile} {actions : List Action}
    (run : machine.run (boot daemonMode file) actions = some s) : Settled s :=
  invariant_run settled_step
    ⟨lifetimes_boot daemonMode file, listing_boot daemonMode file, guarded_boot daemonMode file⟩ run

theorem listen_goes (here : Running s.listen) : ∃ answer, (listenStep s answer).isSome := by
  obtain ⟨started, unfinished⟩ := here
  cases phase : s.listen with
  | notStarted => exact absurd phase started
  | acceptCall => exact ⟨.again, by simp [listenStep, phase]⟩
  | finished => exact absurd phase unfinished
  | _ => exact ⟨.ok, by simp [listenStep, phase]⟩

theorem stamp_goes (started : s.stamp ≠ .notStarted) (unfinished : s.stamp ≠ .finished) :
    (∃ answer, (stampStep s answer).isSome) ∨ s.stamp = .lock ∧ s.mutex ≠ none := by
  cases phase : s.stamp with
  | notStarted => exact absurd phase started
  | finished => exact absurd phase unfinished
  | lock =>
    by_cases free : s.mutex = none
    · exact Or.inl ⟨.ok, by simp [stampStep, phase, free]⟩
    · exact Or.inr ⟨rfl, free⟩
  | format => exact Or.inl ⟨.text [], by simp [stampStep, phase]⟩
  | print rest => exact Or.inl ⟨.prints 0, by simp [stampStep, phase]⟩
  | _ => exact Or.inl ⟨.ok, by simp [stampStep, phase]⟩

theorem join_goes (node handle : Nat) :
    (joinHandler s node handle).isSome ∨
      ∃ handler, s.handlers[handle]? = some handler ∧ handler.phase ≠ .finished := by
  unfold joinHandler
  split
  · exact Or.inl rfl
  · rename_i handler found
    by_cases ended : handler.phase = .finished
    · left
      split
      · rfl
      · simp [ended]
    · exact Or.inr ⟨handler, found, ended⟩

theorem main_goes : (∃ answer, (mainStep s answer).isSome) ∨
    s.main = .joinListen ∧ s.listen ≠ .finished ∨ s.main = .joinStamp ∧ s.stamp ≠ .finished ∨
      ∃ node cell, s.main = .joinNode node ∧ read s.threads.cells node = some cell ∧
        ∃ handler, s.handlers[cell.value]? = some handler ∧ handler.phase ≠ .finished := by
  unfold mainStep
  cases phase : s.main with
  | openDisk => exact Or.inl ⟨.fails, rfl⟩
  | bindSocket => exact Or.inl ⟨.fails, rfl⟩
  | joinListen =>
    by_cases ended : s.listen = .finished
    · exact Or.inl ⟨.ok, by simp [ended]⟩
    · exact Or.inr (Or.inl ⟨rfl, ended⟩)
  | joinStamp =>
    by_cases ended : s.stamp = .finished
    · exact Or.inl ⟨.ok, by simp [ended]⟩
    · exact Or.inr (Or.inr (Or.inl ⟨rfl, ended⟩))
  | joinNode node =>
    cases found : read s.threads.cells node with
    | none => exact Or.inl ⟨.ok, by simp [found]⟩
    | some cell =>
      rcases join_goes (s := s) node cell.value with joined | waits
      · exact Or.inl ⟨.ok, by simpa [found] using joined⟩
      · exact Or.inr (Or.inr (Or.inr ⟨node, cell, rfl, found, waits⟩))
  | removeNode node =>
    refine Or.inl ⟨.ok, ?_⟩
    cases removed : remove s.threads node <;> simp [removed]
  | nextNode node =>
    refine Or.inl ⟨.ok, ?_⟩
    cases found : read s.threads.cells node <;> simp [found]
  | freeNode tmp node =>
    refine Or.inl ⟨.ok, ?_⟩
    cases freed : free s.threads tmp <;> simp [freed]
  | _ => exact Or.inl ⟨.ok, rfl⟩

theorem receive_goes {peer : Peer} :
    (∃ result, (peer.receive result).isSome) ↔
      peer.reset = true ∨ peer.inbox ≠ [] ∨ peer.ended = true := by
  constructor
  · rintro ⟨result, received⟩
    cases result with
    | error =>
      left
      by_cases reset : peer.reset = true
      · exact reset
      · simp [Peer.receive, reset] at received
    | data bytes =>
      right
      by_cases empty : peer.inbox = []
      · right
        by_cases ended : peer.ended = true
        · exact ended
        · cases bytes <;> simp [Peer.receive, empty, ended] at received
      · exact Or.inl empty
  · rintro (reset | waiting | ended)
    · exact ⟨.error, by simp [Peer.receive, reset]⟩
    · obtain ⟨byte, rest, inbox⟩ := List.exists_cons_of_ne_nil waiting
      exact ⟨.data [byte], by simp [Peer.receive, inbox, bufChunkSize]⟩
    · by_cases empty : peer.inbox = []
      · exact ⟨.data [], by simp [Peer.receive, empty, ended]⟩
      · obtain ⟨byte, rest, inbox⟩ := List.exists_cons_of_ne_nil empty
        exact ⟨.data [byte], by simp [Peer.receive, inbox, bufChunkSize]⟩

theorem system_goes {index : Nat} {handler : HandlerThread} {state : Receiving} {call : PacketCall}
    {peer : Peer} {answer : PacketAnswer} {next : PacketNext}
    (found : s.handlers[index]? = some handler) (here : handler.phase = .critical state call)
    (admitted : handler.peer.grants call answer = .proceeds peer)
    (answered : call.onAnswer s.file answer = some next) :
    (handlerStep s index (.system answer)).isSome := by
  simp only [handlerStep, found, here, admitted, answered]
  cases next <;> rfl

/-- A handler inside handle_packet goes on unless its echo waits for the client. -/
theorem packet_goes {index : Nat} {handler : HandlerThread} {state : Receiving} {call : PacketCall}
    (found : s.handlers[index]? = some handler) (here : handler.phase = .critical state call) :
    (∃ answer, (handlerStep s index answer).isSome) ∨ WaitsForClient handler := by
  obtain ⟨phase, sent⟩ := call
  cases phase with
  | writeMsg loop => exact Or.inl ⟨.system (.diskWrite 0), system_goes found here rfl rfl⟩
  | writeNewline loop => exact Or.inl ⟨.system (.diskWrite 0), system_goes found here rfl rfl⟩
  | rewind => exact Or.inl ⟨.system (.seek true), system_goes found here rfl rfl⟩
  | read =>
    have answered : PacketCall.onAnswer ⟨.read, sent⟩ s.file (.read 0) =
        some (.goes s.file ⟨.seekEnd, sent⟩) := by
      simp [PacketCall.onAnswer, OpenFile.readReturns]
    exact Or.inl ⟨.system (.read 0), system_goes found here rfl answered⟩
  | seekEnd => exact Or.inl ⟨.system (.seek true), system_goes found here rfl rfl⟩
  | unlock => exact Or.inl ⟨.ok, by simp [handlerStep, found, here]⟩
  | echo loop =>
    by_cases reset : handler.peer.reset = true
    · exact Or.inl ⟨.system (.socketWrite 0), by
        simp [handlerStep, found, here, Peer.grants, reset]⟩
    · by_cases full : handler.peer.room = 0
      · right
        simp [WaitsForClient, here, full, reset]
      · have admitted : handler.peer.grants ⟨.echo loop, sent⟩ (.socketWrite 0) = .proceeds
            { handler.peer with room := handler.peer.room - (loop.accepted 0).length } := by
          simp only [Peer.grants, reset, Bool.false_eq_true, ↓reduceIte]
          rw [if_neg (by omega)]
        exact Or.inl ⟨.system (.socketWrite 0), system_goes found here admitted rfl⟩

theorem recv_goes {index : Nat} {handler : HandlerThread} {state : Receiving}
    (found : s.handlers[index]? = some handler) (here : handler.phase = .recv state) :
    (∃ answer, (handlerStep s index answer).isSome) ∨ WaitsForClient handler := by
  by_cases ready : handler.peer.reset = true ∨ handler.peer.inbox ≠ [] ∨ handler.peer.ended = true
  · obtain ⟨result, received⟩ := receive_goes.mpr ready
    refine Or.inl ⟨.recv result true fun _ => 0, ?_⟩
    obtain ⟨peer, admitted⟩ := Option.isSome_iff_exists.mp received
    simp only [handlerStep, found, here, admitted]
    split <;> rfl
  · right
    simpa [WaitsForClient, here] using ready

theorem handler_goes {index : Nat} {handler : HandlerThread}
    (found : s.handlers[index]? = some handler) :
    (∃ answer, (handlerStep s index answer).isSome) ∨ handler.phase = .finished ∨
      WaitsForClient handler ∨ WaitsForMutex s handler := by
  cases here : handler.phase with
  | begin => exact Or.inl ⟨.alloc true, by simp [handlerStep, found, here]⟩
  | recv state =>
    rcases recv_goes found here with goes | waits
    · exact Or.inl goes
    · exact Or.inr (Or.inr (Or.inl waits))
  | extract state =>
    refine Or.inl ⟨.alloc true, ?_⟩
    simp only [handlerStep, found, here]
    split <;> rfl
  | lock state msg =>
    by_cases free : s.mutex = none
    · exact Or.inl ⟨.ok, by simp [handlerStep, found, here, free]⟩
    · exact Or.inr (Or.inr (Or.inr ⟨⟨state, msg, here⟩, free⟩))
  | critical state call =>
    rcases packet_goes found here with goes | waits
    · exact Or.inl goes
    · exact Or.inr (Or.inr (Or.inl waits))
  | lastExtract fullMsg bufSize =>
    refine Or.inl ⟨.alloc true, ?_⟩
    simp only [handlerStep, found, here]
    split <;> rfl
  | close => exact Or.inl ⟨.ok, by simp [handlerStep, found, here]⟩
  | finished => exact Or.inr (Or.inl rfl)

theorem waiting_handler {index : Nat} {handler : HandlerThread}
    (found : s.handlers[index]? = some handler)
    (waits : handler.phase = .finished ∨ WaitsForClient handler ∨ WaitsForMutex s handler)
    (answer : HandlerAnswer) : handlerStep s index answer = none := by
  rcases waits with ended | ⟨unreset, waits⟩ | ⟨⟨state, msg, here⟩, taken⟩
  · simp [handlerStep, found, ended]
  · split at waits
    · rename_i state here
      obtain ⟨nothing, unended⟩ := waits
      cases answer with
      | recv result grows junk =>
        have idle : handler.peer.receive result = none := by
          by_contra some_result
          have ready := receive_goes.mp ⟨result, Option.isSome_iff_ne_none.mpr some_result⟩
          simp [unreset, nothing, unended] at ready
        simp [handlerStep, found, here, idle]
      | _ => simp [handlerStep, found, here]
    · rename_i state loop sent here
      cases answer with
      | system result =>
        cases result <;>
          simp [handlerStep, found, here, Peer.grants, unreset, waits, PacketCall.onAnswer, onPacket]
      | _ => simp [handlerStep, found, here]
    · exact waits.elim
  · cases answer <;> simp [handlerStep, found, here, taken]

theorem main_waits_after_listen (settled : Settled s) (waits : MainWaits s) :
    s.listen = .finished := by
  have listen := settled.life.listen
  rcases waits with ⟨here, _⟩ | ⟨node, handler, here, _⟩
  · rwa [here] at listen
  · rwa [here] at listen

theorem waiting_main (settled : Settled s) (waits : MainWaits s) (answer : MainAnswer) :
    mainStep s answer = none := by
  rcases waits with ⟨here, stamp, _⟩ | ⟨node, handler, here, found, unfinished⟩
  · unfold mainStep
    rw [here]
    cases answer with
    | ok => simp [stamp]
    | _ => rfl
  · have chain := settled.listing.chain
    rw [here] at chain
    obtain ⟨_, inside⟩ := chain_first chain
    obtain ⟨cell, at_node, value⟩ := read_unfreed settled.listing inside
      (by simp [here, drainPoint, DrainPoint.unfreed])
    have unjoined : handler.joined = false := by
      by_contra joined
      exact unfinished (settled.listing.ended handler (List.mem_of_getElem? found) (by simpa using joined))
    unfold mainStep
    rw [here]
    cases answer with
    | ok => simp [at_node, value, joinHandler, found, unjoined, unfinished]
    | _ => rfl

theorem waiting_stamp (settled : Settled s) (waits : MainWaits s) (answer : StampAnswer) :
    stampStep s answer = none := by
  rcases waits with ⟨_, here, taken⟩ | ⟨node, handler, here, _⟩
  · cases answer <;> simp [stampStep, here, taken]
  · have stamp := settled.life.stamp
    rw [here] at stamp
    have ended : s.stamp = .finished := stamp
    cases answer <;> simp [stampStep, ended]

theorem stalled_stops (settled : Settled s) (stalled : Stalled s) : ¬ CanStep s := by
  rintro ⟨action, server, goes⟩
  simp only [machine, step] at goes
  split at goes
  · cases action with
    | main answer => simp [waiting_main settled stalled.main] at goes
    | listen answer =>
      have ended := main_waits_after_listen settled stalled.main
      cases answer <;> simp [listenStep, ended] at goes
    | stamp answer => simp [waiting_stamp settled stalled.main] at goes
    | handler index answer =>
      cases found : s.handlers[index]? with
      | none => simp [handlerStep, found] at goes
      | some handler =>
        have waits := stalled.handlers handler (List.mem_of_getElem? found)
        simp [waiting_handler found waits] at goes
    | client index event => exact server.elim
    | signal signal => exact server.elim
  · simp at goes

theorem part_goes (running : s.status = .running)
    (part : (∃ answer, (mainStep s answer).isSome) ∨ (∃ answer, (listenStep s answer).isSome) ∨
      (∃ answer, (stampStep s answer).isSome) ∨
        ∃ index answer, (handlerStep s index answer).isSome) : CanStep s := by
  rcases part with ⟨answer, goes⟩ | ⟨answer, goes⟩ | ⟨answer, goes⟩ | ⟨index, answer, goes⟩
  · exact ⟨.main answer, trivial, by simpa [machine, step, running] using goes⟩
  · exact ⟨.listen answer, trivial, by simpa [machine, step, running] using goes⟩
  · exact ⟨.stamp answer, trivial, by simpa [machine, step, running] using goes⟩
  · exact ⟨.handler index answer, trivial, by simpa [machine, step, running] using goes⟩

/-- Who holds the mutex while nobody can step is a handler that waits for its client. -/
theorem holder_waits (settled : Settled s) (taken : s.mutex ≠ none) (outside : ¬ Stamping s.stamp)
    (handlers : ∀ handler ∈ s.handlers,
      handler.phase = .finished ∨ WaitsForClient handler ∨ WaitsForMutex s handler) :
    ∃ handler ∈ s.handlers, WaitsForClient handler := by
  obtain ⟨owner, held⟩ := Option.ne_none_iff_exists'.mp taken
  cases owner with
  | timestamp => exact absurd (settled.guarded.timestamp held) outside
  | handler index =>
    obtain ⟨handler, found, inside⟩ := settled.guarded.handler index held
    have member := List.mem_of_getElem? found
    rcases handlers handler member with ended | waits | ⟨⟨state, msg, here⟩, _⟩
    · rw [ended] at inside
      exact inside.elim
    · exact ⟨handler, member, waits⟩
    · rw [here] at inside
      exact inside.elim

theorem stuck_main_waits (settled : Settled s) (running : s.status = .running)
    (stuck : ¬ CanStep s) : MainWaits s := by
  rcases @main_goes s with goes | ⟨here, unfinished⟩ | ⟨here, unfinished⟩ |
    ⟨node, cell, here, at_node, handler, found, unfinished⟩
  · exact absurd (part_goes running (Or.inl goes)) stuck
  · have started := settled.life.listen
    rw [here] at started
    exact absurd (part_goes running (Or.inr (Or.inl (listen_goes ⟨started, unfinished⟩)))) stuck
  · have started := settled.life.stamp
    rw [here] at started
    rcases stamp_goes started unfinished with goes | ⟨locking, taken⟩
    · exact absurd (part_goes running (Or.inr (Or.inr (Or.inl goes)))) stuck
    · exact Or.inl ⟨here, locking, taken⟩
  · rw [settled.listing.handles node cell (read_eq_some_iff.mp at_node).1] at found
    exact Or.inr ⟨node, handler, here, found, unfinished⟩

theorem stuck_stalls (settled : Settled s) (running : s.status = .running)
    (stuck : ¬ CanStep s) : Stalled s := by
  have waits := stuck_main_waits settled running stuck
  have handlers : ∀ handler ∈ s.handlers,
      handler.phase = .finished ∨ WaitsForClient handler ∨ WaitsForMutex s handler := by
    intro handler member
    obtain ⟨index, found⟩ := List.mem_iff_getElem?.mp member
    rcases handler_goes found with goes | waits
    · exact absurd (part_goes running (Or.inr (Or.inr (Or.inr ⟨index, goes⟩)))) stuck
    · exact waits
  refine ⟨waits, ?_, handlers⟩
  rcases waits with ⟨_, locking, taken⟩ | ⟨node, handler, here, found, unfinished⟩
  · exact holder_waits settled taken (by simp [locking, Stamping]) handlers
  · have member := List.mem_of_getElem? found
    rcases handlers handler member with ended | waits | ⟨_, taken⟩
    · exact absurd ended unfinished
    · exact ⟨handler, member, waits⟩
    · have stamp := settled.life.stamp
      rw [here] at stamp
      exact holder_waits settled taken (by simp [show s.stamp = .finished from stamp, Stamping])
        handlers

/-- In every state that a run reaches, some server thread can go on without its clients,
    unless main waits in a join and every handler left waits for its client or for the mutex. -/
theorem server_goes_on_iff_not_stalled {daemonMode : Bool} {file : OpenFile}
    {actions : List Action} (run : machine.run (boot daemonMode file) actions = some s)
    (running : s.status = .running) : CanStep s ↔ ¬ Stalled s := by
  have settled := settled_run run
  constructor
  · exact fun goes stalled => stalled_stops settled stalled goes
  · intro unstalled
    by_contra stuck
    exact unstalled (stuck_stalls settled running stuck)

def stopWhileConnected : List Action :=
  [.signal .sigterm, .main .ok, .listen .ok, .listen .ok, .main .ok, .stamp .ok, .main .ok,
    .main .ok, .main .ok]

theorem stop_signal_is_acted_on :
    ∃ s, machine.run (boot false ⟨[], 0⟩) (startup ++ oneClient ++ [.signal .sigterm]) = some s ∧
      s.runFlag = .live false ∧ CanStep s := by
  obtain ⟨s, run, running, flag, main⟩ : ∃ s, machine.run (boot false ⟨[], 0⟩)
      (startup ++ oneClient ++ [.signal .sigterm]) = some s ∧ s.status = .running ∧
        s.runFlag = .live false ∧ s.main = .reap := ⟨_, rfl, rfl, rfl, rfl⟩
  refine ⟨s, run, flag, (server_goes_on_iff_not_stalled run running).mpr ?_⟩
  intro stalled
  rcases stalled.main with ⟨here, _⟩ | ⟨node, handler, here, _⟩ <;> simp [main] at here

theorem silent_client_stops_the_shutdown :
    ∃ s, machine.run (boot false ⟨[], 0⟩) (startup ++ oneClient ++ stopWhileConnected) = some s ∧
      s.status = .running ∧ s.runFlag = .live false ∧ s.main ≠ .finished ∧ ¬ CanStep s := by
  obtain ⟨s, run, running, flag, main, handlers⟩ : ∃ s, machine.run (boot false ⟨[], 0⟩)
      (startup ++ oneClient ++ stopWhileConnected) = some s ∧ s.status = .running ∧
        s.runFlag = .live false ∧ s.main = .joinNode 0 ∧
          s.handlers = [⟨5, ⟨[], false, false, 0⟩, .recv startReceiving, false⟩] :=
    ⟨_, rfl, rfl, rfl, rfl, rfl⟩
  have waits : WaitsForClient ⟨5, ⟨[], false, false, 0⟩, .recv startReceiving, false⟩ :=
    ⟨rfl, rfl, rfl⟩
  have stalled : Stalled s := by
    refine ⟨Or.inr ⟨0, _, main, by rw [handlers]; rfl, by simp⟩, ⟨_, by simp [handlers], waits⟩, ?_⟩
    intro handler member
    rw [handlers] at member
    obtain rfl := List.mem_singleton.mp member
    exact Or.inr (Or.inl waits)
  exact ⟨s, run, running, flag, by simp [main], stalled_stops (settled_run run) stalled⟩

end ShutdownProgress
