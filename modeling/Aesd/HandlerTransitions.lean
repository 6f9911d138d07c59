import Aesd.ServerMoves

/-! One step of a connection handler in full: what it was waiting for, what it was given,
    and where it goes. HandlerMoves says what such a step leaves alone. -/
namespace HandlerTransitions
open LinkedCells PacketAppend PacketSteps TokenExtraction ReceiveLoop ServerState ServerSteps ServerMoves

/-- The step that answer makes handler number index of s take. -/
inductive Transition (s : Server) (index : Nat) (handler : HandlerThread) :
    HandlerAnswer → Server → Prop where
  | begins (here : handler.phase = .begin) :
      Transition s index handler (.alloc true)
        (s.setHandler index { handler with phase := .recv startReceiving })
  | receives {state next : Receiving} {result : RecvResult} {grows : Bool} {junk : Nat → UInt8}
      {peer : Peer} (here : handler.phase = .recv state)
      (received : handler.peer.receive result = some peer)
      (goes : onRecv junk grows state result = .again next) :
      Transition s index handler (.recv result grows junk)
        (s.setHandler index { handler with peer := peer, phase := .recv next })
  | receivesLast {state next : Receiving} {result : RecvResult} {grows : Bool}
      {junk : Nat → UInt8} {peer : Peer} (here : handler.phase = .recv state)
      (received : handler.peer.receive result = some peer)
      (goes : onRecv junk grows state result = .drain next) :
      Transition s index handler (.recv result grows junk)
        (s.setHandler index { handler with peer := peer, phase := .extract next })
  | receivesNothing {state : Receiving} {result : RecvResult} {grows : Bool}
      {junk : Nat → UInt8} {peer : Peer} {buf : Option (List UInt8)} {len : Nat}
      (here : handler.phase = .recv state) (received : handler.peer.receive result = some peer)
      (goes : onRecv junk grows state result = .returned buf len) :
      Transition s index handler (.recv result grows junk)
        (s.setHandler index { handler with peer := peer, phase := .lastExtract buf len })
  | extractsNothing {state : Receiving} {succeeds : Bool} {buf : List UInt8}
      (here : handler.phase = .extract state)
      (gives : extractTokenAndConsolidateBuffer succeeds state.buf state.len = some ⟨none, buf⟩) :
      Transition s index handler (.alloc succeeds)
        (s.setHandler index { handler with phase := .lastExtract (some buf) state.len })
  | extracts {state : Receiving} {succeeds : Bool} {token buf : List UInt8}
      (here : handler.phase = .extract state)
      (gives : extractTokenAndConsolidateBuffer succeeds state.buf state.len =
        some ⟨some token, buf⟩) :
      Transition s index handler (.alloc succeeds)
        (s.setHandler index
          { handler with phase := .lock ⟨buf, state.index, state.len⟩ (cString token) })
  | locks {state : Receiving} {msg : List UInt8} (here : handler.phase = .lock state msg)
      (free : s.mutex = none) :
      Transition s index handler .ok
        { s.setHandler index { handler with phase := .critical state (beginPacket msg) } with
          mutex := some (.handler index) }
  | answers {state : Receiving} {call next : PacketCall} {result : PacketAnswer} {peer : Peer}
      {file : OpenFile} (here : handler.phase = .critical state call)
      (granted : handler.peer.grants call result = .proceeds peer)
      (gives : call.onAnswer s.file result = some (.goes file next)) :
      Transition s index handler (.system result)
        { s.setHandler index { handler with peer := peer, phase := .critical state next } with
          file := file }
  | exits {state : Receiving} {call : PacketCall} {result : PacketAnswer} {peer : Peer}
      {code : Int} (here : handler.phase = .critical state call)
      (granted : handler.peer.grants call result = .proceeds peer)
      (gives : call.onAnswer s.file result = some (.exits code)) :
      Transition s index handler (.system result) (s.ends (.exited code))
  | unlocks {state : Receiving} {sent : List UInt8}
      (here : handler.phase = .critical state ⟨.unlock, sent⟩) :
      Transition s index handler .ok
        { s.setHandler index { handler with phase := .extract state } with mutex := none }
  | extractsLast {fullMsg : Option (List UInt8)} {bufSize : Nat} {succeeds : Bool}
      {extraction : Extraction} (here : handler.phase = .lastExtract fullMsg bufSize)
      (gives : extractTokenAndConsolidateBuffer succeeds (fullMsg.getD []) bufSize =
        some extraction) :
      Transition s index handler (.alloc succeeds)
        (s.setHandler index { handler with phase := .close })
  | closes (here : handler.phase = .close) :
      Transition s index handler .ok
        { s.setHandler index { handler with phase := .finished } with
          descriptors := s.descriptors ++ [.closed handler.sockfd] }
  | ends {answer : HandlerAnswer} {status : Status} (live : handler.phase ≠ .finished)
      (called : answer ≠ .ok)
      (receiving : ∀ result grows junk, answer = .recv result grows junk →
        ∃ state, handler.phase = .recv state)
      (raises : ∀ result, answer = .system result →
        ∃ state call, handler.phase = .critical state call ∧
          handler.peer.grants call result = .raisesSigpipe)
      (stops : status ≠ .running) : Transition s index handler answer (s.ends status)

theorem handlerStep_transition {s t : Server} {index : Nat} {answer : HandlerAnswer}
    (taken : handlerStep s index answer = some t) :
    ∃ handler, s.handlers[index]? = some handler ∧ Transition s index handler answer t := by
  unfold handlerStep at taken
  split at taken
  · simp at taken
  · rename_i handler found
    refine ⟨handler, found, ?_⟩
    split at taken
    · rename_i succeeds here
      split at taken
      · rename_i succeeded
        cases taken
        rw [succeeded]
        exact .begins here
      · cases taken
        exact .ends (by simp [here]) (by simp) (by simp [here]) (by simp) (by simp)
    · rename_i state result grows junk here
      split at taken
      · simp at taken
      · rename_i peer received
        split at taken
        · rename_i next goes
          cases taken
          exact .receives here received goes
        · rename_i next goes
          cases taken
          exact .receivesLast here received goes
        · rename_i buf len goes
          cases taken
          exact .receivesNothing here received goes
        · cases taken
          exact .ends (by simp [here]) (by simp) (by simp [here]) (by simp) (by simp)
        · cases taken
          exact .ends (by simp [here]) (by simp) (by simp [here]) (by simp) (by simp)
    · rename_i state succeeds here
      split at taken
      · cases taken
        exact .ends (by simp [here]) (by simp) (by simp [here]) (by simp) (by simp)
      · rename_i buf gives
        cases taken
        exact .extractsNothing here gives
      · rename_i token buf gives
        cases taken
        exact .extracts here gives
    · rename_i state msg here
      split at taken
      · rename_i free
        cases taken
        exact .locks here free
      · simp at taken
    · rename_i state call result here
      split at taken
      · rename_i peer granted
        cases answered : call.onAnswer s.file result with
        | none => simp [answered, onPacket] at taken
        | some next =>
          rw [answered] at taken
          cases next with
          | goes file next =>
            cases taken
            exact .answers here granted answered
          | exits code =>
            cases taken
            exact .exits here granted answered
      · simp at taken
      · rename_i granted
        cases taken
        apply Transition.ends (by simp [here]) (by simp) (by simp)
        · intro other same
          cases same
          exact ⟨state, call, here, granted⟩
        · simp
    · rename_i state sent here
      cases taken
      exact .unlocks here
    · rename_i fullMsg bufSize succeeds here
      split at taken
      · cases taken
        refine .ends (by simp [here]) (by simp) (by simp) (by simp) ?_
        split <;> simp
      · rename_i extraction gives
        cases taken
        exact .extractsLast here gives
    · rename_i here
      cases taken
      exact .closes here
    · simp at taken

section Kept
variable {β : Type*} {f : HandlerThread → β} {s t : Server}

theorem joinHandler_keeps (blind : ∀ handler joined, f { handler with joined := joined } = f handler)
    {node handle : Nat} (taken : joinHandler s node handle = some t) :
    t.handlers.map f = s.handlers.map f := by
  unfold joinHandler at taken
  split at taken
  · cases taken
    rfl
  · rename_i handler found
    split at taken
    · cases taken
      rfl
    · split at taken
      · cases taken
        exact setHandler_map found (blind handler true)
      · simp at taken

theorem withFlag_handlers {cell : FlagCell} {next : Bool → Server} (read : s.withFlag cell next = t)
    (same : ∀ value, (next value).handlers = s.handlers) : t.handlers = s.handlers := by
  rcases withFlag_cases read with ⟨value, _, rfl⟩ | ⟨_, rfl⟩
  · exact same value
  · rfl

theorem main_keeps (blind : ∀ handler joined, f { handler with joined := joined } = f handler)
    {answer : MainAnswer} (taken : mainStep s answer = some t) :
    t.handlers.map f = s.handlers.map f := by
  unfold mainStep at taken
  split at taken
  all_goals
    first
    | cases taken <;> rfl
    | rw [withFlag_handlers (Option.some.inj taken) fun _ => rfl]
    | split at taken
      · cases taken
        rfl
      · first
        | cases taken <;> rfl
        | exact joinHandler_keeps blind taken

end Kept

def PhasesKept (s t : Server) : Prop :=
  t.handlers.map HandlerThread.phase = s.handlers.map HandlerThread.phase ∨
    t.handlers.map HandlerThread.phase = s.handlers.map HandlerThread.phase ++ [.begin]

theorem main_phases {s t : Server} {answer : MainAnswer} (moves : MainMoves s answer t) :
    PhasesKept s t := by
  cases moves with
  | drains _ _ same => exact Or.inl same
  | _ => exact Or.inl rfl

theorem listen_phases {s t : Server} {answer : ListenAnswer} (moves : ListenMoves s answer t) :
    PhasesKept s t := by
  cases moves with
  | creates here => exact Or.inr (by simp)
  | _ => exact Or.inl rfl

theorem stamp_phases {s t : Server} {answer : StampAnswer} (moves : StampMoves s answer t) :
    PhasesKept s t := by
  cases moves with
  | _ => exact Or.inl rfl

theorem signal_phases {s t : Server} {signal : Signal} (moves : SignalMoves s signal t) :
    PhasesKept s t := by
  cases moves with
  | _ => exact Or.inl rfl

/-- Every step is one of a handler, in full, or keeps the phases of all handlers. -/
theorem step_transition {s t : Server} {action : Action} (taken : step s action = some t) :
    (∃ index answer handler, action = .handler index answer ∧
      s.handlers[index]? = some handler ∧ Transition s index handler answer t) ∨
    ((∀ index answer, action ≠ .handler index answer) ∧ PhasesKept s t) := by
  cases step_moves taken with
  | handler taken _ =>
    obtain ⟨handler, found, transition⟩ := handlerStep_transition taken
    exact Or.inl ⟨_, _, handler, rfl, found, transition⟩
  | main _ moves => exact Or.inr ⟨by simp, main_phases moves⟩
  | listen moves => exact Or.inr ⟨by simp, listen_phases moves⟩
  | stamp moves => exact Or.inr ⟨by simp, stamp_phases moves⟩
  | client found => exact Or.inr ⟨by simp, Or.inl (setHandler_map found rfl)⟩
  | signal moves => exact Or.inr ⟨by simp, signal_phases moves⟩

end HandlerTransitions
