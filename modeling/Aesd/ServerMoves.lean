import Aesd.ServerSteps

/-! What one step of each thread can do to the shared state, said once. Steps that only
    move the thread on are one case, and every other effect has a case of its own. -/
namespace ServerMoves
open LinkedCells WriteAll PacketAppend PacketSteps ReceiveLoop ServerState ServerSteps

theorem withFlag_cases {s t : Server} {cell : FlagCell} {next : Bool → Server}
    (read : s.withFlag cell next = t) :
    (∃ value, cell = .live value ∧ t = next value) ∨
      (∀ value, cell ≠ .live value) ∧ t = s.ends .undefined := by
  unfold Server.withFlag at read
  split at read
  · rename_i value
    exact Or.inl ⟨value, rfl, read.symm⟩
  · rename_i other
    exact Or.inr ⟨other, read.symm⟩

/-- How far main has come: what is allocated and which threads it has started or joined. -/
inductive Stage where
  | booting
  | preparing
  | stamping
  | serving
  | listenJoined
  | draining
  | drained
  | runFreed
  | dueFreed
  deriving DecidableEq, Repr

def stage : MainPhase → Stage
  | .initRunFlag => .booting
  | .catchSigint => .preparing
  | .catchSigterm => .preparing
  | .catchSigalrm => .preparing
  | .openDisk => .preparing
  | .bindSocket => .preparing
  | .daemonize => .preparing
  | .setTimer => .preparing
  | .createStamp => .preparing
  | .createListen => .stamping
  | .reap => .serving
  | .joinListen => .serving
  | .joinStamp => .listenJoined
  | .clearRunFlag => .draining
  | .firstNode => .draining
  | .joinNode _ => .draining
  | .removeNode _ => .draining
  | .nextNode _ => .draining
  | .freeNode _ _ => .draining
  | .freeHead => .drained
  | .closeSocket => .drained
  | .closeDisk => .drained
  | .freeRunFlag => .drained
  | .freeListeningFlag => .runFreed
  | .freeDueFlag => .runFreed
  | .removeFile => .dueFreed
  | .finished => .dueFreed

def StartupFails : MainPhase → MainAnswer → Prop
  | .openDisk, .fails => True
  | .bindSocket, .fails => True
  | .daemonize, .errno _ => True
  | .createStamp, .fails => True
  | .createListen, .fails => True
  | _, _ => False

/-- The steps of main. Within shutdown_operations only the thread list and the joined
    marks of handlers change. -/
inductive MainMoves (s : Server) : MainAnswer → Server → Prop where
  | initRunFlag (here : s.main = .initRunFlag) :
      MainMoves s .ok { s with
        runFlag := .live true
        isListeningFlag := .live false
        timestampDueFlag := .live false
        main := .catchSigint }
  | catches {signal : Signal} {next : MainPhase} (here : stage s.main = .preparing)
      (there : stage next = .preparing) :
      MainMoves s .ok { s with caught := signal :: s.caught, main := next }
  | opensDisk {number : Int} (here : s.main = .openDisk) (fresh : s.Fresh number) :
      MainMoves s (.fd number) { s with
        diskfd := number
        descriptors := s.descriptors ++ [.obtained number]
        main := .bindSocket }
  | opensSocket {number : Int} {next : MainPhase} (here : s.main = .bindSocket)
      (fresh : s.Fresh number) (there : stage next = .preparing) :
      MainMoves s (.fd number) { s with
        sockfd := number
        descriptors := s.descriptors ++ [.obtained number]
        main := next }
  | passes {next : MainPhase} (here : stage s.main = stage next)
      (there : next = .setTimer ∨ next = .createStamp ∨ next = .closeSocket) :
      MainMoves s .ok { s with main := next }
  | startsStamp (here : s.main = .createStamp) :
      MainMoves s .ok { s with stamp := .top, main := .createListen }
  | startsListen (here : s.main = .createListen) :
      MainMoves s .ok { s with listen := .top, main := .reap }
  | reaps {running : Bool} (here : s.main = .reap) (flag : s.runFlag = .live running) :
      MainMoves s .ok { s with main := if running then .reap else .joinListen }
  | joinsListen (here : s.main = .joinListen) (ended : s.listen = .finished) :
      MainMoves s .ok { s with main := .joinStamp }
  | joinsStamp (here : s.main = .joinStamp) (ended : s.stamp = .finished) :
      MainMoves s .ok { s with main := .clearRunFlag }
  | clearsRun {value : Bool} (here : s.main = .clearRunFlag) (flag : s.runFlag = .live value) :
      MainMoves s .ok { s with runFlag := .live false, main := .firstNode }
  | drains {next : MainPhase} {handlers : List HandlerThread} {threads : LinkedList Nat}
      (here : stage s.main = .draining) (there : stage next = .draining ∨ next = .freeHead)
      (same : handlers.map HandlerThread.phase = s.handlers.map HandlerThread.phase) :
      MainMoves s .ok { s with handlers := handlers, threads := threads, main := next }
  | closesSocket (here : s.main = .closeSocket) :
      MainMoves s .ok { s with
        descriptors := s.descriptors ++ [.closed s.sockfd]
        main := .closeDisk }
  | closesDisk (here : s.main = .closeDisk) :
      MainMoves s .ok { s with
        descriptors := s.descriptors ++ [.closed s.diskfd]
        main := .freeRunFlag }
  | freesRun (here : s.main = .freeRunFlag) :
      MainMoves s .ok { s with runFlag := .freed, main := .freeListeningFlag }
  | freesListening (here : s.main = .freeListeningFlag) :
      MainMoves s .ok { s with isListeningFlag := .freed, main := .freeDueFlag }
  | freesDue (here : s.main = .freeDueFlag) :
      MainMoves s .ok { s with timestampDueFlag := .freed, main := .removeFile }
  | removes {answer : MainAnswer} (here : s.main = .removeFile) :
      MainMoves s answer { s with main := .finished }
  | exits {answer : MainAnswer} {code : Int} (cause : StartupFails s.main answer) :
      MainMoves s answer (s.ends (.exited code))
  | returns (here : s.main = .finished) : MainMoves s .ok (s.ends (.exited 0))
  | goesWrong {answer : MainAnswer}
      (cause : (s.main = .createStamp ∧ answer = .fails) ∨ stage s.main = .draining ∨
        (s.main = .reap ∧ ∀ value, s.runFlag ≠ .live value)) :
      MainMoves s answer (s.ends .undefined)

theorem setHandler_map {β : Type*} {s : Server} {index : Nat} {handler next : HandlerThread}
    {f : HandlerThread → β} (found : s.handlers[index]? = some handler)
    (same : f next = f handler) :
    (s.setHandler index next).handlers.map f = s.handlers.map f := by
  obtain ⟨inside, rfl⟩ := List.getElem?_eq_some_iff.mp found
  rw [Server.setHandler, List.map_set, same, ← List.getElem_map f, List.set_getElem_self]
  rwa [List.length_map]

theorem atNode_stage (node : Option Nat) :
    stage (atNode node) = .draining ∨ atNode node = .freeHead := by
  cases node with
  | none => exact Or.inr rfl
  | some node => exact Or.inl rfl

theorem joinHandler_moves {s t : Server} {node handle : Nat} (here : stage s.main = .draining)
    (taken : joinHandler s node handle = some t) : MainMoves s .ok t := by
  unfold joinHandler at taken
  split at taken
  · cases taken
    exact .goesWrong (Or.inr (Or.inl here))
  · rename_i handler found
    split at taken
    · cases taken
      exact .goesWrong (Or.inr (Or.inl here))
    · split at taken
      · cases taken
        exact .drains here (Or.inl rfl) (setHandler_map found rfl)
      · simp at taken

theorem mainStep_moves {s t : Server} {answer : MainAnswer} (taken : mainStep s answer = some t) :
    MainMoves s answer t := by
  unfold mainStep at taken
  split at taken
  · rename_i here
    cases taken
    exact .initRunFlag here
  · rename_i here
    cases taken
    exact .catches (by rw [here]; rfl) rfl
  · rename_i here
    cases taken
    exact .catches (by rw [here]; rfl) rfl
  · rename_i here
    cases taken
    exact .catches (by rw [here]; rfl) rfl
  · rename_i here
    split at taken
    · rename_i fresh
      cases taken
      exact .opensDisk here fresh
    · simp at taken
  · rename_i here
    cases taken
    exact .exits (by simp [StartupFails, here])
  · rename_i here
    split at taken
    · rename_i fresh
      cases taken
      exact .opensSocket here fresh (by split <;> rfl)
    · simp at taken
  · rename_i here
    cases taken
    exact .exits (by simp [StartupFails, here])
  · rename_i here
    cases taken
    exact .passes (by rw [here]; rfl) (by simp)
  · rename_i here
    cases taken
    exact .exits (by simp [StartupFails, here])
  · rename_i here
    cases taken
    exact .passes (by rw [here]; rfl) (by simp)
  · rename_i here
    cases taken
    exact .startsStamp here
  · rename_i here
    cases taken
    exact .goesWrong (Or.inl ⟨here, rfl⟩)
  · rename_i here
    cases taken
    exact .startsListen here
  · rename_i here
    cases taken
    exact .exits (by simp [StartupFails, here])
  · rename_i here
    rcases withFlag_cases (Option.some.inj taken) with ⟨running, flag, rfl⟩ | ⟨stale, rfl⟩
    · exact .reaps here flag
    · exact .goesWrong (Or.inr (Or.inr ⟨here, stale⟩))
  · rename_i here
    split at taken
    · rename_i ended
      cases taken
      exact .joinsListen here ended
    · simp at taken
  · rename_i here
    split at taken
    · rename_i ended
      cases taken
      exact .joinsStamp here ended
    · simp at taken
  · rename_i here
    rcases withFlag_cases (Option.some.inj taken) with ⟨value, flag, rfl⟩ | ⟨stale, rfl⟩
    · exact .clearsRun here flag
    · exact .goesWrong (Or.inr (Or.inl (by rw [here]; rfl)))
  · rename_i here
    cases taken
    exact .drains (by rw [here]; rfl) (atNode_stage _) rfl
  · rename_i node here
    split at taken
    · cases taken
      exact .goesWrong (Or.inr (Or.inl (by rw [here]; rfl)))
    · exact joinHandler_moves (by rw [here]; rfl) taken
  · rename_i node here
    split at taken
    · cases taken
      exact .goesWrong (Or.inr (Or.inl (by rw [here]; rfl)))
    · cases taken
      exact .drains (by rw [here]; rfl) (Or.inl rfl) rfl
  · rename_i node here
    split at taken
    · cases taken
      exact .goesWrong (Or.inr (Or.inl (by rw [here]; rfl)))
    · cases taken
      exact .drains (by rw [here]; rfl) (Or.inl rfl) rfl
  · rename_i tmp node here
    split at taken
    · cases taken
      exact .goesWrong (Or.inr (Or.inl (by rw [here]; rfl)))
    · cases taken
      exact .drains (by rw [here]; rfl) (atNode_stage _) rfl
  · rename_i here
    cases taken
    exact .passes (by rw [here]; rfl) (by simp)
  · rename_i here
    cases taken
    exact .closesSocket here
  · rename_i here
    cases taken
    exact .closesDisk here
  · rename_i here
    cases taken
    exact .freesRun here
  · rename_i here
    cases taken
    exact .freesListening here
  · rename_i here
    cases taken
    exact .freesDue here
  · rename_i here
    cases taken
    exact .removes here
  · rename_i here
    cases taken
    exact .removes here
  · rename_i here
    cases taken
    exact .returns here
  · simp at taken

def Running (phase : ListenPhase) : Prop := phase ≠ .notStarted ∧ phase ≠ .finished

def MayFail : ListenPhase → Prop
  | .listenCall => True
  | .acceptCall => True
  | .allocState _ => True
  | .createThread _ => True
  | .addThread _ => True
  | _ => False

/-- The steps of listen_loop. A handle is unlisted between pthread_create and
    add_thread_to_list. -/
inductive ListenMoves (s : Server) : ListenAnswer → Server → Prop where
  | goes {answer : ListenAnswer} {next : ListenPhase} (here : Running s.listen)
      (there : Running next) (listed : ∀ handle, s.listen ≠ .addThread handle)
      (nextListed : ∀ handle, next ≠ .addThread handle) :
      ListenMoves s answer { s with listen := next }
  | accepts {connection : Accepted} (here : s.listen = .acceptCall)
      (fresh : s.Fresh connection.fd) :
      ListenMoves s (.accepted connection) { s with
        descriptors := s.descriptors ++ [.obtained connection.fd]
        listen := .finalCheck connection }
  | creates {connection : Accepted} (here : s.listen = .createThread connection) :
      ListenMoves s .ok { s with
        handlers := s.handlers ++ [⟨connection.fd, connection.peer, .begin, false⟩]
        listen := .addThread s.handlers.length }
  | lists {handle : Nat} (here : s.listen = .addThread handle) :
      ListenMoves s .ok { s with threads := insertHead s.threads handle, listen := .top }
  | closes (here : s.listen = .closeSocket) :
      ListenMoves s .ok { s with
        descriptors := s.descriptors ++ [.closed s.sockfd]
        listen := .finished }
  | exits {code : Int} (here : MayFail s.listen) : ListenMoves s .fails (s.ends (.exited code))
  | goesWrong {answer : ListenAnswer} (here : Running s.listen)
      (cause : ((∃ handle, s.listen = .addThread handle) ∧ answer = .fails) ∨
        ∀ value, s.runFlag ≠ .live value) :
      ListenMoves s answer (s.ends .undefined)

theorem listenFlag_moves {s t : Server} {next : Bool → ListenPhase} (here : Running s.listen)
    (there : ∀ value, Running (next value)) (listed : ∀ handle, s.listen ≠ .addThread handle)
    (nextListed : ∀ value handle, next value ≠ .addThread handle)
    (taken : s.withFlag s.runFlag (fun running => { s with listen := next running }) = t) :
    ListenMoves s .ok t := by
  rcases withFlag_cases taken with ⟨value, _, rfl⟩ | ⟨stale, rfl⟩
  · exact .goes here (there value) listed (nextListed value)
  · exact .goesWrong here (Or.inr stale)

theorem listenStep_moves {s t : Server} {answer : ListenAnswer}
    (taken : listenStep s answer = some t) : ListenMoves s answer t := by
  unfold listenStep at taken
  split at taken
  · rename_i here
    apply listenFlag_moves _ _ _ _ (Option.some.inj taken) <;> grind [Running]
  · rename_i here
    apply listenFlag_moves _ _ _ _ (Option.some.inj taken) <;> grind [Running]
  · rename_i here
    cases taken
    apply ListenMoves.goes <;> simp [Running, here]
  · rename_i here
    cases taken
    apply ListenMoves.goes <;> simp [Running, here]
  · rename_i here
    cases taken
    exact .exits (by simp [MayFail, here])
  · rename_i here
    apply listenFlag_moves _ _ _ _ (Option.some.inj taken) <;> grind [Running]
  · rename_i connection here
    split at taken
    · rename_i fresh
      cases taken
      exact .accepts here fresh
    · simp at taken
  · rename_i here
    cases taken
    apply ListenMoves.goes <;> simp [Running, here]
  · rename_i here
    cases taken
    exact .exits (by simp [MayFail, here])
  · rename_i connection here
    apply listenFlag_moves _ _ _ _ (Option.some.inj taken) <;> grind [Running]
  · rename_i connection here
    cases taken
    apply ListenMoves.goes <;> simp [Running, here]
  · rename_i connection here
    cases taken
    exact .exits (by simp [MayFail, here])
  · rename_i connection here
    cases taken
    exact .creates here
  · rename_i connection here
    cases taken
    exact .exits (by simp [MayFail, here])
  · rename_i handle here
    cases taken
    exact .lists here
  · rename_i handle here
    cases taken
    exact .goesWrong (by simp [Running, here]) (Or.inl ⟨⟨handle, here⟩, rfl⟩)
  · rename_i here
    cases taken
    exact .closes here
  · simp at taken

def Stamping : StampPhase → Prop
  | .format => True
  | .print _ => True
  | .unlock => True
  | _ => False

inductive StampMoves (s : Server) : StampAnswer → Server → Prop where
  | goes {next : StampPhase} (here : s.stamp ≠ .notStarted ∧ s.stamp ≠ .finished)
      (there : next ≠ .notStarted) (outside : ¬ Stamping s.stamp) (nextOutside : ¬ Stamping next) :
      StampMoves s .ok { s with stamp := next }
  | locks (here : s.stamp = .lock) (free : s.mutex = none) :
      StampMoves s .ok { s with mutex := some .timestamp, stamp := .format }
  | formats {text : List UInt8} (here : s.stamp = .format) :
      StampMoves s (.text text) { s with stamp := .print (SharedLog.timestampRecord text) }
  | prints {rest : List UInt8} {offer : Int} {file : OpenFile} {next : StampPhase}
      (here : s.stamp = .print rest) (there : Stamping next) :
      StampMoves s (.prints offer) { s with file := file, stamp := next }
  | unlocks (here : s.stamp = .unlock) :
      StampMoves s .ok { s with mutex := none, stamp := .clearDue }
  | clears {due : Bool} (here : s.stamp = .clearDue) (flag : s.timestampDueFlag = .live due) :
      StampMoves s .ok { s with timestampDueFlag := .live false, stamp := .freeStr }
  | ends (here : s.stamp ≠ .notStarted ∧ s.stamp ≠ .finished)
      (cause : (∀ value, s.runFlag ≠ .live value) ∨ ∀ value, s.timestampDueFlag ≠ .live value) :
      StampMoves s .ok (s.ends .undefined)

theorem stampStep_moves {s t : Server} {answer : StampAnswer}
    (taken : stampStep s answer = some t) : StampMoves s answer t := by
  unfold stampStep at taken
  split at taken
  · rename_i here
    rcases withFlag_cases (Option.some.inj taken) with ⟨running, _, rfl⟩ | ⟨stale, rfl⟩
    · apply StampMoves.goes <;> grind [Stamping]
    · exact .ends (by simp [here]) (Or.inl stale)
  · rename_i here
    rcases withFlag_cases (Option.some.inj taken) with ⟨running, _, rfl⟩ | ⟨stale, rfl⟩
    · apply StampMoves.goes <;> grind [Stamping]
    · exact .ends (by simp [here]) (Or.inl stale)
  · rename_i here
    rcases withFlag_cases (Option.some.inj taken) with ⟨due, _, rfl⟩ | ⟨stale, rfl⟩
    · apply StampMoves.goes <;> grind [Stamping]
    · exact .ends (by simp [here]) (Or.inr stale)
  · rename_i here
    split at taken
    · rename_i free
      cases taken
      exact .locks here free
    · simp at taken
  · rename_i text here
    cases taken
    exact .formats here
  · rename_i rest offer here
    cases taken
    apply StampMoves.prints here
    split
    · trivial
    · split <;> trivial
  · rename_i here
    cases taken
    exact .unlocks here
  · rename_i here
    rcases withFlag_cases (Option.some.inj taken) with ⟨due, flag, rfl⟩ | ⟨stale, rfl⟩
    · exact .clears here flag
    · exact .ends (by simp [here]) (Or.inr stale)
  · rename_i here
    cases taken
    apply StampMoves.goes <;> simp [Stamping, here]
  · simp at taken

def InPacket : HandlerPhase → Prop
  | .critical _ _ => True
  | _ => False

inductive HandlerMoves (s : Server) (index : Nat) : Server → Prop where
  | goes {handler : HandlerThread} {peer : Peer} {next : HandlerPhase}
      (found : s.handlers[index]? = some handler) (live : handler.phase ≠ .finished)
      (nextLive : next ≠ .finished) (outside : ¬ InPacket handler.phase)
      (nextOutside : ¬ InPacket next) :
      HandlerMoves s index
        (s.setHandler index { handler with peer := peer, phase := next })
  | locks {handler : HandlerThread} {state : Receiving} {msg : List UInt8}
      (found : s.handlers[index]? = some handler) (here : handler.phase = .lock state msg)
      (free : s.mutex = none) :
      HandlerMoves s index
        { s.setHandler index { handler with phase := .critical state (beginPacket msg) } with
          mutex := some (.handler index) }
  | writes {handler : HandlerThread} {state : Receiving} {call next : PacketCall} {peer : Peer}
      {file : OpenFile} (found : s.handlers[index]? = some handler)
      (here : handler.phase = .critical state call) :
      HandlerMoves s index
        { s.setHandler index { handler with peer := peer, phase := .critical state next } with
          file := file }
  | unlocks {handler : HandlerThread} {state : Receiving} {sent : List UInt8}
      (found : s.handlers[index]? = some handler)
      (here : handler.phase = .critical state ⟨.unlock, sent⟩) :
      HandlerMoves s index
        { s.setHandler index { handler with phase := .extract state } with mutex := none }
  | closes {handler : HandlerThread} (found : s.handlers[index]? = some handler)
      (here : handler.phase = .close) :
      HandlerMoves s index
        { s.setHandler index { handler with phase := .finished } with
          descriptors := s.descriptors ++ [.closed handler.sockfd] }
  | ends {handler : HandlerThread} {status : Status}
      (found : s.handlers[index]? = some handler) (live : handler.phase ≠ .finished) :
      HandlerMoves s index (s.ends status)

theorem handlerStep_moves {s t : Server} {index : Nat} {answer : HandlerAnswer}
    (taken : handlerStep s index answer = some t) : HandlerMoves s index t := by
  unfold handlerStep at taken
  split at taken
  · simp at taken
  · rename_i handler found
    split at taken
    · rename_i succeeds here
      split at taken
      · cases taken
        exact @HandlerMoves.goes s index handler handler.peer _ found (by simp [here]) (by simp)
          (by simp [InPacket, here]) (by simp [InPacket])
      · cases taken
        exact .ends found (by simp [here])
    · rename_i state result grows junk here
      split at taken
      · simp at taken
      · rename_i peer _
        split at taken
        · cases taken
          apply HandlerMoves.goes found <;> simp [InPacket, here]
        · cases taken
          apply HandlerMoves.goes found <;> simp [InPacket, here]
        · cases taken
          apply HandlerMoves.goes found <;> simp [InPacket, here]
        · cases taken
          exact .ends found (by simp [here])
        · cases taken
          exact .ends found (by simp [here])
    · rename_i state succeeds here
      split at taken
      · cases taken
        exact .ends found (by simp [here])
      · cases taken
        exact @HandlerMoves.goes s index handler handler.peer _ found (by simp [here]) (by simp)
          (by simp [InPacket, here]) (by simp [InPacket])
      · cases taken
        exact @HandlerMoves.goes s index handler handler.peer _ found (by simp [here]) (by simp)
          (by simp [InPacket, here]) (by simp [InPacket])
    · rename_i state msg here
      split at taken
      · rename_i free
        cases taken
        exact .locks found here free
      · simp at taken
    · rename_i state call result here
      split at taken
      · rename_i peer _
        cases answered : call.onAnswer s.file result with
        | none => simp [answered, onPacket] at taken
        | some next =>
          rw [answered] at taken
          cases next with
          | goes file next =>
            cases taken
            exact @HandlerMoves.writes s index handler state call next peer file found here
          | exits code =>
            cases taken
            exact .ends found (by simp [here])
      · simp at taken
      · cases taken
        exact .ends found (by simp [here])
    · rename_i state sent here
      cases taken
      exact .unlocks found here
    · rename_i fullMsg bufSize succeeds here
      split at taken
      · cases taken
        exact .ends found (by simp [here])
      · cases taken
        exact @HandlerMoves.goes s index handler handler.peer _ found (by simp [here]) (by simp)
          (by simp [InPacket, here]) (by simp [InPacket])
    · rename_i here
      cases taken
      exact .closes found here
    · simp at taken

theorem clientStep_moves {s t : Server} {index : Nat} {event : ClientEvent}
    (taken : clientStep s index event = some t) :
    ∃ handler, s.handlers[index]? = some handler ∧
      t = s.setHandler index { handler with peer := handler.peer.onEvent event } := by
  obtain ⟨handler, found, rfl⟩ := Option.map_eq_some_iff.mp taken
  exact ⟨handler, found, rfl⟩

structure Aside (s t : Server) : Prop where
  main : t.main = s.main
  listen : t.listen = s.listen
  stamp : t.stamp = s.stamp
  caught : t.caught = s.caught
  sockfd : t.sockfd = s.sockfd
  threads : t.threads = s.threads
  joined : t.handlers.map HandlerThread.joined = s.handlers.map HandlerThread.joined
  runFlag : t.runFlag = s.runFlag ∨ t.runFlag = s.runFlag.store false
  dueFlag : t.timestampDueFlag = s.timestampDueFlag ∨
    ∃ value, t.timestampDueFlag = s.timestampDueFlag.store value

theorem aside_handler {s t : Server} {index : Nat} (moves : HandlerMoves s index t) :
    Aside s t := by
  cases moves with
  | goes found _ _ _ _ =>
    exact ⟨rfl, rfl, rfl, rfl, rfl, rfl, setHandler_map found rfl, Or.inl rfl, Or.inl rfl⟩
  | locks found _ _ =>
    exact ⟨rfl, rfl, rfl, rfl, rfl, rfl, setHandler_map found rfl, Or.inl rfl, Or.inl rfl⟩
  | writes found _ =>
    exact ⟨rfl, rfl, rfl, rfl, rfl, rfl, setHandler_map found rfl, Or.inl rfl, Or.inl rfl⟩
  | unlocks found _ =>
    exact ⟨rfl, rfl, rfl, rfl, rfl, rfl, setHandler_map found rfl, Or.inl rfl, Or.inl rfl⟩
  | closes found _ =>
    exact ⟨rfl, rfl, rfl, rfl, rfl, rfl, setHandler_map found rfl, Or.inl rfl, Or.inl rfl⟩
  | ends _ _ => exact ⟨rfl, rfl, rfl, rfl, rfl, rfl, rfl, Or.inl rfl, Or.inl rfl⟩

theorem aside_client {s : Server} {index : Nat} {handler : HandlerThread}
    (found : s.handlers[index]? = some handler) (peer : Peer) :
    Aside s (s.setHandler index { handler with peer := peer }) :=
  ⟨rfl, rfl, rfl, rfl, rfl, rfl, setHandler_map found rfl, Or.inl rfl, Or.inl rfl⟩

inductive SignalMoves (s : Server) (signal : Signal) : Server → Prop where
  | lowers (caught : signal ∈ s.caught) (stops : signal.stops = true) :
      SignalMoves s signal { s with runFlag := s.runFlag.store false }
  | raises (caught : signal ∈ s.caught) (alarm : signal.stops = false) :
      SignalMoves s signal { s with timestampDueFlag := s.timestampDueFlag.store true }
  | kills (uncaught : signal ∉ s.caught) :
      SignalMoves s signal (s.ends (.killed (.uncaught signal)))

theorem signalStep_moves (s : Server) (signal : Signal) :
    SignalMoves s signal (signalStep s signal) := by
  unfold signalStep
  split
  · rename_i caught
    split
    · rename_i stops
      exact .lowers caught stops
    · rename_i alarm
      exact .raises caught (by simpa using alarm)
  · rename_i uncaught
    exact .kills uncaught

theorem aside_signal {s t : Server} {signal : Signal} (moves : SignalMoves s signal t) :
    Aside s t := by
  cases moves with
  | lowers caught stops => exact ⟨rfl, rfl, rfl, rfl, rfl, rfl, rfl, Or.inr rfl, Or.inl rfl⟩
  | raises caught alarm =>
    exact ⟨rfl, rfl, rfl, rfl, rfl, rfl, rfl, Or.inl rfl, Or.inr ⟨true, rfl⟩⟩
  | kills uncaught => exact ⟨rfl, rfl, rfl, rfl, rfl, rfl, rfl, Or.inl rfl, Or.inl rfl⟩

inductive Moves (s : Server) : Action → Server → Prop where
  | main {answer : MainAnswer} {t : Server} (taken : mainStep s answer = some t)
      (moves : MainMoves s answer t) :
      Moves s (.main answer) t
  | listen {answer : ListenAnswer} {t : Server} (moves : ListenMoves s answer t) :
      Moves s (.listen answer) t
  | stamp {answer : StampAnswer} {t : Server} (moves : StampMoves s answer t) :
      Moves s (.stamp answer) t
  | handler {index : Nat} {answer : HandlerAnswer} {t : Server}
      (taken : handlerStep s index answer = some t) (moves : HandlerMoves s index t) :
      Moves s (.handler index answer) t
  | client {index : Nat} {event : ClientEvent} {handler : HandlerThread}
      (found : s.handlers[index]? = some handler) :
      Moves s (.client index event)
        (s.setHandler index { handler with peer := handler.peer.onEvent event })
  | signal {signal : Signal} {t : Server} (moves : SignalMoves s signal t) :
      Moves s (.signal signal) t

theorem step_running {s t : Server} {action : Action} (taken : step s action = some t) :
    s.status = .running := by
  unfold step at taken
  split at taken
  · assumption
  · simp at taken

theorem listen_taken {s t : Server} {answer : ListenAnswer}
    (taken : step s (.listen answer) = some t) :
    listenStep s answer = some t := by
  have running := step_running taken
  unfold step at taken
  rwa [if_pos running] at taken

theorem stamp_taken {s t : Server} {answer : StampAnswer}
    (taken : step s (.stamp answer) = some t) : stampStep s answer = some t := by
  have running := step_running taken
  unfold step at taken
  rwa [if_pos running] at taken

theorem step_moves {s t : Server} {action : Action} (taken : step s action = some t) :
    Moves s action t := by
  have running := step_running taken
  unfold step at taken
  rw [if_pos running] at taken
  cases action with
  | main answer => exact .main taken (mainStep_moves taken)
  | listen answer => exact .listen (listenStep_moves taken)
  | stamp answer => exact .stamp (stampStep_moves taken)
  | handler index answer => exact .handler taken (handlerStep_moves taken)
  | client index event =>
    obtain ⟨handler, found, rfl⟩ := clientStep_moves taken
    exact .client found
  | signal signal =>
    cases taken
    exact .signal (signalStep_moves s signal)

end ServerMoves
