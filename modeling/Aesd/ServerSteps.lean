import Aesd.ServerState
import Aesd.SharedLog
import Aesd.TransitionRuns

/-! One step of each thread, of a client and of a signal delivery, and the machine that
    interleaves them. An answer is what the environment decides in a step; a step that
    has to wait, such as a join of a thread that still runs, is not enabled. -/
namespace ServerSteps
open TransitionRuns LinkedCells WriteAll PacketAppend PacketSteps TokenExtraction ReceiveLoop
  ServerState
open SharedLog (timestampRecord)

inductive MainAnswer where
  | ok
  | fails
  | errno (code : Int)
  | fd (number : Int)
  deriving DecidableEq, Repr

/-- The while of shutdown_operations. -/
def atNode : Option Nat → MainPhase
  | none => .freeHead
  | some node => .joinNode node

def joinHandler (s : Server) (node handle : Nat) : Option Server :=
  match s.handlers[handle]? with
  | none => some (s.ends .undefined)
  | some handler =>
      if handler.joined then some (s.ends .undefined)
      else if handler.phase = .finished then
        some { s.setHandler handle { handler with joined := true } with main := .removeNode node }
      else none

def mainStep (s : Server) (answer : MainAnswer) : Option Server :=
  match s.main, answer with
  | .initRunFlag, .ok =>
      some { s with
        runFlag := .live true
        isListeningFlag := .live false
        timestampDueFlag := .live false
        main := .catchSigint }
  | .catchSigint, .ok => some { s with caught := .sigint :: s.caught, main := .catchSigterm }
  | .catchSigterm, .ok => some { s with caught := .sigterm :: s.caught, main := .catchSigalrm }
  | .catchSigalrm, .ok => some { s with caught := .sigalrm :: s.caught, main := .openDisk }
  | .openDisk, .fd number =>
      if s.Fresh number then
        some { s with
          diskfd := number
          descriptors := s.descriptors ++ [.obtained number]
          main := .bindSocket }
      else none
  | .openDisk, .fails => some (s.ends (.exited 1))
  | .bindSocket, .fd number =>
      if s.Fresh number then
        some { s with
          sockfd := number
          descriptors := s.descriptors ++ [.obtained number]
          main := if s.daemonMode then .daemonize else .setTimer }
      else none
  | .bindSocket, .fails => some (s.ends (.exited 1))
  | .daemonize, .ok => some { s with main := .setTimer }
  | .daemonize, .errno code => some (s.ends (.exited code))
  | .setTimer, .ok => some { s with main := .createStamp }
  | .createStamp, .ok => some { s with stamp := .top, main := .createListen }
  | .createStamp, .fails => some (s.ends .undefined)
  | .createListen, .ok => some { s with listen := .top, main := .reap }
  | .createListen, .fails => some (s.ends (.exited 1))
  | .reap, .ok =>
      some (s.withFlag s.runFlag fun running => { s with main := if running then .reap else .joinListen })
  | .joinListen, .ok => if s.listen = .finished then some { s with main := .joinStamp } else none
  | .joinStamp, .ok => if s.stamp = .finished then some { s with main := .clearRunFlag } else none
  | .clearRunFlag, .ok =>
      some (s.withFlag s.runFlag fun _ => { s with runFlag := .live false, main := .firstNode })
  | .firstNode, .ok => some { s with main := atNode s.threads.first }
  | .joinNode node, .ok =>
      match read s.threads.cells node with
      | none => some (s.ends .undefined)
      | some cell => joinHandler s node cell.value
  | .removeNode node, .ok =>
      match remove s.threads node with
      | none => some (s.ends .undefined)
      | some threads => some { s with threads := threads, main := .nextNode node }
  | .nextNode node, .ok =>
      match read s.threads.cells node with
      | none => some (s.ends .undefined)
      | some cell => some { s with main := .freeNode node cell.next }
  | .freeNode tmp node, .ok =>
      match free s.threads tmp with
      | none => some (s.ends .undefined)
      | some threads => some { s with threads := threads, main := atNode node }
  | .freeHead, .ok => some { s with main := .closeSocket }
  | .closeSocket, .ok =>
      some { s with descriptors := s.descriptors ++ [.closed s.sockfd], main := .closeDisk }
  | .closeDisk, .ok =>
      some { s with descriptors := s.descriptors ++ [.closed s.diskfd], main := .freeRunFlag }
  | .freeRunFlag, .ok => some { s with runFlag := .freed, main := .freeListeningFlag }
  | .freeListeningFlag, .ok => some { s with isListeningFlag := .freed, main := .freeDueFlag }
  | .freeDueFlag, .ok => some { s with timestampDueFlag := .freed, main := .removeFile }
  | .removeFile, .ok => some { s with main := .finished }
  | .removeFile, .fails => some { s with main := .finished }
  | .finished, .ok => some (s.ends (.exited 0))
  | _, _ => none

inductive ListenAnswer where
  | ok
  | again
  | fails
  | accepted (connection : Accepted)
  deriving DecidableEq, Repr

def listenStep (s : Server) (answer : ListenAnswer) : Option Server :=
  match s.listen, answer with
  | .top, .ok =>
      some (s.withFlag s.runFlag fun running =>
        { s with listen := if running then .listenCheck else .closeSocket })
  | .listenCheck, .ok =>
      some (s.withFlag s.runFlag fun running =>
        { s with listen := if running then .listenCall else .acceptCheck })
  | .listenCall, .ok => some { s with listen := .acceptCheck }
  | .listenCall, .again => some { s with listen := .listenCheck }
  | .listenCall, .fails => some (s.ends (.exited 3))
  | .acceptCheck, .ok =>
      some (s.withFlag s.runFlag fun running =>
        { s with listen := if running then .acceptCall else .finalCheck notAccepted })
  | .acceptCall, .accepted connection =>
      if s.Fresh connection.fd then
        some { s with
          descriptors := s.descriptors ++ [.obtained connection.fd]
          listen := .finalCheck connection }
      else none
  | .acceptCall, .again => some { s with listen := .acceptCheck }
  | .acceptCall, .fails => some (s.ends (.exited 4))
  | .finalCheck connection, .ok =>
      some (s.withFlag s.runFlag fun running =>
        { s with listen := if running then .allocState connection else .closeSocket })
  | .allocState connection, .ok => some { s with listen := .createThread connection }
  | .allocState _, .fails => some (s.ends (.exited 10))
  | .createThread connection, .ok =>
      some { s with
        handlers := s.handlers ++ [⟨connection.fd, connection.peer, .begin, false⟩]
        listen := .addThread s.handlers.length }
  | .createThread _, .fails => some (s.ends (.exited 6))
  | .addThread handle, .ok =>
      some { s with threads := insertHead s.threads handle, listen := .top }
  | .addThread _, .fails => some (s.ends .undefined)
  | .closeSocket, .ok =>
      some { s with descriptors := s.descriptors ++ [.closed s.sockfd], listen := .finished }
  | _, _ => none

inductive StampAnswer where
  | ok
  | text (bytes : List UInt8)
  | prints (offer : Int)
  deriving DecidableEq, Repr

def stampStep (s : Server) (answer : StampAnswer) : Option Server :=
  match s.stamp, answer with
  | .top, .ok =>
      some (s.withFlag s.runFlag fun running =>
        { s with stamp := if running then .waitRun else .finished })
  | .waitRun, .ok =>
      some (s.withFlag s.runFlag fun running =>
        { s with stamp := if running then .waitDue else .lock })
  | .waitDue, .ok =>
      some (s.withFlag s.timestampDueFlag fun due =>
        { s with stamp := if due then .lock else .waitRun })
  | .lock, .ok =>
      if s.mutex = none then some { s with mutex := some .timestamp, stamp := .format } else none
  | .format, .text bytes => some { s with stamp := .print (timestampRecord bytes) }
  | .print rest, .prints offer =>
      let loop : WriteLoop := ⟨rest, 0⟩
      some { s with
        file := s.file.append (loop.accepted offer)
        stamp := if offer ≤ 0 then .unlock
          else if rest.drop offer.toNat = [] then .unlock
          else .print (rest.drop offer.toNat) }
  | .unlock, .ok => some { s with mutex := none, stamp := .clearDue }
  | .clearDue, .ok =>
      some (s.withFlag s.timestampDueFlag fun _ =>
        { s with timestampDueFlag := .live false, stamp := .freeStr })
  | .freeStr, .ok => some { s with stamp := .top }
  | _, _ => none

/-- alloc tells whether calloc succeeds, grows and junk what realloc does. -/
inductive HandlerAnswer where
  | ok
  | alloc (succeeds : Bool)
  | recv (result : RecvResult) (grows : Bool) (junk : Nat → UInt8)
  | system (answer : PacketAnswer)

def onPacket (s : Server) (index : Nat) (handler : HandlerThread) (state : Receiving) :
    Option PacketNext → Option Server
  | none => none
  | some (.goes file call) =>
      some { s.setHandler index { handler with phase := .critical state call } with file := file }
  | some (.exits code) => some (s.ends (.exited code))

def handlerStep (s : Server) (index : Nat) (answer : HandlerAnswer) : Option Server :=
  match s.handlers[index]? with
  | none => none
  | some handler =>
    match handler.phase, answer with
    | .begin, .alloc succeeds =>
        if succeeds then
          some (s.setHandler index { handler with phase := .recv startReceiving })
        else some (s.ends (.exited (-1)))
    | .recv state, .recv result grows junk =>
        match handler.peer.receive result with
        | none => none
        | some peer =>
          match onRecv junk grows state result with
          | .again next =>
              some (s.setHandler index { handler with peer := peer, phase := .recv next })
          | .drain next =>
              some (s.setHandler index { handler with peer := peer, phase := .extract next })
          | .returned buf len =>
              some (s.setHandler index { handler with peer := peer, phase := .lastExtract buf len })
          | .exited => some (s.ends (.exited (-1)))
          | .fault => some (s.ends .undefined)
    | .extract state, .alloc succeeds =>
        match extractTokenAndConsolidateBuffer succeeds state.buf state.len with
        | none => some (s.ends .undefined)
        | some ⟨none, buf⟩ =>
            some (s.setHandler index { handler with phase := .lastExtract (some buf) state.len })
        | some ⟨some token, buf⟩ =>
            some (s.setHandler index
              { handler with phase := .lock ⟨buf, state.index, state.len⟩ (cString token) })
    | .lock state msg, .ok =>
        if s.mutex = none then
          some { s.setHandler index { handler with phase := .critical state (beginPacket msg) } with
            mutex := some (.handler index) }
        else none
    | .critical state call, .system result =>
        match handler.peer.grants call result with
        | .proceeds peer =>
            onPacket s index { handler with peer := peer } state (call.onAnswer s.file result)
        | .blocks => none
        | .raisesSigpipe => some (s.ends (.killed .sigpipe))
    | .critical state ⟨.unlock, _⟩, .ok =>
        some { s.setHandler index { handler with phase := .extract state } with mutex := none }
    | .lastExtract fullMsg bufSize, .alloc succeeds =>
        match extractTokenAndConsolidateBuffer succeeds (fullMsg.getD []) bufSize with
        | none => some (s.ends (if fullMsg = none then .killed .sigsegv else .undefined))
        | some _ => some (s.setHandler index { handler with phase := .close })
    | .close, .ok =>
        some { s.setHandler index { handler with phase := .finished } with
          descriptors := s.descriptors ++ [.closed handler.sockfd] }
    | _, _ => none

def clientStep (s : Server) (index : Nat) (event : ClientEvent) : Option Server :=
  (s.handlers[index]?).map fun handler =>
    s.setHandler index { handler with peer := handler.peer.onEvent event }

/-- Delivery of a signal: the default disposition ends the process, signal_handler stores
    to one of the flags. -/
def signalStep (s : Server) (signal : Signal) : Server :=
  if signal ∈ s.caught then
    if signal.stops then { s with runFlag := s.runFlag.store false }
    else { s with timestampDueFlag := s.timestampDueFlag.store true }
  else s.ends (.killed (.uncaught signal))

inductive Action where
  | main (answer : MainAnswer)
  | listen (answer : ListenAnswer)
  | stamp (answer : StampAnswer)
  | handler (index : Nat) (answer : HandlerAnswer)
  | client (index : Nat) (event : ClientEvent)
  | signal (signal : Signal)

def step (s : Server) (action : Action) : Option Server :=
  if s.status = .running then
    match action with
    | .main answer => mainStep s answer
    | .listen answer => listenStep s answer
    | .stamp answer => stampStep s answer
    | .handler index answer => handlerStep s index answer
    | .client index event => clientStep s index event
    | .signal signal => some (signalStep s signal)
  else none

def machine : Machine Server Action := ⟨step⟩

/-- main up to its reaper loop, both service threads started. -/
def startup : List Action :=
  [.main .ok, .main .ok, .main .ok, .main .ok, .main (.fd 3), .main (.fd 4), .main .ok, .main .ok,
    .main .ok]

def quietStop : List Action :=
  [.signal .sigterm, .main .ok, .listen .ok, .listen .ok, .main .ok, .stamp .ok, .main .ok,
    .main .ok, .main .ok, .main .ok, .main .ok, .main .ok, .main .ok, .main .ok, .main .ok,
    .main .ok]

def oneClient : List Action :=
  [.listen .ok, .listen .ok, .listen .ok, .listen .ok,
    .listen (.accepted ⟨5, ⟨[], false, false, 0⟩⟩), .listen .ok, .listen .ok, .listen .ok,
    .listen .ok, .handler 0 (.alloc true)]

def clientInRecv : Server :=
  { boot false ⟨[], 0⟩ with
    main := .reap
    listen := .top
    stamp := .top
    handlers := [⟨5, ⟨[], false, false, 0⟩, .recv startReceiving, false⟩]
    runFlag := .live true
    isListeningFlag := .live false
    timestampDueFlag := .live false
    caught := [.sigalrm, .sigterm, .sigint]
    sockfd := 4
    diskfd := 3
    descriptors := [.obtained 3, .obtained 4, .obtained 5]
    threads := ⟨some 0, [⟨0, none, false⟩]⟩ }

theorem one_client_run :
    machine.run (boot false ⟨[], 0⟩) (startup ++ oneClient) = some clientInRecv := rfl

end ServerSteps
