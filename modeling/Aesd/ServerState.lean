import Aesd.LinkedCells
import Aesd.PacketSteps
import Aesd.ReceiveLoop

/-! The state of the whole server process: its threads, each at its next step, and what
    they share. Phases follow the lines of the source; local variables that are still
    needed are carried by the phase. -/
namespace ServerState
open LinkedCells PacketAppend PacketSteps ReceiveLoop

inductive Signal where
  | sigint
  | sigterm
  | sigalrm
  deriving DecidableEq, Repr

def Signal.stops : Signal → Bool
  | .sigint => true
  | .sigterm => true
  | .sigalrm => false

inductive Death where
  | sigpipe
  | sigsegv
  | uncaught (signal : Signal)
  deriving DecidableEq, Repr

/-- undefined stands for undefined behaviour: a stale pointer, an uninitialised handle. -/
inductive Status where
  | running
  | exited (code : Int)
  | killed (death : Death)
  | undefined
  deriving DecidableEq, Repr

inductive FlagCell where
  | unset
  | live (value : Bool)
  | freed
  deriving DecidableEq, Repr

/-- A store through a pointer that does not point to the flag is lost. -/
def FlagCell.store (value : Bool) : FlagCell → FlagCell
  | .live _ => .live value
  | cell => cell

inductive FdEvent where
  | obtained (fd : Int)
  | closed (fd : Int)
  deriving DecidableEq, Repr

def afterEvent (held : List Int) : FdEvent → List Int
  | .obtained fd => fd :: held
  | .closed fd => held.filter (· ≠ fd)

def inUse (events : List FdEvent) : List Int := events.foldl afterEvent []

/-- The other end of a connection: bytes under way to the server, whether the client has
    shut down its side or reset the connection, and how much a write can still take. -/
structure Peer where
  inbox : List UInt8
  ended : Bool
  reset : Bool
  room : Nat
  deriving DecidableEq, Repr

inductive ClientEvent where
  | sends (bytes : List UInt8)
  | shutsDown
  | resets
  | reads (count : Nat)
  deriving DecidableEq, Repr

def Peer.onEvent (peer : Peer) : ClientEvent → Peer
  | .sends bytes => { peer with inbox := peer.inbox ++ bytes }
  | .shutsDown => { peer with ended := true }
  | .resets => { peer with reset := true }
  | .reads count => { peer with room := peer.room + count }

/-- Whether recv can return the result now, and what it leaves; a blocking recv waits
    until it can. -/
def Peer.receive (peer : Peer) : RecvResult → Option Peer
  | .error => if peer.reset then some peer else none
  | .data [] => if peer.inbox = [] ∧ peer.ended then some peer else none
  | .data (byte :: bytes) =>
      if (byte :: bytes).isPrefixOf peer.inbox ∧ (byte :: bytes).length ≤ bufChunkSize then
        some { peer with inbox := peer.inbox.drop (byte :: bytes).length }
      else none

inductive SocketWrite where
  | proceeds (peer : Peer)
  | blocks
  | raisesSigpipe
  deriving DecidableEq, Repr

/-- What the connection makes of a system call inside handle_packet. Only writes to the
    socket concern it. -/
def Peer.grants (peer : Peer) (call : PacketCall) (answer : PacketAnswer) : SocketWrite :=
  match call.phase, answer with
  | .echo loop, .socketWrite offer =>
      if peer.reset then .raisesSigpipe
      else if peer.room = 0 ∨ (peer.room : Int) < offer then .blocks
      else .proceeds { peer with room := peer.room - (loop.accepted offer).length }
  | _, _ => .proceeds peer

/-- handle_connection and read_until_stop_condition. -/
inductive HandlerPhase where
  | begin
  | recv (state : Receiving)
  | extract (state : Receiving)
  | lock (state : Receiving) (msg : List UInt8)
  | critical (state : Receiving) (call : PacketCall)
  | lastExtract (fullMsg : Option (List UInt8)) (bufSize : Nat)
  | close
  | finished
  deriving DecidableEq, Repr

structure HandlerThread where
  sockfd : Int
  peer : Peer
  phase : HandlerPhase
  joined : Bool
  deriving DecidableEq, Repr

/-- connection_socket_fd, and who is at its other end. -/
structure Accepted where
  fd : Int
  peer : Peer
  deriving DecidableEq, Repr

def notAccepted : Accepted := ⟨-1, ⟨[], false, false, 0⟩⟩

/-- listen_loop. Its two exits share closeSocket. -/
inductive ListenPhase where
  | notStarted
  | top
  | listenCheck
  | listenCall
  | acceptCheck
  | acceptCall
  | finalCheck (connection : Accepted)
  | allocState (connection : Accepted)
  | createThread (connection : Accepted)
  | addThread (handle : Nat)
  | closeSocket
  | finished
  deriving DecidableEq, Repr

inductive StampPhase where
  | notStarted
  | top
  | waitRun
  | waitDue
  | lock
  | format
  | print (rest : List UInt8)
  | unlock
  | clearDue
  | freeStr
  | finished
  deriving DecidableEq, Repr

/-- main with shutdown_operations. -/
inductive MainPhase where
  | initRunFlag
  | catchSigint
  | catchSigterm
  | catchSigalrm
  | openDisk
  | bindSocket
  | daemonize
  | setTimer
  | createStamp
  | createListen
  | reap
  | joinListen
  | joinStamp
  | clearRunFlag
  | firstNode
  | joinNode (node : Nat)
  | removeNode (node : Nat)
  | nextNode (node : Nat)
  | freeNode (tmp : Nat) (node : Option Nat)
  | freeHead
  | closeSocket
  | closeDisk
  | freeRunFlag
  | freeListeningFlag
  | freeDueFlag
  | removeFile
  | finished
  deriving DecidableEq, Repr

inductive Owner where
  | handler (index : Nat)
  | timestamp
  deriving DecidableEq, Repr

/-- caught lists the signals whose handler is installed; threads is the list behind
    g_thread_list_head, whose values are indexes into handlers. -/
structure Server where
  status : Status
  main : MainPhase
  listen : ListenPhase
  stamp : StampPhase
  handlers : List HandlerThread
  runFlag : FlagCell
  isListeningFlag : FlagCell
  timestampDueFlag : FlagCell
  caught : List Signal
  mutex : Option Owner
  file : OpenFile
  sockfd : Int
  diskfd : Int
  descriptors : List FdEvent
  threads : LinkedList Nat
  daemonMode : Bool
  deriving DecidableEq, Repr

def boot (daemonMode : Bool) (file : OpenFile) : Server where
  status := .running
  main := .initRunFlag
  listen := .notStarted
  stamp := .notStarted
  handlers := []
  runFlag := .unset
  isListeningFlag := .unset
  timestampDueFlag := .unset
  caught := []
  mutex := none
  file := file
  sockfd := -1
  diskfd := -1
  descriptors := []
  threads := ⟨none, []⟩
  daemonMode := daemonMode

def Server.setHandler (s : Server) (index : Nat) (handler : HandlerThread) : Server :=
  { s with handlers := s.handlers.set index handler }

def Server.ends (s : Server) (status : Status) : Server := { s with status := status }

/-- Goes on with the value of a flag that get_run_flag or atomic_load reads. -/
def Server.withFlag (s : Server) (cell : FlagCell) (next : Bool → Server) : Server :=
  match cell with
  | .live value => next value
  | _ => s.ends .undefined

/-- The kernel hands out a number that is not in use. -/
def Server.Fresh (s : Server) (fd : Int) : Prop := 0 ≤ fd ∧ fd ∉ inUse s.descriptors

instance (s : Server) (fd : Int) : Decidable (s.Fresh fd) :=
  inferInstanceAs (Decidable (0 ≤ fd ∧ fd ∉ inUse s.descriptors))

end ServerState
