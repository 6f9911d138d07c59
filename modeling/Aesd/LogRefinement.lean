import Aesd.HandlerTransitions
import Aesd.ServerLifetimes
import Aesd.SharedLog
import Aesd.SimulatedRuns

/-! The whole server refines the log that its threads share. What receiving, listening,
    signals and shutdown do is invisible there, and the packets that a handler finds only in
    the course of a run are known to the log from its start. -/
namespace LogRefinement
open TransitionRuns SimulatedRuns SerialLog PacketAppend PacketSteps ReceiveLoop ServerState
  ServerSteps ServerMoves HandlerTransitions ServerLifetimes
open SharedLog (packetRecord timestampRecord)

/-- A packet for which a handler takes the mutex, and what the socket had taken of the echo
    when it gives the mutex back. -/
inductive LogEvent where
  | packet (conn : Nat) (msg : List UInt8)
  | echo (conn : Nat) (sent : List UInt8)
  deriving DecidableEq, Repr

def LogEvent.packetOf (conn : Nat) : LogEvent → Option (List UInt8)
  | .packet other msg => if other = conn then some msg else none
  | .echo _ _ => none

def LogEvent.echoOf (conn : Nat) : LogEvent → Option (List UInt8)
  | .packet _ _ => none
  | .echo other sent => if other = conn then some sent else none

def packetsOf (conn : Nat) (events : List LogEvent) : List (List UInt8) :=
  events.filterMap (LogEvent.packetOf conn)

def echoesOf (conn : Nat) (events : List LogEvent) : List (List UInt8) :=
  events.filterMap (LogEvent.echoOf conn)

def handlerEvents (index : Nat) (phase : HandlerPhase) (answer : HandlerAnswer) : List LogEvent :=
  match phase, answer with
  | .lock _ msg, .ok => [.packet index msg]
  | .critical _ ⟨.unlock, sent⟩, .ok => [.echo index sent]
  | _, _ => []

def logEvents (s : Server) : ServerSteps.Action → List LogEvent
  | .handler index answer =>
      match s.handlers[index]? with
      | none => []
      | some handler => handlerEvents index handler.phase answer
  | _ => []

def stampLabels (phase : ServerState.StampPhase) (answer : StampAnswer) :
    List (SharedLog.Action Nat) :=
  match phase, answer with
  | .lock, .ok => [.stampLock]
  | .format, .text bytes => [.stampFormat bytes]
  | .print _, .prints offer => [.stampPrint offer]
  | .unlock, .ok => [.stampUnlock]
  | _, _ => []

/-- A write that raises SIGPIPE is no step on the log. -/
def handlerLabels (index : Nat) (handler : HandlerThread) (answer : HandlerAnswer) :
    List (SharedLog.Action Nat) :=
  match handler.phase, answer with
  | .lock _ _, .ok => [.lock index]
  | .critical _ ⟨.unlock, _⟩, .ok => [.unlock index]
  | .critical _ call, .system result =>
      match handler.peer.grants call result with
      | .proceeds _ => [.answer index result]
      | _ => []
  | _, _ => []

def logLabels (s : Server) : ServerSteps.Action → List (SharedLog.Action Nat)
  | .stamp answer => stampLabels s.stamp answer
  | .handler index answer =>
      match s.handlers[index]? with
      | none => []
      | some handler => handlerLabels index handler answer
  | _ => []

def phaseCall : HandlerPhase → Option PacketCall
  | .critical _ call => some call
  | _ => none

def callOf (s : Server) (conn : Nat) : Option PacketCall :=
  (s.handlers[conn]?).bind fun handler => phaseCall handler.phase

def ownerThread : Owner → SharedLog.Thread Nat
  | .handler index => .handler index
  | .timestamp => .timestamp

def logStamp : ServerState.StampPhase → SharedLog.StampPhase
  | .format => .formatting
  | .print rest => .printing rest
  | .unlock => .unlocking
  | _ => .waiting

/-- The log x shows of the server s, whose run is still going to emit future, what concerns
    the data file. The echoes that each connection gets in the whole run are total. -/
structure Shows (total : Nat → List (List UInt8)) (s : Server) (future : List LogEvent)
    (x : SharedLog.System Nat) : Prop where
  file : x.file = s.file
  mutex : x.mutex = s.mutex.map ownerThread
  todo : ∀ conn, (x.handlers conn).todo = packetsOf conn future
  call : ∀ conn, (x.handlers conn).call = callOf s conn
  echoes : ∀ conn, (x.handlers conn).echoes ++ echoesOf conn future = total conn
  stamp : x.stamp = logStamp s.stamp
  going : s.status = .running → x.exited = none

theorem packetsOf_append (conn : Nat) (first second : List LogEvent) :
    packetsOf conn (first ++ second) = packetsOf conn first ++ packetsOf conn second :=
  List.filterMap_append

theorem echoesOf_append (conn : Nat) (first second : List LogEvent) :
    echoesOf conn (first ++ second) = echoesOf conn first ++ echoesOf conn second :=
  List.filterMap_append

@[simp] theorem packetsOf_nil (conn : Nat) : packetsOf conn [] = [] := rfl
@[simp] theorem echoesOf_nil (conn : Nat) : echoesOf conn [] = [] := rfl

@[simp] theorem packetsOf_packet (conn other : Nat) (msg : List UInt8) (later : List LogEvent) :
    packetsOf conn (.packet other msg :: later) =
      if other = conn then msg :: packetsOf conn later else packetsOf conn later := by
  by_cases same : other = conn <;> simp [packetsOf, LogEvent.packetOf, same]

@[simp] theorem packetsOf_echo (conn other : Nat) (sent : List UInt8) (later : List LogEvent) :
    packetsOf conn (.echo other sent :: later) = packetsOf conn later := rfl

@[simp] theorem echoesOf_packet (conn other : Nat) (msg : List UInt8) (later : List LogEvent) :
    echoesOf conn (.packet other msg :: later) = echoesOf conn later := rfl

@[simp] theorem echoesOf_echo (conn other : Nat) (sent : List UInt8) (later : List LogEvent) :
    echoesOf conn (.echo other sent :: later) =
      if other = conn then sent :: echoesOf conn later else echoesOf conn later := by
  by_cases same : other = conn <;> simp [echoesOf, LogEvent.echoOf, same]

theorem callOf_phases {s t : Server}
    (same : t.handlers.map HandlerThread.phase = s.handlers.map HandlerThread.phase) (conn : Nat) :
    callOf t conn = callOf s conn := by
  have here := congrArg (fun phases : List HandlerPhase => (phases[conn]?).bind phaseCall) same
  simpa only [callOf, List.getElem?_map, Option.bind_map, Function.comp_def] using here

theorem callOf_set {s : Server} {index : Nat} {handler : HandlerThread}
    (found : s.handlers[index]? = some handler) (next : HandlerThread) (conn : Nat) :
    callOf (s.setHandler index next) conn =
      if index = conn then phaseCall next.phase else callOf s conn := by
  obtain ⟨inside, _⟩ := List.getElem?_eq_some_iff.mp found
  unfold callOf Server.setHandler
  rw [List.getElem?_set]
  by_cases same : index = conn
  · simp [same, same ▸ inside]
  · simp [same]

section Steps
variable {total : Nat → List (List UInt8)} {s t : Server} {future : List LogEvent}
  {x : SharedLog.System Nat}

theorem shows_same (held : Shows total s future x) (file : t.file = s.file)
    (mutex : t.mutex = s.mutex) (calls : ∀ conn, callOf t conn = callOf s conn)
    (stamp : logStamp t.stamp = logStamp s.stamp)
    (status : t.status = .running → s.status = .running) : Shows total t future x where
  file := held.file.trans file.symm
  mutex := held.mutex.trans (by rw [mutex])
  todo := held.todo
  call conn := (held.call conn).trans (calls conn).symm
  echoes := held.echoes
  stamp := held.stamp.trans stamp.symm
  going running := held.going (status running)

theorem shows_ends (held : Shows total s future x) {status : Status} (stops : status ≠ .running) :
    Shows total (s.ends status) future x :=
  shows_same held rfl rfl (fun _ => rfl) rfl fun running => absurd running stops

theorem shows_main {answer : MainAnswer} (life : Lifetimes s) (held : Shows total s future x)
    (running : s.status = .running) (moves : MainMoves s answer t) : Shows total t future x := by
  have going : t.status = .running → s.status = .running := fun _ => running
  cases moves with
  | startsStamp here =>
    have before : s.stamp = .notStarted := by simpa [here, stage, stampAt] using life.stamp
    exact shows_same held rfl rfl (fun _ => rfl) (by rw [before]; rfl) going
  | drains _ _ same => exact shows_same held rfl rfl (callOf_phases same) rfl going
  | exits cause => exact shows_ends held (by simp)
  | returns here => exact shows_ends held (by simp)
  | goesWrong cause => exact shows_ends held (by simp)
  | _ => exact shows_same held rfl rfl (fun _ => rfl) rfl going

theorem callOf_append {handlers : List HandlerThread} {handler : HandlerThread}
    (held : s.handlers = handlers) (idle : phaseCall handler.phase = none) (conn : Nat) :
    callOf { s with handlers := handlers ++ [handler] } conn = callOf s conn := by
  subst held
  unfold callOf
  rcases Nat.lt_trichotomy conn s.handlers.length with earlier | same | later
  · rw [List.getElem?_append_left earlier]
  · simp [same, idle]
  · rw [List.getElem?_eq_none (by simp; omega), List.getElem?_eq_none (by omega)]

theorem shows_listen {answer : ListenAnswer} (held : Shows total s future x)
    (running : s.status = .running) (moves : ListenMoves s answer t) : Shows total t future x := by
  have going : t.status = .running → s.status = .running := fun _ => running
  cases moves with
  | creates here => exact shows_same held rfl rfl (callOf_append rfl rfl) rfl going
  | exits here => exact shows_ends held (by simp)
  | goesWrong here cause => exact shows_ends held (by simp)
  | _ => exact shows_same held rfl rfl (fun _ => rfl) rfl going

theorem shows_signal {signal : Signal} (held : Shows total s future x)
    (running : s.status = .running) (moves : SignalMoves s signal t) : Shows total t future x := by
  cases moves with
  | kills uncaught => exact shows_ends held (by simp)
  | _ => exact shows_same held rfl rfl (fun _ => rfl) rfl fun _ => running

theorem shows_phase (held : Shows total s future x) (running : s.status = .running)
    {next : ServerState.StampPhase} (same : logStamp next = logStamp s.stamp) :
    Shows total { s with stamp := next } future x :=
  shows_same held rfl rfl (fun _ => rfl) same fun _ => running

theorem shows_flag {cell : FlagCell} {next : Bool → Server} (held : Shows total s future x)
    (same : ∀ value, Shows total (next value) future x) (taken : s.withFlag cell next = t) :
    Shows total t future x := by
  rcases withFlag_cases taken with ⟨value, _, rfl⟩ | ⟨_, rfl⟩
  · exact same value
  · exact shows_ends held (by simp)

theorem shows_stamp {answer : StampAnswer} (held : Shows total s future x)
    (running : s.status = .running) (taken : stampStep s answer = some t) :
    ∃ y, SharedLog.machine.run x (stampLabels s.stamp answer) = some y ∧
      Shows total t future y := by
  have going := held.going running
  have stamp := held.stamp
  unfold stampStep at taken
  split at taken
  · rename_i here
    refine ⟨x, by rw [here]; rfl, shows_flag held ?_ (Option.some.inj taken)⟩
    intro value
    apply shows_phase held running
    cases value <;> simp [here, logStamp]
  · rename_i here
    refine ⟨x, by rw [here]; rfl, shows_flag held ?_ (Option.some.inj taken)⟩
    intro value
    apply shows_phase held running
    cases value <;> simp [here, logStamp]
  · rename_i here
    refine ⟨x, by rw [here]; rfl, shows_flag held ?_ (Option.some.inj taken)⟩
    intro value
    apply shows_phase held running
    cases value <;> simp [here, logStamp]
  · rename_i here
    split at taken
    · rename_i free
      cases taken
      have mutex : x.mutex = none := by rw [held.mutex, free]; rfl
      refine ⟨{ x with mutex := some .timestamp, stamp := .formatting }, ?_, ?_⟩
      · rw [here] at stamp ⊢
        simp [stampLabels, Machine.run, SharedLog.machine, SharedLog.step, going, mutex, stamp,
          logStamp]
      · exact ⟨held.file, rfl, held.todo, held.call, held.echoes, rfl, held.going⟩
    · simp at taken
  · rename_i text here
    cases taken
    refine ⟨{ x with stamp := .printing (timestampRecord text) }, ?_, ?_⟩
    · rw [here] at stamp ⊢
      simp [stampLabels, Machine.run, SharedLog.machine, SharedLog.step, going, stamp, logStamp]
    · exact ⟨held.file, held.mutex, held.todo, held.call, held.echoes, rfl, held.going⟩
  · rename_i rest offer here
    cases taken
    refine ⟨{ x with
      file := x.file.append (WriteAll.WriteLoop.accepted ⟨rest, 0⟩ offer)
      stamp := if offer ≤ 0 then .unlocking
        else if rest.drop offer.toNat = [] then .unlocking
        else .printing (rest.drop offer.toNat) }, ?_, ?_⟩
    · rw [here] at stamp ⊢
      simp [stampLabels, Machine.run, SharedLog.machine, SharedLog.step, going, stamp, logStamp]
    · refine ⟨by simp [held.file], held.mutex, held.todo, held.call, held.echoes, ?_, held.going⟩
      dsimp only
      split
      · rfl
      · split <;> rfl
  · rename_i here
    cases taken
    refine ⟨{ x with mutex := none, stamp := .waiting }, ?_, ?_⟩
    · rw [here] at stamp ⊢
      simp [stampLabels, Machine.run, SharedLog.machine, SharedLog.step, going, stamp, logStamp]
    · exact ⟨held.file, rfl, held.todo, held.call, held.echoes, rfl, held.going⟩
  · rename_i here
    refine ⟨x, by rw [here]; rfl, shows_flag held ?_ (Option.some.inj taken)⟩
    intro value
    exact shows_same held rfl rfl (fun _ => rfl) (by simp [here, logStamp]) fun _ => running
  · rename_i here
    cases taken
    exact ⟨x, by rw [here]; rfl, shows_phase held running (by simp [here, logStamp])⟩
  · simp at taken

/-- A step of a handler on a packet, told by what the log keeps of the handler afterwards. -/
theorem shows_set {index : Nat} {handler next : HandlerThread} (now : List LogEvent)
    (record : SharedLog.Handler) (held : Shows total s (now ++ future) x)
    (running : s.status = .running) (found : s.handlers[index]? = some handler)
    (own : ∀ conn, conn ≠ index → packetsOf conn now = [] ∧ echoesOf conn now = [])
    (todo : record.todo = packetsOf index future) (call : record.call = phaseCall next.phase)
    (echoes : record.echoes ++ echoesOf index future = total index) (file : OpenFile)
    (mutex : Option Owner) :
    Shows total { s.setHandler index next with file := file, mutex := mutex } future
      { x with
        file := file
        mutex := mutex.map ownerThread
        handlers := Function.update x.handlers index record } where
  file := rfl
  mutex := rfl
  todo conn := by
    by_cases same : conn = index
    · simp [same, todo]
    · have before := held.todo conn
      rw [packetsOf_append, (own conn same).1, List.nil_append] at before
      simp [same, before]
  call conn := by
    have after : callOf { s.setHandler index next with file := file, mutex := mutex } conn =
        callOf (s.setHandler index next) conn := rfl
    rw [after, callOf_set found]
    by_cases same : conn = index
    · simp [same, call]
    · simp [same, Ne.symm same, held.call conn]
  echoes conn := by
    by_cases same : conn = index
    · simp [same, echoes]
    · have before := held.echoes conn
      rw [echoesOf_append, (own conn same).2, List.nil_append] at before
      simp [same, before]
  stamp := held.stamp
  going _ := held.going running

/-- The phases of a handler in which it neither works on a packet nor is about to. -/
def Between (phase : HandlerPhase) : Prop :=
  phaseCall phase = none ∧ ∀ state msg, phase ≠ .lock state msg

theorem between_quiet {handler : HandlerThread} (between : Between handler.phase) (index : Nat)
    (answer : HandlerAnswer) :
    handlerEvents index handler.phase answer = [] ∧ handlerLabels index handler answer = [] := by
  unfold handlerEvents handlerLabels
  cases phase : handler.phase with
  | lock state msg => exact absurd phase (between.2 state msg)
  | critical state call => simp [phase, Between, phaseCall] at between
  | _ => exact ⟨rfl, rfl⟩

theorem ends_quiet {handler : HandlerThread} {answer : HandlerAnswer} (called : answer ≠ .ok)
    (raises : ∀ result, answer = .system result → ∃ state call,
      handler.phase = .critical state call ∧ handler.peer.grants call result = .raisesSigpipe)
    (index : Nat) :
    handlerEvents index handler.phase answer = [] ∧ handlerLabels index handler answer = [] := by
  cases answer with
  | ok => exact absurd rfl called
  | system result =>
    obtain ⟨state, call, here, granted⟩ := raises result rfl
    simp [handlerEvents, handlerLabels, here, granted]
  | _ => cases phase : handler.phase <;> simp [handlerEvents, handlerLabels, phase]

theorem shows_between {index : Nat} {handler next : HandlerThread} {answer : HandlerAnswer}
    (held : Shows total s (handlerEvents index handler.phase answer ++ future) x)
    (running : s.status = .running) (found : s.handlers[index]? = some handler)
    (between : Between handler.phase) (after : phaseCall next.phase = none) :
    ∃ y, SharedLog.machine.run x (handlerLabels index handler answer) = some y ∧
      Shows total (s.setHandler index next) future y := by
  obtain ⟨events, labels⟩ := between_quiet between index answer
  rw [events, List.nil_append] at held
  rw [labels]
  refine ⟨x, rfl, shows_same held rfl rfl ?_ rfl fun _ => running⟩
  intro conn
  rw [callOf_set found]
  split
  · rename_i same
    rw [after, ← same, callOf, found, Option.bind_some, between.1]
  · rfl

theorem shows_transition {index : Nat} {handler : HandlerThread} {answer : HandlerAnswer}
    (held : Shows total s (handlerEvents index handler.phase answer ++ future) x)
    (running : s.status = .running) (found : s.handlers[index]? = some handler)
    (taken : Transition s index handler answer t) :
    ∃ y, SharedLog.machine.run x (handlerLabels index handler answer) = some y ∧
      Shows total t future y := by
  have going := held.going running
  have inCall := held.call index
  have todo := held.todo index
  have echoes := held.echoes index
  rw [callOf, found, Option.bind_some] at inCall
  -- What the log knows of this handler: its packets to come, its call and its echoes.
  cases record : x.handlers index with
  | mk packets call sentBefore =>
  simp only [record] at inCall todo echoes
  cases taken with
  | locks here free =>
    rename_i state msg
    simp only [here, handlerEvents, phaseCall, List.cons_append, List.nil_append, packetsOf_packet,
      echoesOf_packet, ↓reduceIte] at held inCall todo echoes
    have mutex : x.mutex = none := by rw [held.mutex, free]; rfl
    have own (conn : Nat) (other : conn ≠ index) :
        packetsOf conn [.packet index msg] = [] ∧ echoesOf conn [.packet index msg] = [] := by
      simp [other.symm]
    refine ⟨_, ?_, shows_set [.packet index msg]
      ⟨packetsOf index future, some (beginPacket msg), sentBefore⟩ held running found own rfl rfl
      echoes s.file (some (.handler index))⟩
    rw [inCall, todo] at record
    simp [handlerLabels, here, Machine.run, SharedLog.machine, SharedLog.step, going, mutex, record,
      held.file, ownerThread]
  | answers here granted gives =>
    rename_i state call next result peer file
    simp only [here, handlerEvents, phaseCall, List.nil_append] at held inCall todo echoes
    refine ⟨_, ?_, shows_set [] ⟨packets, some next, sentBefore⟩ held running found
      (fun _ _ => ⟨rfl, rfl⟩) todo rfl echoes file s.mutex⟩
    rw [inCall] at record
    rw [← held.file] at gives
    simp [handlerLabels, here, granted, Machine.run, SharedLog.machine, SharedLog.step, going, record,
      gives, held.mutex]
  | exits here granted gives =>
    rename_i state call result peer code
    simp only [here, handlerEvents, phaseCall, List.nil_append] at held inCall
    rw [inCall] at record
    rw [← held.file] at gives
    refine ⟨{ x with exited := some code }, ?_, ?_⟩
    · simp [handlerLabels, here, granted, Machine.run, SharedLog.machine, SharedLog.step, going,
        record, gives]
    · exact ⟨held.file, held.mutex, held.todo, held.call, held.echoes, held.stamp, by simp [Server.ends]⟩
  | unlocks here =>
    rename_i state sent
    simp only [here, handlerEvents, phaseCall, List.cons_append, List.nil_append, packetsOf_echo,
      echoesOf_echo, ↓reduceIte] at held inCall todo echoes
    have own (conn : Nat) (other : conn ≠ index) :
        packetsOf conn [.echo index sent] = [] ∧ echoesOf conn [.echo index sent] = [] := by
      simp [other.symm]
    refine ⟨_, ?_, shows_set [.echo index sent] ⟨packets, none, sentBefore ++ [sent]⟩ held running
      found own todo rfl (by simpa using echoes) s.file none⟩
    rw [inCall] at record
    simp [handlerLabels, here, Machine.run, SharedLog.machine, SharedLog.step, going, record,
      held.file]
  | ends live called _ raises stops =>
    obtain ⟨events, labels⟩ := ends_quiet called raises index
    rw [events, List.nil_append] at held
    exact ⟨x, by rw [labels]; rfl, shows_ends held stops⟩
  | closes here =>
    obtain ⟨y, quiet, moved⟩ := @shows_between _ _ _ _ _ _ { handler with phase := .finished } _
      held running found (by simp [Between, here, phaseCall]) rfl
    exact ⟨y, quiet, shows_same moved rfl rfl (fun _ => rfl) rfl id⟩
  | begins here =>
    exact shows_between held running found (by simp [Between, here, phaseCall]) rfl
  | receives here received goes =>
    exact shows_between held running found (by simp [Between, here, phaseCall]) rfl
  | receivesLast here received goes =>
    exact shows_between held running found (by simp [Between, here, phaseCall]) rfl
  | receivesNothing here received goes =>
    exact shows_between held running found (by simp [Between, here, phaseCall]) rfl
  | extractsNothing here gives =>
    exact shows_between held running found (by simp [Between, here, phaseCall]) rfl
  | extracts here gives =>
    exact shows_between held running found (by simp [Between, here, phaseCall]) rfl
  | extractsLast here gives =>
    exact shows_between held running found (by simp [Between, here, phaseCall]) rfl

theorem shows_client {index : Nat} {handler : HandlerThread} (held : Shows total s future x)
    (running : s.status = .running) (found : s.handlers[index]? = some handler) (peer : Peer) :
    Shows total (s.setHandler index { handler with peer := peer }) future x := by
  refine shows_same held rfl rfl ?_ rfl fun _ => running
  exact callOf_phases (setHandler_map found rfl)

theorem shows_step {action : ServerSteps.Action} (life : Lifetimes s)
    (held : Shows total s (logEvents s action ++ future) x) (taken : step s action = some t) :
    ∃ y, SharedLog.machine.run x (logLabels s action) = some y ∧ Shows total t future y := by
  have running := step_running taken
  cases action with
  | stamp answer => exact shows_stamp held running (stamp_taken taken)
  | handler index answer =>
    unfold step at taken
    rw [if_pos running] at taken
    obtain ⟨handler, found, transition⟩ := handlerStep_transition taken
    simp only [logEvents, found] at held
    simp only [logLabels, found]
    exact shows_transition held running found transition
  | main answer =>
    cases step_moves taken with
    | main taken moves => exact ⟨x, rfl, shows_main life held running moves⟩
  | listen answer =>
    cases step_moves taken with
    | listen moves => exact ⟨x, rfl, shows_listen held running moves⟩
  | client index event =>
    cases step_moves taken with
    | client found => exact ⟨x, rfl, shows_client held running found _⟩
  | signal signal =>
    cases step_moves taken with
    | signal moves => exact ⟨x, rfl, shows_signal held running moves⟩

end Steps

def logSimulation (total : Nat → List (List UInt8)) :
    Simulation ServerSteps.machine (SharedLog.machine : Machine (SharedLog.System Nat) _)
      LogEvent where
  labels := logLabels
  emit := logEvents
  rel s future x := Lifetimes s ∧ Shows total s future x
  follows := by
    intro s action t future x taken held
    obtain ⟨y, run, shown⟩ := shows_step held.1 held.2 taken
    exact ⟨y, run, lifetimes_step s action t held.1 taken, shown⟩

/-- No write_all gives up, no read of the data file fails, and dprintf writes on. -/
def Undisturbed (s : Server) : ServerSteps.Action → Prop
  | .handler index (.system result) =>
      match callOf s index with
      | some call => call.Undisturbed result
      | none => True
  | .stamp (.prints offer) => 0 < offer
  | _ => True

instance (s : Server) (action : ServerSteps.Action) : Decidable (Undisturbed s action) := by
  unfold Undisturbed
  split
  · split <;> infer_instance
  · infer_instance
  · infer_instance

section Runs
variable {daemonMode : Bool} {file : OpenFile} {actions : List ServerSteps.Action} {s : Server}

def logTrace (daemonMode : Bool) (file : OpenFile) (actions : List ServerSteps.Action) :
    List LogEvent :=
  machine.collect logEvents (boot daemonMode file) actions

def logSteps (daemonMode : Bool) (file : OpenFile) (actions : List ServerSteps.Action) :
    List (SharedLog.Action Nat) :=
  machine.collect logLabels (boot daemonMode file) actions

def logStart (daemonMode : Bool) (file : OpenFile) (actions : List ServerSteps.Action) :
    SharedLog.System Nat :=
  SharedLog.start file.content file.offset fun conn =>
    packetsOf conn (logTrace daemonMode file actions)

theorem shows_boot (daemonMode : Bool) (file : OpenFile) (actions : List ServerSteps.Action) :
    Shows (fun conn => echoesOf conn (logTrace daemonMode file actions)) (boot daemonMode file)
      (logTrace daemonMode file actions ++ []) (logStart daemonMode file actions) where
  file := rfl
  mutex := rfl
  todo conn := by rw [List.append_nil]; rfl
  call conn := rfl
  echoes conn := by rw [List.append_nil]; rfl
  stamp := rfl
  going _ := rfl

theorem shown_handlers {total : Nat → List (List UInt8)} {x : SharedLog.System Nat}
    (shown : Shows total s [] x) (conn : Nat) :
    x.handlers conn = ⟨[], callOf s conn, total conn⟩ := by
  have todo := shown.todo conn
  have echoes := shown.echoes conn
  rw [echoesOf_nil, List.append_nil] at echoes
  rw [← echoes, ← shown.call conn, ← show (x.handlers conn).todo = [] from todo]

/-- The server refines its log. Whatever its threads, its clients and its signals do, the
    steps that a run makes on the data file are a run of the log, which ends in the state
    that the server shows. -/
theorem server_refines_shared_log
    (run : machine.run (boot daemonMode file) actions = some s) :
    ∃ x, SharedLog.machine.run (logStart daemonMode file actions)
        (logSteps daemonMode file actions) = some x ∧
      x.file = s.file ∧ x.mutex = s.mutex.map ownerThread ∧ x.stamp = logStamp s.stamp ∧
      ∀ conn, x.handlers conn =
        ⟨[], callOf s conn, echoesOf conn (logTrace daemonMode file actions)⟩ := by
  have start := And.intro (lifetimes_boot daemonMode file) (shows_boot daemonMode file actions)
  obtain ⟨x, reached, _, shown⟩ := (logSimulation _).run_follows start run
  exact ⟨x, reached, shown.file, shown.mutex, shown.stamp, shown_handlers shown⟩

theorem carries_undisturbed {total : Nat → List (List UInt8)} {s : Server}
    {action : ServerSteps.Action} {future : List LogEvent} {x : SharedLog.System Nat}
    (held : Shows total s (logEvents s action ++ future) x) (fine : Undisturbed s action) :
    SharedLog.machine.Along SharedLog.Undisturbed x (logLabels s action) := by
  cases action with
  | stamp answer =>
    simp only [logLabels]
    unfold stampLabels
    split
    · exact ⟨trivial, fun _ _ => trivial⟩
    · exact ⟨trivial, fun _ _ => trivial⟩
    · exact ⟨fine, fun _ _ => trivial⟩
    · exact ⟨trivial, fun _ _ => trivial⟩
    · trivial
  | handler index answer =>
    simp only [logLabels]
    split
    · trivial
    · rename_i handler found
      unfold handlerLabels
      split
      · exact ⟨trivial, fun _ _ => trivial⟩
      · exact ⟨trivial, fun _ _ => trivial⟩
      · rename_i state call result here
        split
        · constructor
          · have same := held.call index
            unfold Undisturbed at fine
            unfold SharedLog.Undisturbed
            cases known : callOf s index with
            | none => simp [same, known]
            | some call => simpa [same, known] using fine
          · exact fun _ _ => trivial
        · trivial
      · trivial
  | _ => trivial

section Shown
variable {total packets : Nat → List (List UInt8)} {base : List UInt8}
  {steps : List (SharedLog.Action Nat)} {appends : List (SharedLog.Thread Nat × List UInt8)}
  {x : SharedLog.System Nat}

theorem shown_file (shown : Shows total s [] x)
    (held : SharedLog.Serialised base packets steps appends x) :
    s.file.content <+: contents base appends ∧
      (s.mutex = none → s.file.content = contents base appends ∧
        appends.map Prod.fst = SharedLog.acquisitions steps) := by
  rw [← shown.file]
  constructor
  · exact SharedLog.file_prefix held
  · intro free
    have xfree : x.mutex = none := by rw [shown.mutex, free]; rfl
    have content := held.file
    have order := held.order
    rw [SharedLog.System.FileHeld, xfree] at content
    rw [SharedLog.stamp_waiting held (by simp [xfree])] at order
    exact ⟨content, by simpa [SharedLog.StampPhase.unformatted] using order⟩

theorem shown_records (shown : Shows total s [] x)
    (held : SharedLog.Serialised base packets steps appends x) (conn : Nat) :
    recordsOf (.handler conn) appends = (packets conn).map packetRecord := by
  have records := (held.handlers conn).records
  rw [shown_handlers shown] at records
  simpa using records

theorem shown_echoes (shown : Shows total s [] x)
    (held : SharedLog.Serialised base packets steps appends x) {conn : Nat}
    (idle : callOf s conn = none) : total conn = snapshotsOf (.handler conn) base appends := by
  have echoes := (held.handlers conn).echoes
  rw [shown_handlers shown] at echoes
  rw [← echoes, SharedLog.snapshots_idle idle]

end Shown

/-- The log that a run of the server is, while nothing is disturbed. -/
theorem shown_run (undisturbed : machine.Along Undisturbed (boot daemonMode file) actions)
    (run : machine.run (boot daemonMode file) actions = some s) :
    ∃ x, SharedLog.machine.run (logStart daemonMode file actions)
        (logSteps daemonMode file actions) = some x ∧
      SharedLog.machine.Along SharedLog.Undisturbed (logStart daemonMode file actions)
        (logSteps daemonMode file actions) ∧
      Shows (fun conn => echoesOf conn (logTrace daemonMode file actions)) s [] x := by
  have start := And.intro (lifetimes_boot daemonMode file) (shows_boot daemonMode file actions)
  obtain ⟨x, reached, _, shown⟩ := (logSimulation _).run_follows start run
  refine ⟨x, reached, ?_, shown⟩
  apply (logSimulation _).along_follows _ start run undisturbed
  intro s action t future x taken held fine
  exact carries_undisturbed held.2 fine

theorem shown_serialised
    (undisturbed : machine.Along Undisturbed (boot daemonMode file) actions)
    (run : machine.run (boot daemonMode file) actions = some s) :
    ∃ x appends, Shows (fun conn => echoesOf conn (logTrace daemonMode file actions)) s [] x ∧
      SharedLog.Serialised file.content (fun conn => packetsOf conn (logTrace daemonMode file actions))
        (logSteps daemonMode file actions) appends x := by
  obtain ⟨x, reached, quiet, shown⟩ := shown_run undisturbed run
  obtain ⟨appends, held⟩ := SharedLog.run_serialised quiet reached
  exact ⟨x, appends, shown, held⟩

/-- The data file of the whole server is a serialised log. Whenever the mutex is free it
    holds whole records only, in the order in which the mutex was taken: of each handler
    those of its packets, and timestamps. What a client is echoed is the log up to and
    including its own record. -/
theorem server_file_is_a_serialised_log
    (undisturbed : machine.Along Undisturbed (boot daemonMode file) actions)
    (run : machine.run (boot daemonMode file) actions = some s) :
    ∃ appends : List (SharedLog.Thread Nat × List UInt8),
      s.file.content <+: contents file.content appends ∧
      (s.mutex = none → s.file.content = contents file.content appends ∧
        appends.map Prod.fst = SharedLog.acquisitions (logSteps daemonMode file actions)) ∧
      (∀ conn, recordsOf (.handler conn) appends =
        (packetsOf conn (logTrace daemonMode file actions)).map packetRecord) ∧
      (∀ record ∈ recordsOf .timestamp appends, ∃ text, record = timestampRecord text) ∧
      ∀ conn, (callOf s conn = none → echoesOf conn (logTrace daemonMode file actions) =
          snapshotsOf (.handler conn) file.content appends) ∧
        ∀ call, callOf s conn = some call → ∃ full, call.sent <+: full ∧
          echoesOf conn (logTrace daemonMode file actions) ++ [full] =
            snapshotsOf (.handler conn) file.content appends := by
  obtain ⟨x, appends, shown, held⟩ := shown_serialised undisturbed run
  have handlers := shown_handlers shown
  have owned (conn : Nat) := held.handlers conn
  simp only [handlers] at owned
  obtain ⟨front, whole⟩ := shown_file shown held
  refine ⟨appends, front, whole, shown_records shown held, held.stamps, ?_⟩
  intro conn
  constructor
  · exact shown_echoes shown held
  · intro call busy
    have owns := (owned conn).owner (by simp [busy])
    have content := held.file
    simp only [SharedLog.System.FileHeld, owns, handlers, busy, Option.some.injEq,
      exists_eq_left'] at content
    refine ⟨contents file.content appends, writing_sent content, ?_⟩
    rw [← (owned conn).echoes]
    simp [SharedLog.Handler.snapshots, busy]

end Runs

def clientAndTimestamp : List ServerSteps.Action :=
  startup ++ oneClient ++ [.signal .sigalrm, .stamp .ok, .stamp .ok, .stamp .ok, .stamp .ok,
    .stamp (.text [48]), .stamp (.prints 4), .stamp (.prints 9), .stamp .ok]

theorem timestamp_is_shown_by_the_log :
    ∃ x, SharedLog.machine.run (logStart false ⟨[120, 10], 0⟩ clientAndTimestamp)
        [.stampLock, .stampFormat [48], .stampPrint 4, .stampPrint 9, .stampUnlock] = some x ∧
      x.file.content = [120, 10] ++ timestampRecord [48] := by
  obtain ⟨x, reached, content, _⟩ :=
    @server_refines_shared_log false ⟨[120, 10], 0⟩ clientAndTimestamp _ rfl
  exact ⟨x, reached, by rw [content]; rfl⟩

theorem timestamp_is_appended :
    ∃ appends : List (SharedLog.Thread Nat × List UInt8),
      appends.map Prod.fst = [.timestamp] ∧
        [120, 10] ++ timestampRecord [48] = contents [120, 10] appends := by
  obtain ⟨appends, _, whole, _⟩ :=
    @server_file_is_a_serialised_log false ⟨[120, 10], 0⟩ clientAndTimestamp _ (by decide) rfl
  obtain ⟨content, order⟩ := whole rfl
  exact ⟨appends, order, content⟩

end LogRefinement
