import Aesd.ServerMoves

/-! What exists when: the flags, the threads and who holds the file mutex, in every state
    that the server can reach. -/
namespace ServerLifetimes
open TransitionRuns PacketAppend ServerState ServerSteps ServerMoves

def Live (cell : FlagCell) : Prop := ∃ value, cell = .live value

def runFlagAt : Stage → FlagCell → Prop
  | .booting, cell => cell = .unset
  | .runFreed, cell => cell = .freed
  | .dueFreed, cell => cell = .freed
  | _, cell => Live cell

def dueFlagAt : Stage → FlagCell → Prop
  | .booting, cell => cell = .unset
  | .dueFreed, cell => cell = .freed
  | _, cell => Live cell

def stampAt : Stage → StampPhase → Prop
  | .booting, phase => phase = .notStarted
  | .preparing, phase => phase = .notStarted
  | .stamping, phase => phase ≠ .notStarted
  | .serving, phase => phase ≠ .notStarted
  | .listenJoined, phase => phase ≠ .notStarted
  | _, phase => phase = .finished

def listenAt : Stage → ListenPhase → Prop
  | .booting, phase => phase = .notStarted
  | .preparing, phase => phase = .notStarted
  | .stamping, phase => phase = .notStarted
  | .serving, phase => phase ≠ .notStarted
  | _, phase => phase = .finished

/-- The invariant that ties the flags and the two service threads to the progress of main. -/
structure Lifetimes (s : Server) : Prop where
  runFlag : runFlagAt (stage s.main) s.runFlag
  dueFlag : dueFlagAt (stage s.main) s.timestampDueFlag
  stamp : stampAt (stage s.main) s.stamp
  listen : listenAt (stage s.main) s.listen
  caught : stage s.main = .booting → s.caught = []
  handlers : s.listen = .notStarted → s.handlers = []

variable {s t : Server}

theorem lifetimes_boot (daemonMode : Bool) (file : OpenFile) : Lifetimes (boot daemonMode file) :=
  ⟨rfl, rfl, rfl, rfl, fun _ => rfl, fun _ => rfl⟩

theorem lifetimes_main {answer : MainAnswer} (held : Lifetimes s) (moves : MainMoves s answer t) :
    Lifetimes t := by
  obtain ⟨runFlag, dueFlag, stamp, listen, caught, handlers⟩ := held
  cases moves with
  | initRunFlag here =>
    rw [here] at stamp listen
    exact ⟨⟨true, rfl⟩, ⟨false, rfl⟩, stamp, listen, by simp [stage], handlers⟩
  | catches here there =>
    rw [here, ← there] at runFlag dueFlag stamp listen
    exact ⟨runFlag, dueFlag, stamp, listen, by simp [there], handlers⟩
  | opensDisk here fresh =>
    rw [here] at runFlag dueFlag stamp listen
    exact ⟨runFlag, dueFlag, stamp, listen, by simp [stage], handlers⟩
  | opensSocket here fresh there =>
    rw [here] at runFlag dueFlag stamp listen
    refine ⟨?_, ?_, ?_, ?_, by simp [there], handlers⟩ <;> (dsimp only; rw [there]; assumption)
  | passes here there =>
    rw [here] at runFlag dueFlag stamp listen caught
    exact ⟨runFlag, dueFlag, stamp, listen, caught, handlers⟩
  | startsStamp here =>
    rw [here] at runFlag dueFlag listen
    exact ⟨runFlag, dueFlag, by simp [stampAt, stage], listen, by simp [stage], handlers⟩
  | startsListen here =>
    rw [here] at runFlag dueFlag stamp
    exact ⟨runFlag, dueFlag, stamp, by simp [listenAt, stage], by simp [stage], by simp⟩
  | @reaps running here flag =>
    rw [here] at runFlag dueFlag stamp listen caught
    cases running with
    | true => exact ⟨runFlag, dueFlag, stamp, listen, caught, handlers⟩
    | false => exact ⟨runFlag, dueFlag, stamp, listen, caught, handlers⟩
  | joinsListen here ended =>
    rw [here] at runFlag dueFlag stamp
    exact ⟨runFlag, dueFlag, stamp, ended, by simp [stage], handlers⟩
  | joinsStamp here ended =>
    rw [here] at runFlag dueFlag listen
    exact ⟨runFlag, dueFlag, ended, listen, by simp [stage], handlers⟩
  | clearsRun here flag =>
    rw [here] at dueFlag stamp listen
    exact ⟨⟨false, rfl⟩, dueFlag, stamp, listen, by simp [stage], handlers⟩
  | drains here there same =>
    rw [here] at runFlag dueFlag stamp listen
    have ended : s.listen = .finished := listen
    rcases there with there | there
    · refine ⟨?_, ?_, ?_, ?_, by simp [there], by simp [ended]⟩ <;>
        (dsimp only; rw [there]; assumption)
    · subst there
      exact ⟨runFlag, dueFlag, stamp, listen, by simp [stage], by simp [ended]⟩
  | closesSocket here =>
    rw [here] at runFlag dueFlag stamp listen
    exact ⟨runFlag, dueFlag, stamp, listen, by simp [stage], handlers⟩
  | closesDisk here =>
    rw [here] at runFlag dueFlag stamp listen
    exact ⟨runFlag, dueFlag, stamp, listen, by simp [stage], handlers⟩
  | freesRun here =>
    rw [here] at dueFlag stamp listen
    exact ⟨rfl, dueFlag, stamp, listen, by simp [stage], handlers⟩
  | freesListening here =>
    rw [here] at runFlag dueFlag stamp listen
    exact ⟨runFlag, dueFlag, stamp, listen, by simp [stage], handlers⟩
  | freesDue here =>
    rw [here] at runFlag stamp listen
    exact ⟨runFlag, rfl, stamp, listen, by simp [stage], handlers⟩
  | removes here =>
    rw [here] at runFlag dueFlag stamp listen
    exact ⟨runFlag, dueFlag, stamp, listen, by simp [stage], handlers⟩
  | exits cause => exact ⟨runFlag, dueFlag, stamp, listen, caught, handlers⟩
  | returns here => exact ⟨runFlag, dueFlag, stamp, listen, caught, handlers⟩
  | goesWrong cause => exact ⟨runFlag, dueFlag, stamp, listen, caught, handlers⟩

theorem listenAt_running {current : Stage} {phase next : ListenPhase} (here : Running phase)
    (there : next ≠ .notStarted) (held : listenAt current phase) : listenAt current next := by
  cases current with
  | serving => exact there
  | booting => exact absurd held here.1
  | preparing => exact absurd held here.1
  | stamping => exact absurd held here.1
  | listenJoined => exact absurd held here.2
  | draining => exact absurd held here.2
  | drained => exact absurd held here.2
  | runFreed => exact absurd held here.2
  | dueFreed => exact absurd held here.2

theorem stampAt_running {current : Stage} {phase next : StampPhase}
    (here : phase ≠ .notStarted ∧ phase ≠ .finished) (there : next ≠ .notStarted)
    (held : stampAt current phase) : stampAt current next := by
  cases current with
  | stamping => exact there
  | serving => exact there
  | listenJoined => exact there
  | booting => exact absurd held here.1
  | preparing => exact absurd held here.1
  | draining => exact absurd held here.2
  | drained => exact absurd held here.2
  | runFreed => exact absurd held here.2
  | dueFreed => exact absurd held here.2

theorem dueFlagAt_store {current : Stage} {cell : FlagCell} (held : dueFlagAt current cell)
    (value : Bool) : dueFlagAt current (cell.store value) := by
  cases cell with
  | live old => cases current <;> simp_all [dueFlagAt, FlagCell.store, Live]
  | unset => exact held
  | freed => exact held

theorem runFlagAt_store {current : Stage} {cell : FlagCell} (held : runFlagAt current cell)
    (value : Bool) : runFlagAt current (cell.store value) := by
  cases cell with
  | live old => cases current <;> simp_all [runFlagAt, FlagCell.store, Live]
  | unset => exact held
  | freed => exact held

theorem lifetimes_listen {answer : ListenAnswer} (held : Lifetimes s)
    (moves : ListenMoves s answer t) : Lifetimes t := by
  obtain ⟨runFlag, dueFlag, stamp, listen, caught, handlers⟩ := held
  cases moves with
  | goes here there _ _ =>
    exact ⟨runFlag, dueFlag, stamp, listenAt_running here there.1 listen, caught,
      fun absent => absurd absent there.1⟩
  | accepts here fresh =>
    exact ⟨runFlag, dueFlag, stamp,
      listenAt_running (by simp [Running, here]) (by simp) listen, caught, by simp⟩
  | creates here =>
    exact ⟨runFlag, dueFlag, stamp,
      listenAt_running (by simp [Running, here]) (by simp) listen, caught, by simp⟩
  | lists here =>
    exact ⟨runFlag, dueFlag, stamp,
      listenAt_running (by simp [Running, here]) (by simp) listen, caught, by simp⟩
  | closes here =>
    exact ⟨runFlag, dueFlag, stamp,
      listenAt_running (by simp [Running, here]) (by simp) listen, caught, by simp⟩
  | exits here => exact ⟨runFlag, dueFlag, stamp, listen, caught, handlers⟩
  | goesWrong here cause => exact ⟨runFlag, dueFlag, stamp, listen, caught, handlers⟩

theorem lifetimes_stamp {answer : StampAnswer} (held : Lifetimes s)
    (moves : StampMoves s answer t) : Lifetimes t := by
  obtain ⟨runFlag, dueFlag, stamp, listen, caught, handlers⟩ := held
  cases moves with
  | goes here there _ _ =>
    exact ⟨runFlag, dueFlag, stampAt_running here there stamp, listen, caught, handlers⟩
  | locks here free =>
    exact ⟨runFlag, dueFlag, stampAt_running (by simp [here]) (by simp) stamp, listen, caught,
      handlers⟩
  | formats here =>
    exact ⟨runFlag, dueFlag, stampAt_running (by simp [here]) (by simp) stamp, listen, caught,
      handlers⟩
  | @prints rest offer file next here there =>
    have started : next ≠ .notStarted := by
      rintro rfl
      exact there
    exact ⟨runFlag, dueFlag, stampAt_running (by simp [here]) started stamp, listen, caught,
      handlers⟩
  | unlocks here =>
    exact ⟨runFlag, dueFlag, stampAt_running (by simp [here]) (by simp) stamp, listen, caught,
      handlers⟩
  | clears here flag =>
    have stored := dueFlagAt_store dueFlag false
    rw [flag] at stored
    exact ⟨runFlag, stored, stampAt_running (by simp [here]) (by simp) stamp, listen, caught,
      handlers⟩
  | ends here cause => exact ⟨runFlag, dueFlag, stamp, listen, caught, handlers⟩

theorem lifetimes_aside (held : Lifetimes s) (aside : Aside s t) : Lifetimes t where
  runFlag := by
    rw [aside.main]
    rcases aside.runFlag with same | stored
    · rw [same]
      exact held.runFlag
    · rw [stored]
      exact runFlagAt_store held.runFlag false
  dueFlag := by
    rw [aside.main]
    rcases aside.dueFlag with same | ⟨value, stored⟩
    · rw [same]
      exact held.dueFlag
    · rw [stored]
      exact dueFlagAt_store held.dueFlag value
  stamp := by rw [aside.main, aside.stamp]; exact held.stamp
  listen := by rw [aside.main, aside.listen]; exact held.listen
  caught := by rw [aside.main, aside.caught]; exact held.caught
  handlers := by
    intro absent
    rw [aside.listen] at absent
    have joined := aside.joined
    rw [held.handlers absent] at joined
    exact List.map_eq_nil_iff.mp joined

theorem lifetimes_step (s : Server) (action : Action) (t : Server) (held : Lifetimes s)
    (taken : machine.step s action = some t) : Lifetimes t := by
  cases step_moves taken with
  | main _ moves => exact lifetimes_main held moves
  | listen moves => exact lifetimes_listen held moves
  | stamp moves => exact lifetimes_stamp held moves
  | handler _ moves => exact lifetimes_aside held (aside_handler moves)
  | client found => exact lifetimes_aside held (aside_client found _)
  | signal moves => exact lifetimes_aside held (aside_signal moves)

/-- listen_loop runs only while main is between its two joins. -/
theorem listening_stage (held : Lifetimes s) (here : Running s.listen) :
    stage s.main = .serving := by
  have listen := held.listen
  cases current : stage s.main with
  | serving => rfl
  | booting => rw [current] at listen; exact absurd listen here.1
  | preparing => rw [current] at listen; exact absurd listen here.1
  | stamping => rw [current] at listen; exact absurd listen here.1
  | listenJoined => rw [current] at listen; exact absurd listen here.2
  | draining => rw [current] at listen; exact absurd listen here.2
  | drained => rw [current] at listen; exact absurd listen here.2
  | runFreed => rw [current] at listen; exact absurd listen here.2
  | dueFreed => rw [current] at listen; exact absurd listen here.2

theorem listening_live (held : Lifetimes s) (here : Running s.listen) : Live s.runFlag := by
  have runFlag := held.runFlag
  rwa [listening_stage held here] at runFlag

theorem stamping_live (held : Lifetimes s) (here : s.stamp ≠ .notStarted ∧ s.stamp ≠ .finished) :
    Live s.runFlag ∧ Live s.timestampDueFlag := by
  have runFlag := held.runFlag
  have dueFlag := held.dueFlag
  have stamp := held.stamp
  cases current : stage s.main <;> rw [current] at runFlag dueFlag stamp
  case stamping => exact ⟨runFlag, dueFlag⟩
  case serving => exact ⟨runFlag, dueFlag⟩
  case listenJoined => exact ⟨runFlag, dueFlag⟩
  case booting => exact absurd stamp here.1
  case preparing => exact absurd stamp here.1
  all_goals exact absurd stamp here.2

end ServerLifetimes
