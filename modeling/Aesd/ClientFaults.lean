import Aesd.HandlerSoundness
import Aesd.ServerLifetimes

/-! What can end the process before a stop signal. main only leaves its reaper loop when the
    run flag is cleared, so it is the other threads that can bring the server down. -/
namespace ClientFaults
open TransitionRuns PacketAppend PacketSteps ServerState ServerSteps ServerMoves ServerLifetimes
  HandlerSoundness

def StopSignalled (past : List Action) : Prop :=
  ∃ signal, signal.stops = true ∧ Action.signal signal ∈ past

def FlagDown (s : Server) : Prop := s.runFlag = .live false ∨ s.runFlag = .freed

/-- With the run flag up: a call of listen_loop that fails for good, accept among them, or a
    step of a handler that ends the process. What no client causes is a failure at startup
    and a signal before its handler is installed. -/
def BringsDown (s : Server) (action : Action) : Prop :=
  s.status = .running ∧ ¬ FlagDown s ∧
    match action with
    | .main answer => StartupFails s.main answer
    | .listen answer => answer = .fails ∧ MayFail s.listen
    | .handler index answer =>
        ∃ handler, s.handlers[index]? = some handler ∧ EndsProcess handler answer
    | .signal signal => signal ∉ s.caught
    | _ => False

def EndsOnlyBySignal (start : Server) (actions : List Action) : Prop :=
  ∀ past s, past <+: actions → machine.run start past = some s → s.status ≠ .running →
    StopSignalled past ∧ FlagDown s

def BeforeStop (phase : MainPhase) : Prop :=
  stage phase = .booting ∨ stage phase = .preparing ∨ stage phase = .stamping ∨ phase = .reap

structure Serving (s : Server) : Prop where
  status : s.status = .running
  main : BeforeStop s.main
  flag : stage s.main ≠ .booting → s.runFlag = .live true

variable {s t : Server}

theorem serving_boot (daemonMode : Bool) (file : OpenFile) : Serving (boot daemonMode file) :=
  ⟨rfl, Or.inl rfl, by simp [boot, stage]⟩

theorem before_stage {phase : MainPhase} (before : BeforeStop phase) :
    stage phase = .booting ∨ stage phase = .preparing ∨ stage phase = .stamping ∨
      stage phase = .serving := by
  rcases before with here | here | here | rfl
  · exact Or.inl here
  · exact Or.inr (Or.inl here)
  · exact Or.inr (Or.inr (Or.inl here))
  · exact Or.inr (Or.inr (Or.inr rfl))

theorem before_not_late {phase : MainPhase} (before : BeforeStop phase) {late : Stage}
    (here : stage phase = late)
    (later : late = .listenJoined ∨ late = .draining ∨ late = .drained ∨ late = .runFreed ∨
      late = .dueFreed) : False := by
  rcases before_stage before with early | early | early | early <;>
    (rw [early] at here; subst here; simp at later)

theorem serving_up (held : Serving s) (life : Lifetimes s) : ¬ FlagDown s := by
  intro down
  by_cases booting : stage s.main = .booting
  · have unset := life.runFlag
    rw [booting] at unset
    rcases down with lowered | freed
    · exact absurd (lowered.symm.trans unset) (by simp)
    · exact absurd (freed.symm.trans unset) (by simp)
  · have up := held.flag booting
    rcases down with lowered | freed
    · exact absurd (up.symm.trans lowered) (by simp)
    · exact absurd (up.symm.trans freed) (by simp)

theorem serving_main {answer : MainAnswer} (held : Serving s) (life : Lifetimes s)
    (safe : ¬ BringsDown s (.main answer)) (moves : MainMoves s answer t) : Serving t := by
  have fault : ¬ StartupFails s.main answer :=
    fun fails => safe ⟨held.status, serving_up held life, fails⟩
  obtain ⟨status, main, flag⟩ := held
  have up : ∀ late, stage s.main = late → late ≠ .booting → s.runFlag = .live true := by
    rintro late rfl
    exact flag
  cases moves with
  | initRunFlag here => exact ⟨status, Or.inr (Or.inl rfl), fun _ => rfl⟩
  | catches here there =>
    exact ⟨status, Or.inr (Or.inl there), fun _ => up _ here (by decide)⟩
  | opensDisk here fresh =>
    exact ⟨status, Or.inr (Or.inl rfl), fun _ => up .preparing (by rw [here]; rfl) (by decide)⟩
  | opensSocket here fresh there =>
    exact ⟨status, Or.inr (Or.inl there), fun _ => up .preparing (by rw [here]; rfl) (by decide)⟩
  | passes here there =>
    rcases there with rfl | rfl | rfl
    · exact ⟨status, Or.inr (Or.inl rfl), fun _ => up _ here (by decide)⟩
    · exact ⟨status, Or.inr (Or.inl rfl), fun _ => up _ here (by decide)⟩
    · exact (before_not_late main here (by decide)).elim
  | startsStamp here =>
    exact ⟨status, Or.inr (Or.inr (Or.inl rfl)),
      fun _ => up .preparing (by rw [here]; rfl) (by decide)⟩
  | startsListen here =>
    exact ⟨status, Or.inr (Or.inr (Or.inr rfl)),
      fun _ => up .stamping (by rw [here]; rfl) (by decide)⟩
  | @reaps running here read =>
    have live := up .serving (by rw [here]; rfl) (by decide)
    obtain rfl : running = true := by simpa [live] using read.symm
    exact ⟨status, Or.inr (Or.inr (Or.inr rfl)), fun _ => live⟩
  | joinsListen here ended =>
    rw [here] at main
    simp [BeforeStop, stage] at main
  | joinsStamp here ended => exact (before_not_late main (by rw [here]) (by decide)).elim
  | clearsRun here live => exact (before_not_late main (by rw [here]) (by decide)).elim
  | drains here there same => exact (before_not_late main here (by decide)).elim
  | closesSocket here => exact (before_not_late main (by rw [here]) (by decide)).elim
  | closesDisk here => exact (before_not_late main (by rw [here]) (by decide)).elim
  | freesRun here => exact (before_not_late main (by rw [here]) (by decide)).elim
  | freesListening here => exact (before_not_late main (by rw [here]) (by decide)).elim
  | freesDue here => exact (before_not_late main (by rw [here]) (by decide)).elim
  | removes here => exact (before_not_late main (by rw [here]) (by decide)).elim
  | exits cause => exact absurd cause fault
  | returns here => exact (before_not_late main (by rw [here]) (by decide)).elim
  | goesWrong cause =>
    rcases cause with ⟨here, rfl⟩ | here | ⟨here, stale⟩
    · exact absurd (by simp [StartupFails, here]) fault
    · exact (before_not_late main here (by decide)).elim
    · exact absurd (up .serving (by rw [here]; rfl) (by decide)) (stale true)

theorem serving_listen {answer : ListenAnswer} (held : Serving s) (life : Lifetimes s)
    (safe : ¬ BringsDown s (.listen answer)) (moves : ListenMoves s answer t) : Serving t := by
  cases moves with
  | exits here =>
    exact absurd ⟨held.status, serving_up held life, rfl, here⟩ safe
  | goesWrong here cause =>
    rcases cause with ⟨⟨handle, adding⟩, rfl⟩ | stale
    · exact absurd ⟨held.status, serving_up held life, rfl, by simp [MayFail, adding]⟩ safe
    · obtain ⟨value, live⟩ := listening_live life here
      exact absurd live (stale value)
  | _ => exact ⟨held.status, held.main, held.flag⟩

theorem serving_stamp {answer : StampAnswer} (held : Serving s) (life : Lifetimes s)
    (moves : StampMoves s answer t) : Serving t := by
  cases moves with
  | ends here cause =>
    obtain ⟨⟨run, runLive⟩, due, dueLive⟩ := stamping_live life here
    rcases cause with stale | stale
    · exact absurd runLive (stale run)
    · exact absurd dueLive (stale due)
  | _ => exact ⟨held.status, held.main, held.flag⟩

theorem handler_keeps_flag {index : Nat} (moves : HandlerMoves s index t) :
    t.runFlag = s.runFlag := by
  cases moves <;> rfl

theorem serving_handler {index : Nat} {answer : HandlerAnswer} (held : Serving s)
    (life : Lifetimes s) (sound : HandlersSound s) (safe : ¬ BringsDown s (.handler index answer))
    (taken : handlerStep s index answer = some t) : Serving t := by
  have moves := handlerStep_moves taken
  have main := (aside_handler moves).main
  obtain ⟨_, _, running | ⟨handler, found, ends⟩⟩ := sound_handler sound held.status taken
  · exact ⟨running, by rw [main]; exact held.main,
      by rw [main, handler_keeps_flag moves]; exact held.flag⟩
  · exact absurd ⟨held.status, serving_up held life, handler, found, ends⟩ safe

theorem serving_alarm {signal : Signal} (held : Serving s) (life : Lifetimes s)
    (safe : ¬ BringsDown s (.signal signal)) (alarm : signal.stops = false)
    (moves : SignalMoves s signal t) : Serving t := by
  cases moves with
  | lowers caught stops => simp [alarm] at stops
  | raises caught alarm => exact ⟨held.status, held.main, held.flag⟩
  | kills uncaught => exact absurd ⟨held.status, serving_up held life, uncaught⟩ safe

theorem serving_stop {signal : Signal} (held : Serving s) (life : Lifetimes s)
    (safe : ¬ BringsDown s (.signal signal)) (stops : signal.stops = true)
    (moves : SignalMoves s signal t) : FlagDown t := by
  cases moves with
  | lowers caught stops =>
    have booted : stage s.main ≠ .booting := by
      intro booting
      rw [life.caught booting] at caught
      simp at caught
    exact Or.inl (by rw [held.flag booted]; rfl)
  | raises caught alarm => simp [stops] at alarm
  | kills uncaught => exact absurd ⟨held.status, serving_up held life, uncaught⟩ safe

theorem flagDown_step {action : Action} (life : Lifetimes s) (down : FlagDown s)
    (taken : machine.step s action = some t) : FlagDown t := by
  cases step_moves taken with
  | main _ moves =>
    cases moves with
    | initRunFlag here =>
      have unset := life.runFlag
      rw [here] at unset
      rcases down with lowered | freed
      · exact absurd (lowered.symm.trans unset) (by simp)
      · exact absurd (freed.symm.trans unset) (by simp)
    | clearsRun here live => exact Or.inl rfl
    | freesRun here => exact Or.inr rfl
    | _ => exact down
  | listen moves => cases moves <;> exact down
  | stamp moves => cases moves <;> exact down
  | handler _ moves =>
    rw [FlagDown, handler_keeps_flag moves]
    exact down
  | client found => exact down
  | signal moves =>
    cases moves with
    | lowers caught stops =>
      rcases down with lowered | freed
      · exact Or.inl (by rw [lowered]; rfl)
      · exact Or.inr (by rw [freed]; rfl)
    | _ => exact down

theorem stopSignalled_snoc {past : List Action} {action : Action} :
    StopSignalled (past ++ [action]) ↔
      StopSignalled past ∨ ∃ signal, signal.stops = true ∧ action = .signal signal := by
  simp only [StopSignalled, List.mem_append, List.mem_singleton]
  constructor
  · rintro ⟨signal, stops, earlier | last⟩
    · exact Or.inl ⟨signal, stops, earlier⟩
    · exact Or.inr ⟨signal, stops, last.symm⟩
  · rintro (⟨signal, stops, earlier⟩ | ⟨signal, stops, rfl⟩)
    · exact ⟨signal, stops, Or.inl earlier⟩
    · exact ⟨signal, stops, Or.inr rfl⟩

theorem serving_step {action : Action} (held : Serving s) (life : Lifetimes s)
    (sound : HandlersSound s) (safe : ¬ BringsDown s action)
    (unstopped : ∀ signal, signal.stops = true → action ≠ .signal signal)
    (taken : machine.step s action = some t) : Serving t := by
  simp only [machine, step, held.status, ↓reduceIte] at taken
  cases action with
  | main answer => exact serving_main held life safe (mainStep_moves taken)
  | listen answer => exact serving_listen held life safe (listenStep_moves taken)
  | stamp answer => exact serving_stamp held life (stampStep_moves taken)
  | handler index answer => exact serving_handler held life sound safe taken
  | client index event =>
    obtain ⟨handler, found, rfl⟩ := clientStep_moves taken
    exact ⟨held.status, held.main, held.flag⟩
  | signal signal =>
    cases taken
    have alarm : signal.stops = false := by
      by_contra stops
      exact unstopped signal (by simpa using stops) rfl
    exact serving_alarm held life safe alarm (signalStep_moves s signal)

structure Watched (past : List Action) (s : Server) : Prop where
  life : Lifetimes s
  sound : HandlersSound s
  state : Serving s ∨ StopSignalled past ∧ FlagDown s

theorem watched_boot (daemonMode : Bool) (file : OpenFile) : Watched [] (boot daemonMode file) :=
  ⟨lifetimes_boot daemonMode file, by simp [HandlersSound, boot],
    Or.inl (serving_boot daemonMode file)⟩

theorem watched_step (past : List Action) (s : Server) (action : Action) (t : Server)
    (held : Watched past s) (safe : ¬ BringsDown s action)
    (taken : machine.step s action = some t) : Watched (past ++ [action]) t := by
  obtain ⟨life, sound, state⟩ := held
  refine ⟨lifetimes_step s action t life taken, sound_step s action t sound taken, ?_⟩
  rcases state with serving | ⟨stopped, down⟩
  · by_cases stops : ∃ signal, signal.stops = true ∧ action = .signal signal
    · right
      refine ⟨stopSignalled_snoc.mpr (Or.inr stops), ?_⟩
      obtain ⟨signal, stops, rfl⟩ := stops
      simp only [machine, step, serving.status, ↓reduceIte, Option.some.injEq] at taken
      rw [← taken]
      exact serving_stop serving life safe stops (signalStep_moves s signal)
    · left
      exact serving_step serving life sound safe
        (fun signal stopping same => stops ⟨signal, stopping, same⟩) taken
  · exact Or.inr ⟨stopSignalled_snoc.mpr (Or.inl stopped), flagDown_step life down taken⟩

theorem startup_ends {answer : MainAnswer} (cause : StartupFails s.main answer) :
    ∃ status, mainStep s answer = some (s.ends status) ∧ status ≠ .running := by
  unfold StartupFails at cause
  unfold mainStep
  split at cause
  · rename_i here
    exact ⟨.exited 1, by rw [here], by simp⟩
  · rename_i here
    exact ⟨.exited 1, by rw [here], by simp⟩
  · rename_i code here
    exact ⟨.exited code, by rw [here], by simp⟩
  · rename_i here
    exact ⟨.undefined, by rw [here], by simp⟩
  · rename_i here
    exact ⟨.exited 1, by rw [here], by simp⟩
  · exact cause.elim

theorem listening_ends (cause : MayFail s.listen) :
    ∃ status, listenStep s .fails = some (s.ends status) ∧ status ≠ .running := by
  unfold MayFail at cause
  unfold listenStep
  split at cause
  · rename_i here
    exact ⟨.exited 3, by rw [here], by simp⟩
  · rename_i here
    exact ⟨.exited 4, by rw [here], by simp⟩
  · rename_i here
    exact ⟨.exited 10, by rw [here], by simp⟩
  · rename_i here
    exact ⟨.exited 6, by rw [here], by simp⟩
  · rename_i here
    exact ⟨.undefined, by rw [here], by simp⟩
  · exact cause.elim

theorem bringsDown_ends {action : Action} (sound : HandlersSound s) (down : BringsDown s action) :
    ∃ t, machine.step s action = some t ∧ t.status ≠ .running ∧ ¬ FlagDown t := by
  obtain ⟨running, up, cause⟩ := down
  simp only [machine, step, running, ↓reduceIte]
  cases action with
  | main answer =>
    obtain ⟨status, taken, ended⟩ := startup_ends cause
    exact ⟨s.ends status, taken, ended, up⟩
  | listen answer =>
    obtain ⟨rfl, here⟩ := cause
    obtain ⟨status, taken, ended⟩ := listening_ends here
    exact ⟨s.ends status, taken, ended, up⟩
  | handler index answer =>
    obtain ⟨handler, found, ends⟩ := cause
    obtain ⟨t, taken, ended⟩ :=
      endsProcess_ends found (sound handler (List.mem_of_getElem? found)) ends
    refine ⟨t, taken, ended, ?_⟩
    rwa [FlagDown, handler_keeps_flag (handlerStep_moves taken)]
  | signal signal =>
    have uncaught : signal ∉ s.caught := cause
    refine ⟨s.ends (.killed (.uncaught signal)), ?_, by simp [Server.ends], up⟩
    simp only [signalStep, uncaught, ↓reduceIte]
  | stamp answer => exact cause.elim
  | client index event => exact cause.elim

theorem sound_run {daemonMode : Bool} {file : OpenFile} {past : List Action}
    (run : machine.run (boot daemonMode file) past = some s) : HandlersSound s :=
  invariant_run sound_step (by simp [HandlersSound, boot]) run

/-- In every run the process ends only after a stop signal cleared the run flag, exactly if
    no step of the run brings the server down before. -/
theorem ends_only_by_signal_iff (daemonMode : Bool) (file : OpenFile) (actions : List Action) :
    EndsOnlyBySignal (boot daemonMode file) actions ↔
      machine.Along (fun s action => ¬ BringsDown s action) (boot daemonMode file) actions := by
  constructor
  · intro only
    rw [along_iff_split]
    intro past action rest s split run down
    obtain ⟨t, taken, ended, up⟩ := bringsDown_ends (sound_run run) down
    have front : past ++ [action] <+: actions := ⟨rest, by rw [split]; simp⟩
    exact up (only _ t front (run_snoc_iff.mpr ⟨s, run, taken⟩) ended).2
  · intro safe past s front run ended
    have watched : Watched past s :=
      history_along watched_step (watched_boot daemonMode file) (along_front safe front) run
    rcases watched.state with serving | stopped
    · exact absurd serving.status ended
    · exact stopped

def abortedConnection : List Action :=
  [.listen .ok, .listen .ok, .listen .ok, .listen .ok, .listen .fails]

theorem aborted_connection_ends_the_server :
    (machine.run (boot false ⟨[], 0⟩) (startup ++ abortedConnection)).map Server.status =
        some (.exited 4) ∧
      ¬ EndsOnlyBySignal (boot false ⟨[], 0⟩) (startup ++ abortedConnection) := by
  obtain ⟨s, run, ended⟩ : ∃ s, machine.run (boot false ⟨[], 0⟩) (startup ++ abortedConnection) =
      some s ∧ s.status = .exited 4 := ⟨_, rfl, rfl⟩
  refine ⟨by rw [run, Option.map_some, ended], ?_⟩
  intro only
  obtain ⟨⟨signal, _, member⟩, _⟩ := only _ s List.prefix_rfl run (by simp [ended])
  simp [startup, abortedConnection] at member

end ClientFaults
