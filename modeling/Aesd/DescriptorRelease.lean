import Aesd.ServerLifetimes

/-! The books of the server's file descriptors. listen_loop closes the listening socket on
    both of its exits, and main closes the same number once more after the joins. -/
namespace DescriptorRelease
open TransitionRuns PacketAppend ServerState ServerSteps ServerMoves ServerLifetimes

/-- A descriptor may be closed only while it is in use, and its number given out only
    while it is not. -/
def account (held : List Int) : FdEvent → Option (List Int)
  | .obtained fd => if fd ∈ held then none else some (fd :: held)
  | .closed fd => if fd ∈ held then some (held.filter (· ≠ fd)) else none

def accounts (events : List FdEvent) : Option (List Int) := events.foldlM account []

def ReleasedExactlyOnce (events : List FdEvent) : Prop := accounts events = some []

instance (events : List FdEvent) : Decidable (ReleasedExactlyOnce events) :=
  inferInstanceAs (Decidable (accounts events = some []))

theorem accounts_snoc (events : List FdEvent) (last : FdEvent) :
    accounts (events ++ [last]) = (accounts events).bind fun held => account held last := by
  simp [accounts, List.foldlM_append]

theorem inUse_snoc (events : List FdEvent) (last : FdEvent) :
    inUse (events ++ [last]) = afterEvent (inUse events) last := by
  simp [inUse, List.foldl_append]

theorem account_after {held next : List Int} {event : FdEvent}
    (accounted : account held event = some next) : next = afterEvent held event := by
  cases event with
  | obtained fd =>
    simp only [account] at accounted
    split at accounted
    · simp at accounted
    · exact (Option.some.inj accounted).symm
  | closed fd =>
    simp only [account] at accounted
    split at accounted
    · exact (Option.some.inj accounted).symm
    · simp at accounted

/-- As long as the books are in order they agree with the kernel. -/
theorem accounts_inUse {events : List FdEvent} {held : List Int}
    (accounted : accounts events = some held) : held = inUse events := by
  induction events using List.reverseRecOn generalizing held with
  | nil => exact (Option.some.inj accounted).symm
  | append_singleton events last ih =>
    rw [accounts_snoc, Option.bind_eq_some_iff] at accounted
    obtain ⟨before, earlier, here⟩ := accounted
    rw [inUse_snoc, ← ih earlier]
    exact account_after here

theorem close_unused {events : List FdEvent} {fd : Int} (unused : fd ∉ inUse events) :
    accounts (events ++ [.closed fd]) = none := by
  rw [accounts_snoc]
  cases accounted : accounts events with
  | none => rfl
  | some held =>
    rw [← accounts_inUse accounted] at unused
    simp [account, unused]

theorem accounts_broken {events : List FdEvent} (broken : accounts events = none)
    (last : FdEvent) : accounts (events ++ [last]) = none := by
  rw [accounts_snoc, broken]
  rfl

theorem unused_closed {events : List FdEvent} {fd : Int} (unused : fd ∉ inUse events)
    (other : Int) : fd ∉ inUse (events ++ [.closed other]) := by
  rw [inUse_snoc]
  exact fun member => unused (List.mem_of_mem_filter member)

def SocketClosed : MainPhase → Prop
  | .closeDisk => True
  | .freeRunFlag => True
  | .freeListeningFlag => True
  | .freeDueFlag => True
  | .removeFile => True
  | .finished => True
  | _ => False

/-- listen_loop leaves the listening socket closed, so the close in main is one too many. -/
structure ClosedTwice (s : Server) : Prop where
  byListenLoop : s.listen = .finished → s.sockfd ∉ inUse s.descriptors
  byMain : SocketClosed s.main → accounts s.descriptors = none

variable {s t : Server}

theorem closed_boot (daemonMode : Bool) (file : OpenFile) : ClosedTwice (boot daemonMode file) :=
  ⟨by simp [boot], fun past => past.elim⟩

theorem socketClosed_stage {phase : MainPhase} (past : SocketClosed phase) :
    stage phase ≠ .preparing ∧ stage phase ≠ .draining := by
  cases phase <;> simp_all [SocketClosed, stage]

theorem preparing_not_listening (life : Lifetimes s) (here : stage s.main = .preparing) :
    s.listen ≠ .finished := by
  have listen := life.listen
  rw [here] at listen
  simp [show s.listen = .notStarted from listen]

theorem drained_listen_finished (life : Lifetimes s) (here : stage s.main = .drained) :
    s.listen = .finished := by
  have listen := life.listen
  rwa [here] at listen

theorem closed_main {answer : MainAnswer} (life : Lifetimes s) (held : ClosedTwice s)
    (moves : MainMoves s answer t) : ClosedTwice t := by
  obtain ⟨byListenLoop, byMain⟩ := held
  cases moves with
  | initRunFlag here => exact ⟨byListenLoop, fun past => past.elim⟩
  | catches here there =>
    exact ⟨byListenLoop, fun past => absurd there (socketClosed_stage past).1⟩
  | opensDisk here fresh =>
    have idle := preparing_not_listening life (by rw [here]; rfl)
    exact ⟨fun ended => absurd ended idle, fun past => past.elim⟩
  | opensSocket here fresh there =>
    have idle := preparing_not_listening life (by rw [here]; rfl)
    exact ⟨fun ended => absurd ended idle, fun past => absurd there (socketClosed_stage past).1⟩
  | passes here there =>
    refine ⟨byListenLoop, ?_⟩
    intro past
    rcases there with rfl | rfl | rfl <;> exact past.elim
  | startsStamp here => exact ⟨byListenLoop, fun past => past.elim⟩
  | startsListen here => exact ⟨by simp, fun past => past.elim⟩
  | @reaps running here flag =>
    refine ⟨byListenLoop, ?_⟩
    intro past
    cases running <;> exact past.elim
  | joinsListen here ended => exact ⟨byListenLoop, fun past => past.elim⟩
  | joinsStamp here ended => exact ⟨byListenLoop, fun past => past.elim⟩
  | clearsRun here flag => exact ⟨byListenLoop, fun past => past.elim⟩
  | drains here there same =>
    refine ⟨byListenLoop, ?_⟩
    intro past
    rcases there with there | rfl
    · exact absurd there (socketClosed_stage past).2
    · exact past.elim
  | closesSocket here =>
    have unused := byListenLoop (drained_listen_finished life (by rw [here]; rfl))
    exact ⟨fun _ => unused_closed unused _, fun _ => close_unused unused⟩
  | closesDisk here =>
    exact ⟨fun ended => unused_closed (byListenLoop ended) _,
      fun _ => accounts_broken (byMain (by rw [here]; trivial)) _⟩
  | freesRun here => exact ⟨byListenLoop, fun _ => byMain (by rw [here]; trivial)⟩
  | freesListening here => exact ⟨byListenLoop, fun _ => byMain (by rw [here]; trivial)⟩
  | freesDue here => exact ⟨byListenLoop, fun _ => byMain (by rw [here]; trivial)⟩
  | removes here => exact ⟨byListenLoop, fun _ => byMain (by rw [here]; trivial)⟩
  | exits cause => exact ⟨byListenLoop, byMain⟩
  | returns here => exact ⟨byListenLoop, byMain⟩
  | goesWrong cause => exact ⟨byListenLoop, byMain⟩

theorem closed_listen {answer : ListenAnswer} (held : ClosedTwice s)
    (moves : ListenMoves s answer t) : ClosedTwice t := by
  obtain ⟨byListenLoop, byMain⟩ := held
  cases moves with
  | goes here there _ _ => exact ⟨fun ended => absurd ended there.2, byMain⟩
  | accepts here fresh => exact ⟨by simp, fun past => accounts_broken (byMain past) _⟩
  | creates here => exact ⟨by simp, byMain⟩
  | lists here => exact ⟨by simp, byMain⟩
  | closes here =>
    refine ⟨?_, fun past => accounts_broken (byMain past) _⟩
    intro _
    rw [inUse_snoc]
    simp [afterEvent]
  | exits here => exact ⟨byListenLoop, byMain⟩
  | goesWrong here cause => exact ⟨byListenLoop, byMain⟩

theorem closed_stamp {answer : StampAnswer} (held : ClosedTwice s)
    (moves : StampMoves s answer t) : ClosedTwice t := by
  obtain ⟨byListenLoop, byMain⟩ := held
  cases moves <;> exact ⟨byListenLoop, byMain⟩

theorem closed_handler {index : Nat} (held : ClosedTwice s) (moves : HandlerMoves s index t) :
    ClosedTwice t := by
  obtain ⟨byListenLoop, byMain⟩ := held
  cases moves with
  | closes found here =>
    exact ⟨fun ended => unused_closed (byListenLoop ended) _,
      fun past => accounts_broken (byMain past) _⟩
  | goes _ _ _ _ _ => exact ⟨byListenLoop, byMain⟩
  | locks _ _ _ => exact ⟨byListenLoop, byMain⟩
  | writes _ _ => exact ⟨byListenLoop, byMain⟩
  | unlocks _ _ => exact ⟨byListenLoop, byMain⟩
  | ends _ _ => exact ⟨byListenLoop, byMain⟩

theorem closed_signal {signal : Signal} (held : ClosedTwice s) (moves : SignalMoves s signal t) :
    ClosedTwice t := by
  obtain ⟨byListenLoop, byMain⟩ := held
  cases moves <;> exact ⟨byListenLoop, byMain⟩

theorem closed_step (s : Server) (action : Action) (t : Server)
    (held : Lifetimes s ∧ ClosedTwice s) (taken : machine.step s action = some t) :
    Lifetimes t ∧ ClosedTwice t := by
  obtain ⟨life, closed⟩ := held
  refine ⟨lifetimes_step s action t life taken, ?_⟩
  cases step_moves taken with
  | main _ moves => exact closed_main life closed moves
  | listen moves => exact closed_listen closed moves
  | stamp moves => exact closed_stamp closed moves
  | handler _ moves => exact closed_handler closed moves
  | client found => exact ⟨closed.byListenLoop, closed.byMain⟩
  | signal moves => exact closed_signal closed moves

/-- No run that reaches the end of main releases every descriptor exactly once. -/
theorem complete_runs_close_the_socket_twice {daemonMode : Bool} {file : OpenFile}
    {actions : List Action} (run : machine.run (boot daemonMode file) actions = some s)
    (complete : s.main = .finished) : ¬ ReleasedExactlyOnce s.descriptors := by
  have held := invariant_run closed_step
    ⟨lifetimes_boot daemonMode file, closed_boot daemonMode file⟩ run
  have broken := held.2.byMain (by rw [complete]; trivial)
  simp [ReleasedExactlyOnce, broken]

theorem quiet_run_closes_the_socket_twice :
    ∃ s, machine.run (boot false ⟨[], 0⟩) (startup ++ quietStop) = some s ∧ s.main = .finished ∧
      ¬ ReleasedExactlyOnce s.descriptors := by
  obtain ⟨s, run, complete⟩ : ∃ s, machine.run (boot false ⟨[], 0⟩) (startup ++ quietStop) = some s ∧
      s.main = .finished := ⟨_, rfl, rfl⟩
  exact ⟨s, run, complete, complete_runs_close_the_socket_twice run complete⟩

/-- With a client whose connection is accepted just before the stop signal, which no
    thread closes. -/
def acceptedTooLate : List Action :=
  [.listen .ok, .listen .ok, .listen .ok, .listen .ok,
    .listen (.accepted ⟨5, ⟨[], false, false, 0⟩⟩)]

theorem accepted_connection_is_left_open :
    ((machine.run (boot false ⟨[], 0⟩) (startup ++ acceptedTooLate ++ quietStop)).map
      fun s => (s.main, s.descriptors)) =
    some (.finished, [.obtained 3, .obtained 4, .obtained 5, .closed 4, .closed 4, .closed 3]) ∧
    ¬ ReleasedExactlyOnce
      [.obtained 3, .obtained 4, .obtained 5, .closed 4, .closed 4, .closed 3] := by
  decide

end DescriptorRelease
