import Aesd.ThreadListing

/-! Which connections listen_loop hands to a handler thread. Its flag checks, accepts and
    thread creations are logged; the connection in its hands balances the log. -/
namespace HandlerDispatch
open TransitionRuns LinkedCells PacketAppend ServerState ServerSteps ServerMoves ServerLifetimes
  ThreadListing

/-- flagRead is a get_run_flag of listen_loop, started a pthread_create with the descriptor. -/
inductive DispatchEvent where
  | accepted (fd : Int)
  | flagRead (value : Bool)
  | started (fd : Int)
  deriving DecidableEq, Repr

def flagReads : FlagCell → List DispatchEvent
  | .live value => [.flagRead value]
  | _ => []

def dispatchEvents (s : Server) : Action → List DispatchEvent
  | .listen answer =>
      match s.listen, answer with
      | .top, .ok => flagReads s.runFlag
      | .listenCheck, .ok => flagReads s.runFlag
      | .acceptCheck, .ok => flagReads s.runFlag
      | .finalCheck _, .ok => flagReads s.runFlag
      | .acceptCall, .accepted connection => [.accepted connection.fd]
      | .createThread connection, .ok => [.started connection.fd]
      | _, _ => []
  | _ => []

@[simp] def DispatchEvent.acceptedFd : DispatchEvent → Option Int
  | .accepted fd => some fd
  | _ => none

@[simp] def DispatchEvent.startedFd : DispatchEvent → Option Int
  | .started fd => some fd
  | _ => none

def acceptedFds (log : List DispatchEvent) : List Int := log.filterMap DispatchEvent.acceptedFd

def startedFds (log : List DispatchEvent) : List Int := log.filterMap DispatchEvent.startedFd

/-- waiting are the descriptors accepted since the last flag check, due those for which the
    check that followed read true. -/
structure Verdict where
  due : List Int
  waiting : List Int
  deriving DecidableEq, Repr

@[simp] def Verdict.after (verdict : Verdict) : DispatchEvent → Verdict
  | .accepted fd => ⟨verdict.due, verdict.waiting ++ [fd]⟩
  | .flagRead true => ⟨verdict.due ++ verdict.waiting, []⟩
  | .flagRead false => ⟨verdict.due, []⟩
  | .started _ => verdict

def verdict (log : List DispatchEvent) : Verdict := log.foldl Verdict.after ⟨[], []⟩

/-- connection_socket_fd before the check that decides about it. -/
@[simp] def unanswered : ListenPhase → List Int
  | .finalCheck connection => if connection = notAccepted then [] else [connection.fd]
  | _ => []

/-- connection_socket_fd between that check and pthread_create. -/
@[simp] def beingStarted : ListenPhase → List Int
  | .allocState connection => [connection.fd]
  | .createThread connection => [connection.fd]
  | _ => []

def Idle (phase : ListenPhase) : Prop := unanswered phase = [] ∧ beingStarted phase = []

inductive DispatchMoves (s : Server) : List DispatchEvent → Server → Prop where
  | polls {value : Bool} {next : ListenPhase} (idle : Idle s.listen) (nextIdle : Idle next)
      (going : next ≠ .finished) (other : ∀ connection, next ≠ .finalCheck connection) :
      DispatchMoves s [.flagRead value] { s with listen := next }
  | goes {next : ListenPhase} (idle : Idle s.listen) (nextIdle : Idle next)
      (going : next ≠ .finished) (other : ∀ connection, next ≠ .finalCheck connection) :
      DispatchMoves s [] { s with listen := next }
  | skipsAccept (here : s.listen = .acceptCheck) (flag : s.runFlag = .live false) :
      DispatchMoves s [.flagRead false] { s with listen := .finalCheck notAccepted }
  | accepts {connection : Accepted} (here : s.listen = .acceptCall)
      (fresh : s.Fresh connection.fd) :
      DispatchMoves s [.accepted connection.fd] { s with
        descriptors := s.descriptors ++ [.obtained connection.fd]
        listen := .finalCheck connection }
  | keeps {connection : Accepted} (here : s.listen = .finalCheck connection)
      (flag : s.runFlag = .live true) :
      DispatchMoves s [.flagRead true] { s with listen := .allocState connection }
  | drops {connection : Accepted} (here : s.listen = .finalCheck connection)
      (flag : s.runFlag = .live false) :
      DispatchMoves s [.flagRead false] { s with listen := .closeSocket }
  | allocates {connection : Accepted} (here : s.listen = .allocState connection) :
      DispatchMoves s [] { s with listen := .createThread connection }
  | starts {connection : Accepted} (here : s.listen = .createThread connection) :
      DispatchMoves s [.started connection.fd] { s with
        handlers := s.handlers ++ [⟨connection.fd, connection.peer, .begin, false⟩]
        listen := .addThread s.handlers.length }
  | lists {handle : Nat} (here : s.listen = .addThread handle) :
      DispatchMoves s [] { s with threads := insertHead s.threads handle, listen := .top }
  | closes (here : s.listen = .closeSocket) :
      DispatchMoves s [] { s with
        descriptors := s.descriptors ++ [.closed s.sockfd]
        listen := .finished }
  | ends {status : Status} : DispatchMoves s [] (s.ends status)

variable {s t : Server}

theorem flagReads_stale {cell : FlagCell} (stale : ∀ value, cell ≠ .live value) :
    flagReads cell = [] := by
  cases cell with
  | live value => exact absurd rfl (stale value)
  | unset => rfl
  | freed => rfl

theorem check_moves {next : Bool → ListenPhase}
    (goes : ∀ value, s.runFlag = .live value →
      DispatchMoves s [.flagRead value] { s with listen := next value })
    (taken : s.withFlag s.runFlag (fun running => { s with listen := next running }) = t) :
    DispatchMoves s (flagReads s.runFlag) t := by
  rcases withFlag_cases taken with ⟨value, flag, rfl⟩ | ⟨stale, rfl⟩
  · have read : flagReads s.runFlag = [.flagRead value] := by
      rw [flag]
      rfl
    rw [read]
    exact goes value flag
  · rw [flagReads_stale stale]
    exact .ends

theorem dispatch_moves {answer : ListenAnswer} (taken : listenStep s answer = some t) :
    DispatchMoves s (dispatchEvents s (.listen answer)) t := by
  unfold listenStep at taken
  split at taken
  · rename_i here
    simp only [dispatchEvents, here]
    apply check_moves _ (Option.some.inj taken)
    intro value _
    cases value <;> apply DispatchMoves.polls <;>
      simp [Idle, here]
  · rename_i here
    simp only [dispatchEvents, here]
    apply check_moves _ (Option.some.inj taken)
    intro value _
    cases value <;> apply DispatchMoves.polls <;>
      simp [Idle, here]
  · rename_i here
    cases taken
    simp only [dispatchEvents, here]
    apply DispatchMoves.goes <;> simp [Idle, here]
  · rename_i here
    cases taken
    simp only [dispatchEvents, here]
    apply DispatchMoves.goes <;> simp [Idle, here]
  · rename_i here
    cases taken
    simp only [dispatchEvents, here]
    exact .ends
  · rename_i here
    simp only [dispatchEvents, here]
    apply check_moves _ (Option.some.inj taken)
    intro value flag
    cases value with
    | true => apply DispatchMoves.polls <;> simp [Idle, here]
    | false => exact .skipsAccept here flag
  · rename_i connection here
    simp only [dispatchEvents, here]
    split at taken
    · rename_i fresh
      cases taken
      exact .accepts here fresh
    · simp at taken
  · rename_i here
    cases taken
    simp only [dispatchEvents, here]
    apply DispatchMoves.goes <;> simp [Idle, here]
  · rename_i here
    cases taken
    simp only [dispatchEvents, here]
    exact .ends
  · rename_i connection here
    simp only [dispatchEvents, here]
    apply check_moves _ (Option.some.inj taken)
    intro value flag
    cases value with
    | true => exact .keeps here flag
    | false => exact .drops here flag
  · rename_i connection here
    cases taken
    simp only [dispatchEvents, here]
    exact .allocates here
  · rename_i connection here
    cases taken
    simp only [dispatchEvents, here]
    exact .ends
  · rename_i connection here
    cases taken
    simp only [dispatchEvents, here]
    exact .starts here
  · rename_i connection here
    cases taken
    simp only [dispatchEvents, here]
    exact .ends
  · rename_i handle here
    cases taken
    simp only [dispatchEvents, here]
    exact .lists here
  · rename_i handle here
    cases taken
    simp only [dispatchEvents, here]
    exact .ends
  · rename_i here
    cases taken
    simp only [dispatchEvents, here]
    exact .closes here
  · simp at taken

@[simp] theorem startedFds_snoc (log : List DispatchEvent) (event : DispatchEvent) :
    startedFds (log ++ [event]) = startedFds log ++ event.startedFd.toList := by
  rw [startedFds, List.filterMap_append, List.filterMap_cons, List.filterMap_nil]
  cases event.startedFd <;> rfl

@[simp] theorem acceptedFds_snoc (log : List DispatchEvent) (event : DispatchEvent) :
    acceptedFds (log ++ [event]) = acceptedFds log ++ event.acceptedFd.toList := by
  rw [acceptedFds, List.filterMap_append, List.filterMap_cons, List.filterMap_nil]
  cases event.acceptedFd <;> rfl

@[simp] theorem verdict_snoc (log : List DispatchEvent) (event : DispatchEvent) :
    verdict (log ++ [event]) = (verdict log).after event := by
  rw [verdict, List.foldl_append, List.foldl_cons, List.foldl_nil, verdict]

theorem verdict_sublist (log : List DispatchEvent) :
    ((verdict log).due ++ (verdict log).waiting).Sublist (acceptedFds log) := by
  induction log using List.reverseRecOn with
  | nil => exact List.Sublist.slnil
  | append_singleton log event ih =>
    rw [verdict_snoc, acceptedFds_snoc]
    cases event with
    | accepted fd =>
      have more := ih.append (List.Sublist.refl [fd])
      rwa [List.append_assoc] at more
    | flagRead value =>
      simp only [DispatchEvent.acceptedFd, Option.toList_none, List.append_nil]
      cases value with
      | true => rwa [Verdict.after, List.append_nil]
      | false =>
        rw [Verdict.after, List.append_nil]
        exact (List.sublist_append_left _ _).trans ih
    | started fd => simpa using ih

theorem fresh_accepted {connection : Accepted} (fresh : s.Fresh connection.fd) :
    connection ≠ notAccepted := by
  intro same
  rw [same] at fresh
  exact absurd fresh.1 (by decide)

/-- connection_socket_fd is still -1 only if a check before the accept has read false, and
    then the last one does too. -/
theorem kept_accepted {connection : Accepted}
    (lowered : s.listen = .finalCheck notAccepted → s.runFlag ≠ .live true)
    (here : s.listen = .finalCheck connection) (flag : s.runFlag = .live true) :
    connection ≠ notAccepted := by
  intro same
  rw [same] at here
  exact lowered here flag

structure Balanced (log : List DispatchEvent) (s : Server) : Prop where
  handlers : s.handlers.map HandlerThread.sockfd = startedFds log
  real : ∀ fd ∈ acceptedFds log, 0 ≤ fd
  due : (verdict log).due = startedFds log ++ beingStarted s.listen
  waiting : (verdict log).waiting = unanswered s.listen
  lowered : s.listen = .finalCheck notAccepted → s.runFlag ≠ .live true

theorem balanced_boot (daemonMode : Bool) (file : OpenFile) : Balanced [] (boot daemonMode file) where
  handlers := rfl
  real := by simp [acceptedFds]
  due := rfl
  waiting := rfl
  lowered := by simp [boot]

theorem balanced_same {log : List DispatchEvent} (held : Balanced log s)
    (handlers : t.handlers.map HandlerThread.sockfd = s.handlers.map HandlerThread.sockfd)
    (started : beingStarted t.listen = beingStarted s.listen)
    (waits : unanswered t.listen = unanswered s.listen)
    (lowered : t.listen = .finalCheck notAccepted → t.runFlag ≠ .live true) : Balanced log t where
  handlers := by rw [handlers]; exact held.handlers
  real := held.real
  due := by rw [started]; exact held.due
  waiting := by rw [waits]; exact held.waiting
  lowered := lowered

theorem balanced_read {log : List DispatchEvent} (held : Balanced log s) (value : Bool)
    (none : unanswered s.listen = []) : Balanced (log ++ [.flagRead value]) s := by
  obtain ⟨handlers, real, due, waiting, lowered⟩ := held
  rw [none] at waiting
  constructor
  · simpa using handlers
  · simpa using real
  · rw [startedFds_snoc, verdict_snoc]
    cases value <;> simpa [waiting] using due
  · rw [verdict_snoc, none]
    cases value <;> rfl
  · exact lowered

theorem balanced_listen {log events : List DispatchEvent} (held : Balanced log s)
    (moves : DispatchMoves s events t) : Balanced (log ++ events) t := by
  cases moves with
  | polls idle nextIdle going other =>
    apply balanced_same (balanced_read held _ idle.1)
    · rfl
    · rw [idle.2, nextIdle.2]
    · rw [idle.1, nextIdle.1]
    · intro skipped
      exact absurd skipped (other notAccepted)
  | goes idle nextIdle going other =>
    rw [List.append_nil]
    apply balanced_same held
    · rfl
    · rw [idle.2, nextIdle.2]
    · rw [idle.1, nextIdle.1]
    · intro skipped
      exact absurd skipped (other notAccepted)
  | skipsAccept here flag =>
    have read := balanced_read held false (by simp [here])
    apply balanced_same read <;> simp [here, flag]
  | @accepts connection here fresh =>
    have accepted := fresh_accepted fresh
    obtain ⟨handlers, real, due, waiting, lowered⟩ := held
    rw [here] at due waiting
    constructor
    · simpa using handlers
    · intro fd member
      rw [acceptedFds_snoc, List.mem_append] at member
      rcases member with before | new
      · exact real fd before
      · rw [List.mem_singleton.mp new]
        exact fresh.1
    · simpa using due
    · simp [waiting, accepted]
    · intro skipped
      exact absurd (ListenPhase.finalCheck.inj skipped) accepted
  | @keeps connection here flag =>
    have accepted := kept_accepted held.lowered here flag
    obtain ⟨handlers, real, due, waiting, lowered⟩ := held
    rw [here] at due waiting
    constructor
    · simpa using handlers
    · simpa using real
    · simp only [beingStarted, List.append_nil] at due
      simp [due, waiting, accepted]
    · simp
    · simp
  | drops here flag =>
    obtain ⟨handlers, real, due, waiting, lowered⟩ := held
    rw [here] at due
    constructor
    · simpa using handlers
    · simpa using real
    · simpa using due
    · simp
    · simp
  | allocates here =>
    rw [List.append_nil]
    apply balanced_same held <;> simp [here]
  | starts here =>
    obtain ⟨handlers, real, due, waiting, lowered⟩ := held
    rw [here] at due waiting
    constructor
    · simp [handlers]
    · simpa using real
    · simpa using due
    · simpa using waiting
    · simp
  | lists here =>
    rw [List.append_nil]
    apply balanced_same held <;> simp [here]
  | closes here =>
    rw [List.append_nil]
    apply balanced_same held <;> simp [here]
  | ends =>
    rw [List.append_nil]
    exact ⟨held.handlers, held.real, held.due, held.waiting, held.lowered⟩

def connections (s : Server) : List (Int × HandlerPhase) :=
  s.handlers.map fun handler => (handler.sockfd, handler.phase)

theorem sockfds_of_connections (same : connections t = connections s) :
    t.handlers.map HandlerThread.sockfd = s.handlers.map HandlerThread.sockfd := by
  have firsts := congrArg (List.map Prod.fst) same
  simpa [connections, Function.comp_def] using firsts

theorem main_keeps_connections {answer : MainAnswer} (life : Lifetimes s) (listing : Listing s)
    (taken : mainStep s answer = some t) : connections t = connections s := by
  by_cases here : stage s.main = .draining
  · cases drain_moves life listing here taken with
    | joins _ found _ => exact setHandler_map found rfl
    | _ => rfl
  · rw [connections, (main_keeps_list here (mainStep_moves taken)).2.1]
    rfl

theorem main_keeps_listen {answer : MainAnswer} (life : Lifetimes s)
    (moves : MainMoves s answer t) :
    t.listen = s.listen ∨ s.listen = .notStarted ∧ t.listen = .top := by
  cases moves with
  | startsListen here =>
    right
    have listen := life.listen
    rw [here] at listen
    exact ⟨listen, rfl⟩
  | _ => exact Or.inl rfl

theorem main_keeps_flag_down {answer : MainAnswer} (life : Lifetimes s) (here : Running s.listen)
    (moves : MainMoves s answer t) (down : s.runFlag ≠ .live true) : t.runFlag ≠ .live true := by
  cases moves with
  | initRunFlag booting =>
    have serving := listening_stage life here
    rw [booting] at serving
    contradiction
  | clearsRun _ _ => simp
  | freesRun _ => simp
  | _ => exact down

theorem balanced_main {log : List DispatchEvent} {answer : MainAnswer} (life : Lifetimes s)
    (listing : Listing s) (held : Balanced log s) (taken : mainStep s answer = some t) :
    Balanced log t := by
  have sockfds := sockfds_of_connections (main_keeps_connections life listing taken)
  have moves := mainStep_moves taken
  rcases main_keeps_listen life moves with same | ⟨before, started⟩
  · apply balanced_same held sockfds (by rw [same]) (by rw [same])
    intro skipped
    rw [same] at skipped
    have here : Running s.listen := by simp [Running, skipped]
    exact main_keeps_flag_down life here moves (held.lowered skipped)
  · apply balanced_same held sockfds
    · rw [before, started]
      rfl
    · rw [before, started]
      rfl
    · simp [started]

theorem handler_keeps_sockfds {index : Nat} (moves : HandlerMoves s index t) :
    t.handlers.map HandlerThread.sockfd = s.handlers.map HandlerThread.sockfd := by
  cases moves with
  | goes found _ _ _ _ => exact setHandler_map found rfl
  | locks found _ _ => exact setHandler_map found rfl
  | writes found _ => exact setHandler_map found rfl
  | unlocks found _ => exact setHandler_map found rfl
  | closes found _ => exact setHandler_map found rfl
  | ends _ _ => rfl

theorem balanced_aside {log : List DispatchEvent} (held : Balanced log s) (aside : Aside s t)
    (sockfds : t.handlers.map HandlerThread.sockfd = s.handlers.map HandlerThread.sockfd) :
    Balanced log t := by
  apply balanced_same held sockfds (by rw [aside.listen]) (by rw [aside.listen])
  intro skipped
  rw [aside.listen] at skipped
  have down := held.lowered skipped
  rcases aside.runFlag with same | stored
  · rwa [same]
  · rw [stored]
    cases s.runFlag <;> simp [FlagCell.store]

theorem stamp_keeps_listen {answer : StampAnswer} (moves : StampMoves s answer t) :
    t.listen = s.listen ∧ t.handlers = s.handlers ∧ t.runFlag = s.runFlag := by
  cases moves <;> exact ⟨rfl, rfl, rfl⟩

theorem balanced_stamp {log : List DispatchEvent} {answer : StampAnswer} (held : Balanced log s)
    (moves : StampMoves s answer t) : Balanced log t := by
  obtain ⟨listen, handlers, flag⟩ := stamp_keeps_listen moves
  apply balanced_same held
  · rw [handlers]
  · rw [listen]
  · rw [listen]
  · rw [listen, flag]
    exact held.lowered

theorem balanced_step {log : List DispatchEvent} {action : Action} (life : Lifetimes s)
    (listing : Listing s) (held : Balanced log s) (taken : machine.step s action = some t) :
    Balanced (log ++ dispatchEvents s action) t := by
  have silent : ∀ {u : Server}, Balanced log u → Balanced (log ++ []) u := by simp
  cases step_moves taken with
  | main taken _ => exact silent (balanced_main life listing held taken)
  | listen _ => exact balanced_listen held (dispatch_moves (listen_taken taken))
  | stamp moves => exact silent (balanced_stamp held moves)
  | handler _ moves =>
    exact silent (balanced_aside held (aside_handler moves) (handler_keeps_sockfds moves))
  | client found =>
    exact silent (balanced_aside held (aside_client found _) (setHandler_map found rfl))
  | signal moves =>
    apply silent
    apply balanced_aside held (aside_signal moves)
    cases moves <;> rfl

def dispatchLog (daemonMode : Bool) (file : OpenFile) (actions : List Action) :
    List DispatchEvent :=
  machine.collect dispatchEvents (boot daemonMode file) actions

theorem balanced_run {daemonMode : Bool} {file : OpenFile} {actions : List Action}
    (run : machine.run (boot daemonMode file) actions = some s) :
    Balanced (dispatchLog daemonMode file actions) s := by
  induction actions using List.reverseRecOn generalizing s with
  | nil =>
    obtain rfl := Option.some.inj run
    exact balanced_boot daemonMode file
  | append_singleton past action ih =>
    obtain ⟨mid, before, taken⟩ := run_snoc_iff.mp run
    obtain ⟨life, listing⟩ := invariant_run listing_step
      ⟨lifetimes_boot daemonMode file, listing_boot daemonMode file⟩ before
    rw [dispatchLog, collect_snoc before taken]
    exact balanced_step life listing (ih before) taken

theorem listen_ok (running : s.status = .running) :
    machine.step s (.listen .ok) = listenStep s .ok := by
  show step s (.listen .ok) = listenStep s .ok
  unfold step
  rw [if_pos running]

theorem create_completes {connection : Accepted} (running : s.status = .running)
    (here : s.listen = .createThread connection) :
    ∃ t, machine.run s [.listen .ok] = some t ∧ t.handlers.map HandlerThread.sockfd =
      s.handlers.map HandlerThread.sockfd ++ [connection.fd] := by
  refine ⟨{ s with
    handlers := s.handlers ++ [⟨connection.fd, connection.peer, .begin, false⟩]
    listen := .addThread s.handlers.length }, ?_, ?_⟩
  · apply run_cons_iff.mpr
    refine ⟨_, ?_, rfl⟩
    rw [listen_ok running]
    simp only [listenStep, here]
  · simp

/-- From the check on, only a failing malloc or pthread_create keeps a connection from its
    handler, and either ends the process. -/
theorem start_completes (running : s.status = .running) :
    ∃ later t, (∀ action ∈ later, action = .listen .ok) ∧ machine.run s later = some t ∧
      t.handlers.map HandlerThread.sockfd =
        s.handlers.map HandlerThread.sockfd ++ beingStarted s.listen := by
  cases here : s.listen with
  | createThread connection =>
    obtain ⟨t, run, handlers⟩ := create_completes running here
    exact ⟨[.listen .ok], t, by simp, run, handlers⟩
  | allocState connection =>
    have allocates : machine.step s (.listen .ok) =
        some { s with listen := .createThread connection } := by
      rw [listen_ok running]
      simp only [listenStep, here]
    obtain ⟨t, run, handlers⟩ :=
      @create_completes { s with listen := .createThread connection } connection running rfl
    exact ⟨[.listen .ok, .listen .ok], t, by simp, run_cons_iff.mpr ⟨_, allocates, run⟩, handlers⟩
  | _ => exact ⟨[], s, by simp, rfl, by simp⟩

end HandlerDispatch
