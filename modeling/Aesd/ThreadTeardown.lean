import Aesd.HandlerSoundness
import Aesd.ThreadListing

/-! The shutdown waits for every thread. While thread creations succeed no step of a run
    meets undefined behaviour, and each handler is joined and each node freed once. -/
namespace ThreadTeardown
open TransitionRuns LinkedCells PacketAppend ReceiveLoop ServerState ServerSteps ServerMoves
  ServerLifetimes HandlerSoundness ThreadListing

variable {s t : Server}

/-- pthread_create of the two kinds of thread that the code goes on without, and the malloc
    of a list node, succeed. -/
def CreationSucceeds (s : Server) : Action → Prop
  | .main answer => ¬ (s.main = .createStamp ∧ answer = .fails)
  | .listen answer => ¬ ((∃ handle, s.listen = .addThread handle) ∧ answer = .fails)
  | _ => True

theorem main_defined {answer : MainAnswer} (life : Lifetimes s) (listing : Listing s)
    (running : s.status = .running) (created : CreationSucceeds s (.main answer))
    (taken : mainStep s answer = some t) : t.status ≠ .undefined := by
  by_cases here : stage s.main = .draining
  · cases drain_moves life listing here taken <;> simp [Server.setHandler, running]
  · cases mainStep_moves taken with
    | exits cause => simp [Server.ends]
    | returns here => simp [Server.ends]
    | goesWrong cause =>
      rcases cause with stamp | drain | ⟨reap, stale⟩
      · exact absurd stamp created
      · exact absurd drain here
      · have flag := life.runFlag
        rw [reap] at flag
        obtain ⟨value, live⟩ := flag
        exact absurd live (stale value)
    | _ => simp [running]

theorem listen_defined {answer : ListenAnswer} (life : Lifetimes s) (running : s.status = .running)
    (created : CreationSucceeds s (.listen answer)) (moves : ListenMoves s answer t) :
    t.status ≠ .undefined := by
  cases moves with
  | exits here => simp [Server.ends]
  | goesWrong here cause =>
    rcases cause with adding | stale
    · exact absurd adding created
    · obtain ⟨value, live⟩ := listening_live life here
      exact absurd live (stale value)
  | _ => simp [running]

theorem stamp_defined {answer : StampAnswer} (life : Lifetimes s) (running : s.status = .running)
    (moves : StampMoves s answer t) : t.status ≠ .undefined := by
  cases moves with
  | ends here cause =>
    obtain ⟨⟨run, runLive⟩, due, dueLive⟩ := stamping_live life here
    rcases cause with stale | stale
    · exact absurd runLive (stale run)
    · exact absurd dueLive (stale due)
  | _ => simp [running]

theorem signal_defined {signal : Signal} (running : s.status = .running)
    (moves : SignalMoves s signal t) : t.status ≠ .undefined := by
  cases moves with
  | kills uncaught => simp [Server.ends]
  | _ => simp [running]

/-- No step meets undefined behaviour, such as a read of a freed node or a second join. -/
theorem step_defined (life : Lifetimes s) (listing : Listing s) (sound : HandlersSound s)
    {action : Action} (created : CreationSucceeds s action)
    (taken : machine.step s action = some t) : t.status ≠ .undefined := by
  have running := step_running taken
  simp only [machine, step, running, ↓reduceIte] at taken
  cases action with
  | main answer => exact main_defined life listing running created taken
  | listen answer => exact listen_defined life running created (listenStep_moves taken)
  | stamp answer => exact stamp_defined life running (stampStep_moves taken)
  | handler index answer => exact (sound_handler sound running taken).2.1
  | client index event =>
    obtain ⟨handler, found, rfl⟩ := clientStep_moves taken
    simp [Server.setHandler, running]
  | signal signal =>
    cases taken
    exact signal_defined running (signalStep_moves s signal)

def joinCall (s : Server) : Action → List Nat
  | .main _ =>
      match s.main with
      | .joinNode node => (read s.threads.cells node).toList.map Cell.value
      | _ => []
  | _ => []

def freeCall (s : Server) : Action → List Nat
  | .main _ =>
      match s.main with
      | .freeNode tmp _ => [tmp]
      | _ => []
  | _ => []

structure Called (joins frees : List Nat) (s : Server) : Prop where
  joins : joins ++ descending ((drainPoint s.main).unjoined s.handlers.length) =
    descending s.handlers.length
  frees : frees ++ descending ((drainPoint s.main).unfreed s.threads.cells.length) =
    descending s.threads.cells.length

theorem called_same {joins frees : List Nat} (held : Called joins frees s)
    (main : drainPoint t.main = drainPoint s.main)
    (handlers : t.handlers.length = s.handlers.length)
    (cells : t.threads.cells.length = s.threads.cells.length) : Called joins frees t :=
  ⟨by rw [main, handlers]; exact held.joins, by rw [main, cells]; exact held.frees⟩

theorem called_aside {joins frees : List Nat} (held : Called joins frees s) (aside : Aside s t) :
    Called joins frees t := by
  have handlers := congrArg List.length aside.joined
  simp only [List.length_map] at handlers
  exact called_same held (by rw [aside.main]) handlers (by rw [aside.threads])

theorem outside_calls (outside : stage s.main ≠ .draining) (answer : MainAnswer) :
    joinCall s (.main answer) = [] ∧ freeCall s (.main answer) = [] := by
  cases main : s.main <;> rw [main] at outside <;>
    simp_all [joinCall, freeCall, stage]

theorem called_drain {joins frees : List Nat} {answer : MainAnswer} (held : Called joins frees s)
    (listing : Listing s) (finished : s.listen = .finished) (moves : DrainMoves s t) :
    Called (joins ++ joinCall s (.main answer)) (frees ++ freeCall s (.main answer)) t := by
  obtain ⟨joined, freed⟩ := held
  have counts := finished_counts listing finished
  have chain := listing.chain
  cases moves with
  | clears here =>
    rw [here] at joined freed
    simp only [joinCall, freeCall, here, List.append_nil]
    exact ⟨joined, freed⟩
  | begins here =>
    rw [here] at joined freed chain
    obtain ⟨unjoined, _, unfreed, _⟩ := atNode_descending chain
    simp only [joinCall, freeCall, here, List.append_nil]
    constructor
    · rw [unjoined]
      simpa only [drainPoint, DrainPoint.unjoined, DrainPoint.linked, counts] using joined
    · rw [unfreed]
      exact freed
  | @joins node handler here found done =>
    rw [here] at joined freed chain
    obtain ⟨_, inside⟩ := chain_first chain
    obtain ⟨cell, read, value⟩ := read_unfreed listing inside (by simp [here, drainPoint,
      DrainPoint.unfreed])
    simp only [joinCall, freeCall, here, read, Option.toList_some, List.map_singleton, value,
      List.append_nil]
    refine ⟨?_, freed⟩
    simpa [Server.setHandler, drainPoint, DrainPoint.unjoined, descending] using joined
  | @removes node cell here found rest =>
    rw [here] at joined freed
    simp only [joinCall, freeCall, here, List.append_nil]
    exact ⟨joined, freed⟩
  | @reads node here inside =>
    rw [here] at joined freed
    simp only [joinCall, freeCall, here, List.append_nil]
    exact ⟨joined, freed⟩
  | @frees node next threads here gone =>
    rw [here] at joined freed chain
    have same : threads.cells.length = s.threads.cells.length := by
      obtain ⟨cell, found, rfl⟩ := Option.map_eq_some_iff.mp gone
      simp
    obtain ⟨unjoined, _, unfreed, _⟩ := atNode_descending chain
    simp only [joinCall, freeCall, here, List.append_nil]
    constructor
    · rw [unjoined]
      exact joined
    · rw [unfreed, same]
      simpa [drainPoint, DrainPoint.unfreed, DrainPoint.linked, descending] using freed

theorem called_listen {joins frees : List Nat} {answer : ListenAnswer} (life : Lifetimes s)
    (held : Called joins frees s) (moves : ListenMoves s answer t) : Called joins frees t := by
  cases moves with
  | creates here =>
    have point := listening_notBegun life (by simp [Running, here])
    obtain ⟨joined, freed⟩ := held
    rw [point] at joined
    obtain rfl : joins = [] := List.append_left_eq_self.mp joined
    refine ⟨?_, freed⟩
    simp [point, DrainPoint.unjoined]
  | lists here =>
    have point := listening_notBegun life (by simp [Running, here])
    obtain ⟨joined, freed⟩ := held
    rw [point] at freed
    obtain rfl : frees = [] := List.append_left_eq_self.mp freed
    refine ⟨joined, ?_⟩
    simp [point, DrainPoint.unfreed]
  | _ => exact called_same held rfl rfl rfl

theorem called_step {joins frees : List Nat} {action : Action} (life : Lifetimes s)
    (listing : Listing s) (held : Called joins frees s) (taken : machine.step s action = some t) :
    Called (joins ++ joinCall s action) (frees ++ freeCall s action) t := by
  cases step_moves taken with
  | @main answer _ taken moves =>
    by_cases here : stage s.main = .draining
    · exact called_drain held listing (drain_finished life here) (drain_moves life listing here taken)
    · obtain ⟨noJoin, noFree⟩ := outside_calls here answer
      obtain ⟨point, handlers, threads, _⟩ := main_keeps_list here moves
      rw [noJoin, noFree, List.append_nil, List.append_nil]
      exact called_same held point (by rw [handlers]) (by rw [threads])
  | listen moves =>
    simp only [joinCall, freeCall, List.append_nil]
    exact called_listen life held moves
  | stamp moves =>
    simp only [joinCall, freeCall, List.append_nil]
    cases moves <;> exact called_same held rfl rfl rfl
  | handler _ moves =>
    simp only [joinCall, freeCall, List.append_nil]
    exact called_aside held (aside_handler moves)
  | client found =>
    simp only [joinCall, freeCall, List.append_nil]
    exact called_aside held (aside_client found _)
  | signal moves =>
    simp only [joinCall, freeCall, List.append_nil]
    exact called_aside held (aside_signal moves)

structure Orderly (start : Server) (past : List Action) (s : Server) : Prop where
  run : machine.run start past = some s
  life : Lifetimes s
  listing : Listing s
  sound : HandlersSound s
  status : s.status ≠ .undefined
  called : Called (machine.collect joinCall start past) (machine.collect freeCall start past) s

theorem orderly_boot (daemonMode : Bool) (file : OpenFile) :
    Orderly (boot daemonMode file) [] (boot daemonMode file) where
  run := rfl
  life := lifetimes_boot daemonMode file
  listing := listing_boot daemonMode file
  sound := by simp [HandlersSound, boot]
  status := by simp [boot]
  called := ⟨rfl, rfl⟩

theorem orderly_step {start : Server} {past : List Action} {action : Action}
    (held : Orderly start past s) (created : CreationSucceeds s action)
    (taken : machine.step s action = some t) : Orderly start (past ++ [action]) t := by
  obtain ⟨run, life, listing, sound, status, called⟩ := held
  obtain ⟨lifeNext, listingNext⟩ := listing_step s action t ⟨life, listing⟩ taken
  refine ⟨run_snoc_iff.mpr ⟨s, run, taken⟩, lifeNext, listingNext,
    sound_step s action t sound taken, step_defined life listing sound created taken, ?_⟩
  rw [collect_snoc run taken, collect_snoc run taken]
  exact called_step life listing called taken

theorem listed_threads (listing : Listing s) (ended : s.listen = .finished)
    (point : drainPoint s.main = .notBegun) :
    s.threads.values = descending s.handlers.length := by
  have chain := listing.chain
  rw [point] at chain
  have walked := @chain_walk _ _ id listing.handles _ _ chain _
    (Nat.le_of_eq (descending_length _))
  rw [List.map_id] at walked
  rw [finished_counts listing ended]
  exact walked

theorem done_finished (life : Lifetimes s) (point : drainPoint s.main = .done) :
    s.listen = .finished ∧ s.stamp = .finished := by
  have listen := life.listen
  have stamp := life.stamp
  cases main : s.main <;> rw [main] at point listen stamp <;>
    first | exact ⟨listen, stamp⟩ | cases point

/-- In every run whose thread creations succeed, nothing freed is read and no thread joined
    twice; when listen_loop has returned the list holds every handler once; and past the
    drain every handler was joined once, every node freed once and no thread still runs. -/
theorem teardown_waits_for_every_thread {daemonMode : Bool} {file : OpenFile}
    {actions : List Action}
    (created : machine.Along CreationSucceeds (boot daemonMode file) actions)
    (run : machine.run (boot daemonMode file) actions = some s) :
    s.status ≠ .undefined ∧
      (s.listen = .finished → drainPoint s.main = .notBegun →
        s.threads.values.Perm (List.range s.handlers.length)) ∧
      (drainPoint s.main = .done →
        s.threads.first = none ∧
          (machine.collect joinCall (boot daemonMode file) actions).Perm
            (List.range s.handlers.length) ∧
          (machine.collect freeCall (boot daemonMode file) actions).Perm
            (List.range s.handlers.length) ∧
          s.listen = .finished ∧ s.stamp = .finished ∧
          ∀ handler ∈ s.handlers, handler.joined = true ∧ handler.phase = .finished) := by
  obtain ⟨_, life, listing, _, status, called⟩ :=
    history_along (fun _ _ _ _ held created taken => orderly_step held created taken)
      (orderly_boot daemonMode file) created run
  rw [List.nil_append] at called
  refine ⟨status, ?_, ?_⟩
  · intro ended point
    rw [listed_threads listing ended point]
    exact descending_perm _
  · intro point
    obtain ⟨ended, stamped⟩ := done_finished life point
    obtain ⟨joins, frees⟩ := called
    have chain := listing.chain
    rw [point] at joins frees chain
    simp only [DrainPoint.unjoined, DrainPoint.unfreed, descending, List.append_nil] at joins frees
    refine ⟨chain, ?_, ?_, ended, stamped, ?_⟩
    · rw [joins]
      exact descending_perm _
    · rw [frees, finished_counts listing ended]
      exact descending_perm _
    · intro handler member
      obtain ⟨i, found⟩ := List.mem_iff_getElem?.mp member
      have joined := (listing.joined i handler found).mpr (by rw [point]; exact Nat.zero_le i)
      exact ⟨joined, listing.ended handler member joined⟩

def clientLeaves : List Action :=
  [.client 0 .shutsDown, .handler 0 (.recv (.data []) true fun _ => 0), .handler 0 (.alloc true),
    .handler 0 .ok]

def stopAfterClient : List Action :=
  [.signal .sigterm, .main .ok, .listen .ok, .listen .ok, .main .ok, .stamp .ok, .main .ok,
    .main .ok, .main .ok, .main .ok, .main .ok, .main .ok, .main .ok]

theorem client_leaves_run :
    machine.run clientInRecv clientLeaves =
      some { clientInRecv with
        handlers := [⟨5, ⟨[], true, false, 0⟩, .finished, false⟩]
        descriptors := [.obtained 3, .obtained 4, .obtained 5, .closed 5] } := by
  have shut : machine.step clientInRecv (.client 0 .shutsDown) =
      some (clientInRecv.setHandler 0 ⟨5, ⟨[], true, false, 0⟩, .recv startReceiving, false⟩) := rfl
  rw [clientLeaves, Machine.run, shut, Option.bind_some,
    shutdown_ends_handler rfl rfl rfl received_start ⟨rfl, rfl⟩]
  rfl

theorem one_client_is_joined_once :
    ∃ s, machine.run (boot false ⟨[], 0⟩)
        (startup ++ oneClient ++ (clientLeaves ++ stopAfterClient)) = some s ∧
      drainPoint s.main = .done ∧
      (machine.collect joinCall (boot false ⟨[], 0⟩)
        (startup ++ oneClient ++ (clientLeaves ++ stopAfterClient))).Perm [0] := by
  obtain ⟨s, run, point, handlers⟩ : ∃ s, machine.run (boot false ⟨[], 0⟩)
      (startup ++ oneClient ++ (clientLeaves ++ stopAfterClient)) = some s ∧
        drainPoint s.main = .done ∧ s.handlers.length = 1 := by
    rw [run_append, one_client_run, Option.bind_some, run_append, client_leaves_run,
      Option.bind_some]
    exact ⟨_, rfl, rfl, rfl⟩
  have created : ∀ action ∈ startup ++ oneClient ++ (clientLeaves ++ stopAfterClient),
      ∀ s, CreationSucceeds s action := by
    simp [startup, oneClient, clientLeaves, stopAfterClient, CreationSucceeds]
  obtain ⟨_, _, drained⟩ := teardown_waits_for_every_thread (along_of_forall _ _ created) run
  obtain ⟨_, joins, _⟩ := drained point
  rw [handlers] at joins
  exact ⟨s, run, point, joins⟩

end ThreadTeardown
