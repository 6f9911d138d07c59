import Aesd.ConnectionOwnership
import Aesd.HeldResources

/-! What the descriptor numbers of the server stand for. At any time the numbers in use are
    the data file, the listening socket, one for each connection, and at most one that a
    stop signal made listen_loop forget; and no call is made on any other number. -/
namespace DescriptorUse
open TransitionRuns HeldResources PacketAppend PacketSteps ServerState ServerSteps ServerMoves
  ServerLifetimes ThreadListing DescriptorRelease HandlerDispatch

def diskOpen : MainPhase → Bool
  | .initRunFlag | .catchSigint | .catchSigterm | .catchSigalrm | .openDisk => false
  | .freeRunFlag | .freeListeningFlag | .freeDueFlag | .removeFile | .finished => false
  | _ => true

def socketBound : MainPhase → Bool
  | .initRunFlag | .catchSigint | .catchSigterm | .catchSigalrm | .openDisk | .bindSocket => false
  | _ => true

def diskFd (s : Server) : List Int := if diskOpen s.main then [s.diskfd] else []

def socketFd (s : Server) : List Int :=
  if socketBound s.main ∧ s.listen ≠ .finished then [s.sockfd] else []

def heldFds (s : Server) : List Int := diskFd s ++ (socketFd s ++ owned s)

/-- leaked is the connection accepted after the last look at the run flag that read true. -/
structure Descriptors (leaked : List Int) (s : Server) : Prop where
  books : Accounted (inUse s.descriptors) (heldFds s ++ leaked)
  one : leaked.length ≤ 1
  late : leaked ≠ [] → s.listen = .closeSocket ∨ s.listen = .finished

inductive MainFds (s : Server) : Server → Prop where
  | keeps {t : Server} (disk : diskFd t = diskFd s)
      (socket : socketBound t.main = socketBound s.main) (sockfd : t.sockfd = s.sockfd)
      (descriptors : t.descriptors = s.descriptors) : MainFds s t
  | opensDisk {number : Int} (here : s.main = .openDisk) (fresh : s.Fresh number) :
      MainFds s { s with
        diskfd := number
        descriptors := s.descriptors ++ [.obtained number]
        main := .bindSocket }
  | opensSocket {number : Int} {next : MainPhase} (here : s.main = .bindSocket)
      (fresh : s.Fresh number) (there : diskOpen next = true ∧ socketBound next = true) :
      MainFds s { s with
        sockfd := number
        descriptors := s.descriptors ++ [.obtained number]
        main := next }
  | closesSocket (here : s.main = .closeSocket) :
      MainFds s { s with
        descriptors := s.descriptors ++ [.closed s.sockfd]
        main := .closeDisk }
  | closesDisk (here : s.main = .closeDisk) :
      MainFds s { s with
        descriptors := s.descriptors ++ [.closed s.diskfd]
        main := .freeRunFlag }

variable {s t : Server} {leaked : List Int}

theorem keeps_phase {t : Server} (disk : diskOpen t.main = diskOpen s.main)
    (socket : socketBound t.main = socketBound s.main) (diskfd : t.diskfd = s.diskfd)
    (sockfd : t.sockfd = s.sockfd) (descriptors : t.descriptors = s.descriptors) : MainFds s t :=
  .keeps (by rw [diskFd, diskFd, disk, diskfd]) socket sockfd descriptors

theorem atNode_open (node : Option Nat) :
    diskOpen (atNode node) = true ∧ socketBound (atNode node) = true := by
  cases node <;> exact ⟨rfl, rfl⟩

theorem withFlag_fds {cell : FlagCell} {next : Bool → Server}
    (goes : ∀ value, MainFds s (next value)) (taken : s.withFlag cell next = t) : MainFds s t := by
  rcases withFlag_cases taken with ⟨value, _, rfl⟩ | ⟨_, rfl⟩
  · exact goes value
  · exact .keeps rfl rfl rfl rfl

theorem joinHandler_fds {node handle : Nat} (here : s.main = .joinNode node)
    (taken : joinHandler s node handle = some t) : MainFds s t := by
  unfold joinHandler at taken
  split at taken
  · cases taken
    exact .keeps rfl rfl rfl rfl
  · split at taken
    · cases taken
      exact .keeps rfl rfl rfl rfl
    · split at taken
      · cases taken
        exact keeps_phase (by rw [here]; rfl) (by rw [here]; rfl) rfl rfl rfl
      · simp at taken

theorem main_fds {answer : MainAnswer} (taken : mainStep s answer = some t) : MainFds s t := by
  unfold mainStep at taken
  split at taken
  case h_5 number here =>
    split at taken
    · rename_i fresh
      cases taken
      exact .opensDisk here fresh
    · simp at taken
  case h_7 number here =>
    split at taken
    · rename_i fresh
      cases taken
      exact .opensSocket here fresh (by split <;> exact ⟨rfl, rfl⟩)
    · simp at taken
  case h_16 here =>
    apply withFlag_fds _ (Option.some.inj taken)
    intro value
    cases value <;> exact keeps_phase (by rw [here]; rfl) (by rw [here]; rfl) rfl rfl rfl
  case h_17 here | h_18 here =>
    split at taken
    · cases taken
      exact keeps_phase (by rw [here]; rfl) (by rw [here]; rfl) rfl rfl rfl
    · simp at taken
  case h_19 here =>
    apply withFlag_fds _ (Option.some.inj taken)
    intro value
    exact keeps_phase (by rw [here]; rfl) (by rw [here]; rfl) rfl rfl rfl
  case h_20 here =>
    cases taken
    obtain ⟨disk, socket⟩ := atNode_open s.threads.first
    exact keeps_phase (by rw [here]; exact disk) (by rw [here]; exact socket) rfl rfl rfl
  case h_21 node here =>
    split at taken
    · cases taken
      exact .keeps rfl rfl rfl rfl
    · exact joinHandler_fds here taken
  case h_22 node here | h_23 node here =>
    split at taken
    · cases taken
      exact .keeps rfl rfl rfl rfl
    · cases taken
      exact keeps_phase (by rw [here]; rfl) (by rw [here]; rfl) rfl rfl rfl
  case h_24 tmp node here =>
    split at taken
    · cases taken
      exact .keeps rfl rfl rfl rfl
    · cases taken
      obtain ⟨disk, socket⟩ := atNode_open node
      exact keeps_phase (by rw [here]; exact disk) (by rw [here]; exact socket) rfl rfl rfl
  case h_26 here =>
    cases taken
    exact .closesSocket here
  case h_27 here =>
    cases taken
    exact .closesDisk here
  case h_34 => simp at taken
  -- startup failures and the end of main
  case h_6 | h_8 | h_10 | h_13 | h_15 | h_33 =>
    cases taken
    exact .keeps rfl rfl rfl rfl
  all_goals
    rename_i here
    cases taken
    exact keeps_phase (by rw [here]; rfl) (by rw [here]; rfl) rfl rfl rfl

theorem descriptors_boot (daemonMode : Bool) (file : OpenFile) :
    Descriptors [] (boot daemonMode file) where
  books := ⟨List.nodup_nil, fun _ => Iff.rfl⟩
  one := Nat.zero_le 1
  late := by simp

theorem descriptors_same (held : Descriptors leaked s) (fds : heldFds t = heldFds s)
    (descriptors : t.descriptors = s.descriptors)
    (late : leaked ≠ [] → t.listen = .closeSocket ∨ t.listen = .finished) :
    Descriptors leaked t where
  books := by rw [fds, descriptors]; exact held.books
  one := held.one
  late := late

theorem descriptors_aside (held : Descriptors leaked s) (main : t.main = s.main)
    (listen : t.listen = s.listen) (sockfd : t.sockfd = s.sockfd) (diskfd : t.diskfd = s.diskfd)
    (opens : openFds t = openFds s) (descriptors : t.descriptors = s.descriptors) :
    Descriptors leaked t := by
  apply descriptors_same held _ descriptors
  · rw [listen]
    exact held.late
  · rw [heldFds, heldFds, diskFd, diskFd, socketFd, socketFd, owned, owned, main, listen, sockfd,
      diskfd, opens]

theorem socketFd_same (phase : t.main = s.main) (sockfd : t.sockfd = s.sockfd)
    (before : s.listen ≠ .finished) (after : t.listen ≠ .finished) : socketFd t = socketFd s := by
  simp only [socketFd, phase, sockfd, before, after, ne_eq, not_false_eq_true]

theorem main_keeps_owned {answer : MainAnswer} (life : Lifetimes s) (listing : Listing s)
    (taken : mainStep s answer = some t) : owned t = owned s := by
  have opens := openFds_of_connections (main_keeps_connections life listing taken)
  rw [owned, owned, opens]
  rcases main_keeps_listen life (mainStep_moves taken) with same | ⟨before, started⟩
  · rw [same]
  · rw [before, started]
    rfl

theorem descriptors_main {answer : MainAnswer} (life : Lifetimes s) (listing : Listing s)
    (closed : ClosedTwice s) (held : Descriptors leaked s) (taken : mainStep s answer = some t) :
    Descriptors leaked t := by
  have listens := main_keeps_listen life (mainStep_moves taken)
  have same := main_keeps_owned life listing taken
  have late : leaked ≠ [] → t.listen = .closeSocket ∨ t.listen = .finished := by
    intro some_leaked
    rcases listens with kept | ⟨before, _⟩
    · rw [kept]
      exact held.late some_leaked
    · have now := held.late some_leaked
      simp [before] at now
  have listen := life.listen
  obtain ⟨books, one, _⟩ := held
  cases main_fds taken with
  | keeps disk socket sockfd descriptors =>
    apply descriptors_same ⟨books, one, ‹_›⟩ _ descriptors late
    have socketSame : socketFd t = socketFd s := by
      rcases listens with kept | ⟨before, started⟩
      · rw [socketFd, socketFd, socket, kept, sockfd]
      · simp [socketFd, socket, sockfd, before, started]
    rw [heldFds, heldFds, disk, socketSame, same]
  | @opensDisk number here fresh =>
    refine ⟨?_, one, late⟩
    rw [inUse_obtained]
    apply accounted_obtained books fresh.2
    rw [heldFds, heldFds, same]
    simp [diskFd, socketFd, here, diskOpen, socketBound]
  | @opensSocket number next here fresh there =>
    refine ⟨?_, one, late⟩
    rw [here] at listen
    have idle : s.listen = .notStarted := listen
    rw [inUse_obtained]
    apply accounted_obtained books fresh.2
    rw [heldFds, heldFds, same]
    simp only [diskFd, socketFd, there.1, there.2, here, idle, ne_eq, reduceCtorEq,
      not_false_eq_true, and_self, ↓reduceIte]
    exact List.Perm.swap _ _ _
  | closesSocket here =>
    refine ⟨?_, one, late⟩
    rw [here] at listen
    have ended : s.listen = .finished := listen
    have foreign : s.sockfd ∉ heldFds s ++ leaked :=
      fun member => closed.byListenLoop ended ((books.same _).mpr member)
    have fds : heldFds { s with
        descriptors := s.descriptors ++ [.closed s.sockfd]
        main := .closeDisk } = heldFds s := by
      rw [heldFds, heldFds, same]
      simp [diskFd, socketFd, here, ended, diskOpen]
    rw [inUse_snoc, afterEvent, fds]
    exact accounted_foreign books foreign
  | closesDisk here =>
    refine ⟨?_, one, late⟩
    rw [here] at listen
    have ended : s.listen = .finished := listen
    rw [inUse_snoc, afterEvent]
    apply accounted_released books
    rw [heldFds, heldFds, same]
    simp [diskFd, socketFd, here, ended, diskOpen]

theorem listen_ends {answer : ListenAnswer} (held : Descriptors leaked s)
    (taken : listenStep s answer = some t) (some_leaked : leaked ≠ []) : t.listen = .finished := by
  rcases held.late some_leaked with here | here
  · cases answer <;> simp only [listenStep, here, Option.some.injEq, reduceCtorEq] at taken
    rw [← taken]
  · simp [listenStep, here] at taken

theorem listening_bound (life : Lifetimes s) (here : Running s.listen) :
    socketBound s.main = true := by
  have serving := listening_stage life here
  cases phase : s.main <;> rw [phase] at serving <;> first | rfl | cases serving

theorem listen_keeps {answer : ListenAnswer} (held : Descriptors leaked s)
    (taken : listenStep s answer = some t) (fds : heldFds t = heldFds s)
    (descriptors : t.descriptors = s.descriptors) : Descriptors leaked t :=
  descriptors_same held fds descriptors fun some_leaked =>
    Or.inr (listen_ends held taken some_leaked)

theorem heldFds_split (s : Server) (leaked : List Int) : heldFds s ++ leaked =
    (diskFd s ++ socketFd s) ++ (inHand s.listen ++ (openFds s ++ leaked)) := by
  simp [heldFds, owned]

theorem listening_perm {later : List Int} (more : List Int)
    (perm : (inHand t.listen ++ (openFds t ++ later)).Perm
      (more ++ (inHand s.listen ++ (openFds s ++ leaked)))) (phase : t.main = s.main)
    (diskfd : t.diskfd = s.diskfd) (sockfd : t.sockfd = s.sockfd) (before : s.listen ≠ .finished)
    (after : t.listen ≠ .finished) : (heldFds t ++ later).Perm (more ++ (heldFds s ++ leaked)) := by
  have socket := socketFd_same phase sockfd before after
  have disk : diskFd t = diskFd s := by rw [diskFd, diskFd, phase, diskfd]
  rw [heldFds_split, heldFds_split, disk, socket]
  apply (perm.append_left _).trans
  rw [← List.append_assoc, ← List.append_assoc more]
  exact List.perm_append_comm.append_right _

theorem passed_fds (next : ListenPhase) (going : s.listen ≠ .finished) (goes : next ≠ .finished)
    (hands : inHand next = inHand s.listen) : heldFds { s with listen := next } = heldFds s := by
  have socket : socketFd { s with listen := next } = socketFd s := socketFd_same rfl rfl going goes
  have same : owned { s with listen := next } = owned s := by
    rw [owned, owned, hands]
    rfl
  rw [heldFds, heldFds, socket, same]
  rfl

theorem drops_leaks {connection : Accepted} (held : Descriptors leaked s)
    (here : s.listen = .finalCheck connection) (accepted : connection ≠ notAccepted) :
    Descriptors [connection.fd] { s with listen := .closeSocket } := by
  obtain rfl : leaked = [] := by
    by_contra some_leaked
    have late := held.late some_leaked
    simp [here] at late
  refine ⟨?_, Nat.le_refl 1, fun _ => Or.inl rfl⟩
  apply accounted_passed held.books
  refine List.Perm.symm (listening_perm [] ?_ rfl rfl rfl (by simp [here]) (by simp))
  have before : inHand s.listen = [connection.fd] := by simp [inHand, here, accepted]
  rw [before, List.append_nil]
  exact @List.perm_append_comm _ (openFds s) [connection.fd]

theorem starts_handler {connection : Accepted}
    (here : s.listen = .createThread connection) :
    (heldFds s ++ leaked).Perm (heldFds { s with
      handlers := s.handlers ++ [⟨connection.fd, connection.peer, .begin, false⟩]
      listen := .addThread s.handlers.length } ++ leaked) := by
  refine List.Perm.symm (listening_perm [] ?_ rfl rfl rfl (by simp [here]) (by simp))
  have before : inHand s.listen = [connection.fd] := by simp [inHand, here]
  have opens : openFds { s with
      handlers := s.handlers ++ [⟨connection.fd, connection.peer, .begin, false⟩]
      listen := .addThread s.handlers.length } = openFds s ++ [connection.fd] := by
    rw [openFds, openFds_snoc]
    rfl
  rw [before, opens, List.append_assoc]
  exact List.perm_middle

theorem descriptors_listen {answer : ListenAnswer} {events : List DispatchEvent}
    (life : Lifetimes s) (lowered : s.listen = .finalCheck notAccepted → s.runFlag ≠ .live true)
    (held : Descriptors leaked s) (running : Running s.listen)
    (taken : listenStep s answer = some t) (moves : DispatchMoves s events t) :
    ∃ leaked, Descriptors leaked t := by
  have going := running.2
  cases moves with
  | @polls value next idle nextIdle goes _ =>
    have fds := passed_fds next going goes (by rw [idle_inHand nextIdle, idle_inHand idle])
    exact ⟨leaked, listen_keeps held taken fds rfl⟩
  | @goes next idle nextIdle goes _ =>
    have fds := passed_fds next going goes (by rw [idle_inHand nextIdle, idle_inHand idle])
    exact ⟨leaked, listen_keeps held taken fds rfl⟩
  | skipsAccept here flag =>
    have fds := passed_fds (.finalCheck notAccepted) going (by simp) (by rw [here]; rfl)
    exact ⟨leaked, listen_keeps held taken fds rfl⟩
  | @accepts connection here fresh =>
    refine ⟨leaked, ?_, held.one, fun some_leaked => Or.inr (listen_ends held taken some_leaked)⟩
    rw [inUse_obtained]
    apply accounted_obtained held.books fresh.2
    refine listening_perm [connection.fd] ?_ rfl rfl rfl going (by simp)
    have before : inHand s.listen = [] := by simp [inHand, here]
    have after : inHand (.finalCheck connection) = [connection.fd] := by
      simp [inHand, fresh_accepted fresh]
    rw [before, after]
    exact List.Perm.refl _
  | @keeps connection here flag =>
    have accepted := kept_accepted lowered here flag
    have fds := passed_fds (.allocState connection) going (by simp) (by
      rw [here]
      simp [inHand, accepted])
    exact ⟨leaked, listen_keeps held taken fds rfl⟩
  | @drops connection here flag =>
    by_cases accepted : connection = notAccepted
    · have fds := passed_fds .closeSocket going (by simp) (by
        rw [here, accepted]
        rfl)
      exact ⟨leaked, listen_keeps held taken fds rfl⟩
    · exact ⟨[connection.fd], drops_leaks held here accepted⟩
  | @allocates connection here =>
    have fds := passed_fds (.createThread connection) going (by simp) (by rw [here]; rfl)
    exact ⟨leaked, listen_keeps held taken fds rfl⟩
  | @starts connection here =>
    refine ⟨leaked, ?_, held.one, fun some_leaked => Or.inr (listen_ends held taken some_leaked)⟩
    exact accounted_passed held.books (starts_handler here)
  | @lists handle here =>
    have fds := passed_fds .top going (by simp) (by rw [here]; rfl)
    exact ⟨leaked, listen_keeps held taken fds rfl⟩
  | closes here =>
    refine ⟨leaked, ?_, held.one, fun _ => Or.inr rfl⟩
    rw [inUse_snoc, afterEvent]
    apply accounted_released held.books
    have socket : socketFd s = [s.sockfd] := by
      rw [socketFd, if_pos ⟨listening_bound life running, going⟩]
    have hands : inHand s.listen = [] := by simp [inHand, here]
    rw [heldFds_split, heldFds_split, socket, hands]
    simp [socketFd, inHand, diskFd, openFds, List.perm_middle]
  | ends => exact ⟨leaked, listen_keeps held taken rfl rfl⟩

theorem handler_fds {index : Nat} (moves : HandlerMoves s index t) :
    (t.descriptors = s.descriptors ∧ openFds t = openFds s) ∨
      ∃ fd, t.descriptors = s.descriptors ++ [.closed fd] ∧
        (openFds s).Perm (fd :: openFds t) := by
  have kept {handler next : HandlerThread} (found : s.handlers[index]? = some handler)
      (same : openFd next = openFd handler) : openFds (s.setHandler index next) = openFds s :=
    congrArg List.reduceOption (setHandler_map found same)
  cases moves with
  | goes found live nextLive _ _ =>
    exact Or.inl ⟨rfl, kept found (by simp [openFd, live, nextLive])⟩
  | locks found here _ => exact Or.inl ⟨rfl, kept found (by simp [openFd, here])⟩
  | writes found here => exact Or.inl ⟨rfl, kept found (by simp [openFd, here])⟩
  | unlocks found here => exact Or.inl ⟨rfl, kept found (by simp [openFd, here])⟩
  | @closes handler found here =>
    obtain ⟨front, back, before, after⟩ := openFds_close found (by simp [here])
    refine Or.inr ⟨handler.sockfd, rfl, ?_⟩
    rw [before]
    exact (List.perm_middle).trans (List.Perm.of_eq (congrArg _ after.symm))
  | ends found live => exact Or.inl ⟨rfl, rfl⟩

theorem handler_keeps_disk {index : Nat} (moves : HandlerMoves s index t) :
    t.diskfd = s.diskfd := by
  cases moves <;> rfl

theorem descriptors_handler {index : Nat} (held : Descriptors leaked s)
    (moves : HandlerMoves s index t) : Descriptors leaked t := by
  obtain ⟨main, listen, _, _, sockfd, _, _, _, _⟩ := aside_handler moves
  have diskfd := handler_keeps_disk moves
  rcases handler_fds moves with ⟨descriptors, opens⟩ | ⟨fd, descriptors, opens⟩
  · exact descriptors_aside held main listen sockfd diskfd opens descriptors
  · refine ⟨?_, held.one, by rw [listen]; exact held.late⟩
    rw [descriptors, inUse_snoc, afterEvent]
    apply accounted_released held.books
    have disk : diskFd t = diskFd s := by rw [diskFd, diskFd, main, diskfd]
    have socket : socketFd t = socketFd s := by rw [socketFd, socketFd, main, listen, sockfd]
    rw [heldFds_split, heldFds_split, disk, socket, listen]
    have inside := ((opens.append_right leaked).append_left (inHand s.listen)).trans
      List.perm_middle
    exact (inside.append_left _).trans List.perm_middle

theorem descriptors_step {log : List DispatchEvent} {action : Action} (life : Lifetimes s)
    (listing : Listing s) (closed : ClosedTwice s) (balanced : Balanced log s)
    (held : Descriptors leaked s) (taken : machine.step s action = some t) :
    ∃ leaked, Descriptors leaked t := by
  cases step_moves taken with
  | main taken _ => exact ⟨leaked, descriptors_main life listing closed held taken⟩
  | @listen answer _ moves =>
    have listens := listen_taken taken
    have running : Running s.listen := by
      constructor
      · intro before
        simp [listenStep, before] at listens
      · intro ended
        simp [listenStep, ended] at listens
    exact descriptors_listen life balanced.lowered held running listens (dispatch_moves listens)
  | stamp moves =>
    refine ⟨leaked, ?_⟩
    cases moves <;> exact descriptors_aside held rfl rfl rfl rfl rfl rfl
  | handler _ moves => exact ⟨leaked, descriptors_handler held moves⟩
  | @client index event handler found =>
    have opens : openFds (s.setHandler index { handler with peer := handler.peer.onEvent event }) =
        openFds s := congrArg List.reduceOption (setHandler_map found rfl)
    exact ⟨leaked, descriptors_aside held rfl rfl rfl rfl opens rfl⟩
  | signal moves =>
    refine ⟨leaked, ?_⟩
    cases moves <;> exact descriptors_aside held rfl rfl rfl rfl rfl rfl

def handlerUses (diskfd : Int) (handler : HandlerThread) : List Int :=
  match handler.phase with
  | .recv _ => [handler.sockfd]
  | .critical _ call =>
      match call.phase with
      | .echo _ => [handler.sockfd]
      | .unlock => []
      | _ => [diskfd]
  | .close => [handler.sockfd]
  | _ => []

/-- The descriptor that the system call of a step is made on; main's close of the listening
    socket is left out. -/
def usedFds (s : Server) : Action → List Int
  | .main _ => if s.main = .closeDisk then [s.diskfd] else []
  | .listen _ =>
      match s.listen with
      | .listenCall | .acceptCall | .closeSocket => [s.sockfd]
      | _ => []
  | .stamp _ =>
      match s.stamp with
      | .print _ => [s.diskfd]
      | _ => []
  | .handler index _ =>
      match s.handlers[index]? with
      | none => []
      | some handler => handlerUses s.diskfd handler
  | _ => []

theorem held_disk (opened : diskOpen s.main = true) : s.diskfd ∈ heldFds s := by
  simp [heldFds, diskFd, opened]

theorem held_socket (bound : socketBound s.main = true) (going : s.listen ≠ .finished) :
    s.sockfd ∈ heldFds s := by
  simp [heldFds, socketFd, bound, going]

theorem held_connection {index : Nat} {handler : HandlerThread}
    (found : s.handlers[index]? = some handler) (live : handler.phase ≠ .finished) :
    handler.sockfd ∈ heldFds s := by
  have member : handler.sockfd ∈ openFds s := by
    rw [openFds, List.reduceOption_mem_iff]
    apply List.mem_map.mpr
    exact ⟨handler, List.mem_of_getElem? found, by rw [openFd, if_neg live]⟩
  simp [heldFds, owned, member]

/-- A handler runs while the data file is open: main closes it after the joins. -/
theorem live_disk {index : Nat} {handler : HandlerThread} (life : Lifetimes s) (listing : Listing s)
    (found : s.handlers[index]? = some handler) (live : handler.phase ≠ .finished) :
    diskOpen s.main = true := by
  have early (before : s.listen = .notStarted) : False := by
    rw [life.handlers before] at found
    simp at found
  have late (done : drainPoint s.main = .done) : False := by
    have joined := (listing.joined index handler found).mpr (by rw [done]; exact Nat.zero_le _)
    exact live (listing.ended handler (List.mem_of_getElem? found) joined)
  have listen := life.listen
  cases main : s.main <;> rw [main] at listen late <;>
    first | rfl | exact absurd rfl late | exact (early listen).elim

theorem stamping_disk {rest : List UInt8} (life : Lifetimes s) (here : s.stamp = .print rest) :
    diskOpen s.main = true := by
  have stamp := life.stamp
  rw [here] at stamp
  cases main : s.main <;> rw [main] at stamp <;> first | rfl | cases stamp

theorem used_held {action : Action} (life : Lifetimes s) (listing : Listing s)
    (taken : step s action = some t) : ∀ fd ∈ usedFds s action, fd ∈ heldFds s := by
  intro fd used
  cases action with
  | main answer =>
    simp only [usedFds] at used
    split at used
    · rename_i here
      rw [List.mem_singleton.mp used]
      exact held_disk (by rw [here]; rfl)
    · simp at used
  | listen answer =>
    have bound (running : Running s.listen) : s.sockfd ∈ heldFds s :=
      held_socket (listening_bound life running) running.2
    simp only [usedFds] at used
    split at used
    case h_4 => simp at used
    all_goals
      rename_i here
      rw [List.mem_singleton.mp used]
      exact bound (by simp [Running, here])
  | stamp answer =>
    simp only [usedFds] at used
    split at used
    · rename_i rest here
      rw [List.mem_singleton.mp used]
      exact held_disk (stamping_disk life here)
    · simp at used
  | handler index answer =>
    simp only [usedFds] at used
    split at used
    · simp at used
    · rename_i handler found
      simp only [handlerUses] at used
      split at used
      · rename_i state here
        rw [List.mem_singleton.mp used]
        exact held_connection found (by simp [here])
      · rename_i state call here
        have live : handler.phase ≠ .finished := by simp [here]
        split at used
        · rw [List.mem_singleton.mp used]
          exact held_connection found live
        · simp at used
        · rw [List.mem_singleton.mp used]
          exact held_disk (live_disk life listing found live)
      · rename_i here
        rw [List.mem_singleton.mp used]
        exact held_connection found (by simp [here])
      · simp at used
  | client index event => simp [usedFds] at used
  | signal signal => simp [usedFds] at used

theorem descriptors_run {daemonMode : Bool} {file : OpenFile} {actions : List Action}
    (run : machine.run (boot daemonMode file) actions = some s) : ∃ leaked, Descriptors leaked s := by
  induction actions using List.reverseRecOn generalizing s with
  | nil =>
    obtain rfl := Option.some.inj run
    exact ⟨[], descriptors_boot daemonMode file⟩
  | append_singleton past action ih =>
    obtain ⟨mid, before, taken⟩ := run_snoc_iff.mp run
    obtain ⟨leaked, held⟩ := ih before
    obtain ⟨life, listing⟩ := invariant_run listing_step
      ⟨lifetimes_boot daemonMode file, listing_boot daemonMode file⟩ before
    obtain ⟨_, closed⟩ := invariant_run closed_step
      ⟨lifetimes_boot daemonMode file, closed_boot daemonMode file⟩ before
    exact descriptors_step life listing closed (balanced_run before) held taken

/-- In every run the numbers in use are those held, each by one user, and at most one that
    is lost; every call but one is on a number held, and that one, the second close of the
    listening socket, is on a number that is not in use at all. -/
theorem every_call_is_on_a_held_descriptor {daemonMode : Bool} {file : OpenFile}
    {actions : List Action} (run : machine.run (boot daemonMode file) actions = some s) :
    (∃ leaked, Descriptors leaked s) ∧
      (∀ action t, machine.step s action = some t → ∀ fd ∈ usedFds s action, fd ∈ heldFds s) ∧
      (s.main = .closeSocket → s.sockfd ∉ inUse s.descriptors) := by
  obtain ⟨life, listing⟩ := invariant_run listing_step
    ⟨lifetimes_boot daemonMode file, listing_boot daemonMode file⟩ run
  obtain ⟨_, closed⟩ := invariant_run closed_step
    ⟨lifetimes_boot daemonMode file, closed_boot daemonMode file⟩ run
  refine ⟨descriptors_run run, ?_, ?_⟩
  · intro action t taken
    exact used_held life listing taken
  · intro here
    exact closed.byListenLoop (drained_listen_finished life (by rw [here]; rfl))

theorem one_client_holds_three :
    (∃ leaked, Descriptors leaked clientInRecv) ∧ heldFds clientInRecv = [3, 4, 5] :=
  ⟨(every_call_is_on_a_held_descriptor one_client_run).1, by decide⟩

end DescriptorUse
