import Mathlib.Data.List.Nodup
import Mathlib.Data.List.ReduceOption
import Aesd.DescriptorRelease
import Aesd.HandlerDispatch

/-! Who holds the descriptor of a connection: listen_loop until pthread_create, then one
    handler until it closes it. A number is given out again only after that. -/
namespace HandlerDispatch
open TransitionRuns PacketAppend ServerState ServerSteps ServerMoves ServerLifetimes ThreadListing
  DescriptorRelease

def openFd (handler : HandlerThread) : Option Int :=
  if handler.phase = .finished then none else some handler.sockfd

def openFds (s : Server) : List Int := (s.handlers.map openFd).reduceOption

def inHand (phase : ListenPhase) : List Int := unanswered phase ++ beingStarted phase

def owned (s : Server) : List Int := inHand s.listen ++ openFds s

structure Booked (s : Server) : Prop where
  server : ∀ fd, fd = s.sockfd ∨ fd = s.diskfd → fd = -1 ∨ fd ∈ inUse s.descriptors
  used : ∀ fd ∈ owned s, fd ∈ inUse s.descriptors ∧ fd ≠ s.sockfd ∧ fd ≠ s.diskfd

structure Owned (s : Server) : Prop where
  apart : (owned s).Nodup
  booked : s.listen ≠ .finished → Booked s

variable {s t : Server}

theorem owned_boot (daemonMode : Bool) (file : OpenFile) : Owned (boot daemonMode file) where
  apart := List.nodup_nil
  booked := by
    intro _
    constructor
    · intro fd which
      left
      rcases which with rfl | rfl <;> rfl
    · intro fd member
      simp [owned, inHand, openFds, boot, List.reduceOption] at member

theorem owned_same (held : Owned s) (same : owned t = owned s)
    (descriptors : t.descriptors = s.descriptors) (sockfd : t.sockfd = s.sockfd)
    (diskfd : t.diskfd = s.diskfd) (going : t.listen ≠ .finished → s.listen ≠ .finished) :
    Owned t where
  apart := by rw [same]; exact held.apart
  booked := by
    intro listening
    obtain ⟨server, used⟩ := held.booked (going listening)
    constructor
    · rwa [descriptors, sockfd, diskfd]
    · rwa [same, descriptors, sockfd, diskfd]

theorem openFds_of_connections (same : connections t = connections s) : openFds t = openFds s := by
  have opens := congrArg
    (List.map fun (fd, phase) => if phase = HandlerPhase.finished then none else some fd) same
  simp only [connections, List.map_map, Function.comp_def] at opens
  rw [openFds, openFds]
  exact congrArg List.reduceOption opens

theorem idle_inHand {phase : ListenPhase} (idle : Idle phase) : inHand phase = [] := by
  rw [inHand, idle.1, idle.2, List.nil_append]

theorem owned_before (life : Lifetimes s) (before : s.listen = .notStarted) : owned s = [] := by
  rw [owned, openFds, life.handlers before, before]
  rfl

theorem inUse_obtained (events : List FdEvent) (fd : Int) :
    inUse (events ++ [.obtained fd]) = fd :: inUse events := by
  rw [inUse_snoc, afterEvent]

theorem mem_inUse_closed {events : List FdEvent} {fd other : Int} :
    fd ∈ inUse (events ++ [.closed other]) ↔ fd ∈ inUse events ∧ fd ≠ other := by
  rw [inUse_snoc, afterEvent, List.mem_filter, decide_eq_true_eq]

theorem owned_opens {number : Int} (held : Owned s) (life : Lifetimes s)
    (before : s.listen = .notStarted) (same : owned t = owned s)
    (descriptors : t.descriptors = s.descriptors ++ [.obtained number])
    (opened : ∀ fd, fd = t.sockfd ∨ fd = t.diskfd → fd = number ∨ fd = s.sockfd ∨ fd = s.diskfd) :
    Owned t where
  apart := by rw [same]; exact held.apart
  booked := by
    intro _
    obtain ⟨server, _⟩ := held.booked (by simp [before])
    constructor
    · intro fd which
      rw [descriptors, inUse_obtained]
      rcases opened fd which with rfl | earlier
      · exact Or.inr List.mem_cons_self
      · exact (server fd earlier).imp_right (List.mem_cons_of_mem number)
    · simp [same, owned_before life before]

theorem owned_after (held : Owned s) (same : owned t = owned s) (ended : t.listen = .finished) :
    Owned t where
  apart := by rw [same]; exact held.apart
  booked := fun listening => absurd ended listening

theorem owned_main {answer : MainAnswer} (life : Lifetimes s) (listing : Listing s)
    (held : Owned s) (taken : mainStep s answer = some t) : Owned t := by
  have moves := mainStep_moves taken
  have opens := openFds_of_connections (main_keeps_connections life listing taken)
  have listens := main_keeps_listen life moves
  have same : owned t = owned s := by
    rw [owned, owned, opens]
    rcases listens with same | ⟨before, started⟩
    · rw [same]
    · rw [before, started]
      rfl
  have going : t.listen ≠ .finished → s.listen ≠ .finished := by
    rcases listens with same | ⟨before, started⟩
    · rw [same]
      exact id
    · simp [before]
  have listen := life.listen
  cases moves with
  | @opensDisk number here fresh =>
    rw [here] at listen
    apply owned_opens held life listen same rfl
    intro fd which
    rcases which with rfl | rfl
    · exact Or.inr (Or.inl rfl)
    · exact Or.inl rfl
  | @opensSocket number next here fresh there =>
    rw [here] at listen
    apply owned_opens held life listen same rfl
    intro fd which
    rcases which with rfl | rfl
    · exact Or.inl rfl
    · exact Or.inr (Or.inr rfl)
  | closesSocket here =>
    rw [here] at listen
    exact owned_after held same listen
  | closesDisk here =>
    rw [here] at listen
    exact owned_after held same listen
  | _ => exact owned_same held same rfl rfl rfl going

/-- The connection in the hands of listen_loop leaves them, or goes on as it is. -/
theorem owned_passes {next : ListenPhase} (held : Owned s)
    (inHands : (inHand next).Sublist (inHand s.listen))
    (going : s.listen ≠ .finished) : Owned { s with listen := next } := by
  have fewer : (owned { s with listen := next }).Sublist (owned s) :=
    inHands.append (List.Sublist.refl _)
  constructor
  · exact held.apart.sublist fewer
  · intro _
    obtain ⟨server, used⟩ := held.booked going
    exact ⟨server, fun fd member => used fd (fewer.subset member)⟩

theorem openFds_snoc (handlers : List HandlerThread) (handler : HandlerThread) :
    ((handlers ++ [handler]).map openFd).reduceOption =
      (handlers.map openFd).reduceOption ++ (openFd handler).toList := by
  rw [List.map_append, List.reduceOption_append]
  cases opened : openFd handler <;> simp [opened, List.reduceOption]

theorem owned_listen {events : List DispatchEvent} (held : Owned s)
    (lowered : s.listen = .finalCheck notAccepted → s.runFlag ≠ .live true)
    (going : s.listen ≠ .finished) (moves : DispatchMoves s events t) : Owned t := by
  cases moves with
  | polls idle nextIdle _ _ =>
    exact owned_passes held (by rw [idle_inHand nextIdle]; exact List.nil_sublist _) going
  | goes idle nextIdle _ _ =>
    exact owned_passes held (by rw [idle_inHand nextIdle]; exact List.nil_sublist _) going
  | skipsAccept here flag => exact owned_passes held (List.nil_sublist _) going
  | @accepts connection here fresh =>
    obtain ⟨apart, booked⟩ := held
    obtain ⟨server, used⟩ := booked going
    have hand : owned s = openFds s := by simp [owned, inHand, here]
    have next : inHand (.finalCheck connection) = [connection.fd] := by
      simp [inHand, fresh_accepted fresh]
    rw [hand] at apart used
    have unserved : ∀ fd, fd = s.sockfd ∨ fd = s.diskfd → connection.fd ≠ fd := by
      intro fd which same
      rcases server fd which with none | taken
      · rw [same, none] at fresh
        exact absurd fresh.1 (by decide)
      · rw [← same] at taken
        exact fresh.2 taken
    constructor
    · rw [owned, next]
      apply List.nodup_cons.mpr
      constructor
      · intro member
        exact fresh.2 (used _ member).1
      · exact apart
    · intro _
      constructor
      · intro fd which
        rw [inUse_obtained]
        exact (server fd which).imp_right (List.mem_cons_of_mem _)
      · intro fd member
        rw [owned, next] at member
        rw [inUse_obtained]
        rcases List.mem_cons.mp member with rfl | before
        · exact ⟨List.mem_cons_self, unserved _ (Or.inl rfl), unserved _ (Or.inr rfl)⟩
        · obtain ⟨open_, others⟩ := used fd before
          exact ⟨List.mem_cons_of_mem _ open_, others⟩
  | @keeps connection here flag =>
    have accepted := kept_accepted lowered here flag
    apply owned_passes held _ going
    rw [here]
    simp [inHand, accepted]
  | drops here flag => exact owned_passes held (List.nil_sublist _) going
  | allocates here =>
    apply owned_passes held _ going
    rw [here]
    exact List.Sublist.refl _
  | @starts connection here =>
    have moved : (owned s).Perm (owned { s with
        handlers := s.handlers ++ [⟨connection.fd, connection.peer, .begin, false⟩]
        listen := .addThread s.handlers.length }) := by
      rw [owned, owned, openFds, openFds, openFds_snoc, here]
      exact List.perm_append_comm
    obtain ⟨apart, booked⟩ := held
    obtain ⟨server, used⟩ := booked going
    constructor
    · exact moved.nodup apart
    · intro _
      exact ⟨server, fun fd member => used fd (moved.mem_iff.mpr member)⟩
  | lists here =>
    have same : owned s = openFds s := by simp [owned, inHand, here]
    exact owned_same held same.symm rfl rfl rfl (fun _ => going)
  | closes here =>
    have same : owned s = openFds s := by simp [owned, inHand, here]
    exact owned_after held same.symm rfl
  | ends => exact owned_same held rfl rfl rfl rfl id

theorem owned_set {index : Nat} {handler next : HandlerThread} (held : Owned s)
    (found : s.handlers[index]? = some handler) (same : openFd next = openFd handler)
    (handlers : t.handlers = s.handlers.set index next) (listen : t.listen = s.listen)
    (descriptors : t.descriptors = s.descriptors) (sockfd : t.sockfd = s.sockfd)
    (diskfd : t.diskfd = s.diskfd) : Owned t := by
  have opens : openFds t = openFds s := by
    have mapped := setHandler_map found same
    rw [openFds, openFds, handlers]
    exact congrArg List.reduceOption mapped
  have kept : owned t = owned s := by rw [owned, owned, listen, opens]
  apply owned_same held kept descriptors sockfd diskfd
  rw [listen]
  exact id

theorem openFds_close {index : Nat} {handler : HandlerThread}
    (found : s.handlers[index]? = some handler) (live : handler.phase ≠ .finished) :
    ∃ front back, openFds s = front ++ handler.sockfd :: back ∧
      openFds (s.setHandler index { handler with phase := .finished }) = front ++ back := by
  obtain ⟨inside, here⟩ := List.getElem?_eq_some_iff.mp found
  have split : s.handlers = s.handlers.take index ++ handler :: s.handlers.drop (index + 1) := by
    rw [← here, List.getElem_cons_drop, List.take_append_drop]
  have after : s.handlers.set index { handler with phase := .finished } = s.handlers.take index ++
      { handler with phase := .finished } :: s.handlers.drop (index + 1) := by
    rw [List.set_eq_take_append_cons_drop, if_pos inside]
  refine ⟨((s.handlers.take index).map openFd).reduceOption,
    ((s.handlers.drop (index + 1)).map openFd).reduceOption, ?_, ?_⟩
  · rw [openFds]
    conv => lhs; rw [split]
    rw [List.map_append, List.reduceOption_append, List.map_cons, openFd, if_neg live,
      List.reduceOption_cons_of_some]
  · rw [openFds, Server.setHandler, after, List.map_append, List.reduceOption_append, List.map_cons,
      openFd, if_pos rfl, List.reduceOption_cons_of_none]

theorem owned_handler {index : Nat} (held : Owned s) (moves : HandlerMoves s index t) :
    Owned t := by
  cases moves with
  | @goes handler peer next found live nextLive _ _ =>
    have same : openFd { handler with peer := peer, phase := next } = openFd handler := by
      simp [openFd, live, nextLive]
    exact owned_set held found same rfl rfl rfl rfl rfl
  | @locks handler state msg found here _ =>
    have same : openFd { handler with phase := .critical state (PacketSteps.beginPacket msg) } =
        openFd handler := by simp [openFd, here]
    exact owned_set held found same rfl rfl rfl rfl rfl
  | @writes handler state call next peer file found here =>
    have same : openFd { handler with peer := peer, phase := .critical state next } =
        openFd handler := by simp [openFd, here]
    exact owned_set held found same rfl rfl rfl rfl rfl
  | @unlocks handler state sent found here =>
    have same : openFd { handler with phase := .extract state } = openFd handler := by
      simp [openFd, here]
    exact owned_set held found same rfl rfl rfl rfl rfl
  | @closes handler found here =>
    obtain ⟨front, back, before, after⟩ := openFds_close found (by simp [here])
    obtain ⟨apart, booked⟩ := held
    rw [owned, before, ← List.append_assoc, List.nodup_middle, List.append_assoc] at apart
    obtain ⟨closed, apart⟩ := List.nodup_cons.mp apart
    have rest : owned { s.setHandler index { handler with phase := .finished } with
        descriptors := s.descriptors ++ [.closed handler.sockfd] } =
        inHand s.listen ++ (front ++ back) := congrArg _ after
    constructor
    · rwa [rest]
    · intro listening
      obtain ⟨server, used⟩ := booked listening
      rw [owned, before] at used
      have own := used handler.sockfd (by simp)
      constructor
      · intro fd which
        rw [mem_inUse_closed]
        refine (server fd which).imp_right fun taken => ⟨taken, ?_⟩
        intro same
        rcases which with rfl | rfl
        · exact own.2.1 same.symm
        · exact own.2.2 same.symm
      · intro fd member
        rw [rest] at member
        have other : fd ≠ handler.sockfd := fun same => closed (same ▸ member)
        have earlier := used fd (by
          rw [← List.append_assoc, List.mem_append] at member ⊢
          exact member.imp_right (List.mem_cons_of_mem _))
        rw [mem_inUse_closed]
        exact ⟨⟨earlier.1, other⟩, earlier.2⟩
  | ends _ _ => exact owned_same held rfl rfl rfl rfl id

theorem owned_step {log : List DispatchEvent} {action : Action} (life : Lifetimes s)
    (listing : Listing s) (balanced : Balanced log s) (held : Owned s)
    (taken : machine.step s action = some t) : Owned t := by
  cases step_moves taken with
  | main taken _ => exact owned_main life listing held taken
  | @listen answer _ moves =>
    have listens := listen_taken taken
    apply owned_listen held balanced.lowered _ (dispatch_moves listens)
    intro ended
    simp [listenStep, ended] at listens
  | stamp moves => cases moves <;> exact owned_same held rfl rfl rfl rfl id
  | handler _ moves => exact owned_handler held moves
  | @client index event handler found =>
    have same : openFd { handler with peer := handler.peer.onEvent event } = openFd handler := rfl
    exact owned_set held found same rfl rfl rfl rfl rfl
  | signal moves => cases moves <;> exact owned_same held rfl rfl rfl rfl id

theorem owned_run {daemonMode : Bool} {file : OpenFile} {actions : List Action}
    (run : machine.run (boot daemonMode file) actions = some s) : Owned s := by
  induction actions using List.reverseRecOn generalizing s with
  | nil =>
    obtain rfl := Option.some.inj run
    exact owned_boot daemonMode file
  | append_singleton past action ih =>
    obtain ⟨mid, before, taken⟩ := run_snoc_iff.mp run
    obtain ⟨life, listing⟩ := invariant_run listing_step
      ⟨lifetimes_boot daemonMode file, listing_boot daemonMode file⟩ before
    exact owned_step life listing (balanced_run before) (ih before) taken

/-- The handler threads of a state against what listen_loop has logged. Two handlers with
    one descriptor number are possible only after the first has closed it. -/
structure Dispatched (log : List DispatchEvent) (s : Server) : Prop where
  handlers : s.handlers.map HandlerThread.sockfd = startedFds log
  real : ∀ fd ∈ startedFds log, 0 ≤ fd
  once : (startedFds log).Sublist (acceptedFds log)
  apart : (openFds s).Nodup
  due : (verdict log).due = startedFds log ++ beingStarted s.listen
  completes : s.status = .running → ∃ later t, (∀ action ∈ later, action = .listen .ok) ∧
    machine.run s later = some t ∧ t.handlers.map HandlerThread.sockfd = (verdict log).due

/-- In every run, with any results of listen and accept and a signal between any two steps,
    the handlers are those of the accepted connections whose next flag check read true. -/
theorem every_due_connection_gets_one_handler {daemonMode : Bool} {file : OpenFile}
    {actions : List Action} (run : machine.run (boot daemonMode file) actions = some s) :
    Dispatched (dispatchLog daemonMode file actions) s := by
  obtain ⟨handlers, real, due, _, _⟩ := balanced_run run
  have decided := verdict_sublist (dispatchLog daemonMode file actions)
  have once : (startedFds (dispatchLog daemonMode file actions)).Sublist
      (acceptedFds (dispatchLog daemonMode file actions)) := by
    rw [due, List.append_assoc] at decided
    exact (List.sublist_append_left _ _).trans decided
  have apart := (owned_run run).apart
  rw [owned] at apart
  constructor
  · exact handlers
  · intro fd member
    exact real fd (once.subset member)
  · exact once
  · exact (List.nodup_append.mp apart).2.1
  · exact due
  · intro running
    rw [due, ← handlers]
    exact start_completes running

theorem one_client_is_dispatched :
    Dispatched [.flagRead true, .flagRead true, .flagRead true, .accepted 5, .flagRead true,
      .started 5] clientInRecv :=
  every_due_connection_gets_one_handler one_client_run

end HandlerDispatch
