import Aesd.ShutdownProgress

/-! How much main, listen_loop and print_timestamp_on_time still do once the run flag is
    lowered. Each of their steps uses up one of a number that no other step raises, but for
    the text of a last timestamp. -/
namespace BoundedShutdown
open TransitionRuns LinkedCells PacketAppend ServerState ServerSteps ServerMoves ServerLifetimes
  ThreadListing

def mainRank (total : Nat) : MainPhase → Nat
  | .finished => 1
  | .removeFile => 2
  | .freeDueFlag => 3
  | .freeListeningFlag => 4
  | .freeRunFlag => 5
  | .closeDisk => 6
  | .closeSocket => 7
  | .freeHead => 8
  | .freeNode tmp _ => 4 * tmp + 9
  | .nextNode node => 4 * node + 10
  | .removeNode node => 4 * node + 11
  | .joinNode node => 4 * node + 12
  | .firstNode => 4 * total + 9
  | .clearRunFlag => 4 * total + 10
  | .joinStamp => 4 * total + 11
  | .joinListen => 4 * total + 12
  | .reap => 4 * total + 13
  | .createListen => 4 * total + 14
  | .createStamp => 4 * total + 15
  | .setTimer => 4 * total + 16
  | .daemonize => 4 * total + 17
  | .bindSocket => 4 * total + 18
  | .openDisk => 4 * total + 19
  | .catchSigalrm => 4 * total + 20
  | .catchSigterm => 4 * total + 21
  | .catchSigint => 4 * total + 22
  | .initRunFlag => 4 * total + 23

/-- Past its last look at the flag listen_loop still starts one handler. -/
def listenRank : ListenPhase → Nat
  | .finished => 0
  | .closeSocket => 1
  | .notStarted | .top | .finalCheck _ => 2
  | .addThread _ | .acceptCheck => 3
  | .createThread _ | .acceptCall | .listenCheck => 4
  | .allocState _ | .listenCall => 5

def starting : ListenPhase → Nat
  | .allocState _ | .createThread _ => 1
  | _ => 0

def stampRank : StampPhase → Nat
  | .finished => 0
  | .notStarted | .top => 1
  | .freeStr => 2
  | .clearDue => 3
  | .unlock => 4
  | .print rest => rest.length + 5
  | .format => 6
  | .lock => 7
  | .waitRun => 8
  | .waitDue => 9

def shutdownRank (s : Server) : Nat :=
  if s.status = .running then
    mainRank (s.handlers.length + starting s.listen) s.main + listenRank s.listen +
      stampRank s.stamp
  else 0

def Stopping (s : Server) : Prop := s.runFlag = .live false ∨ s.runFlag = .freed

def service : Action → Bool
  | .main _ | .listen _ | .stamp _ => true
  | _ => false

def textLength : Action → Nat
  | .stamp (.text bytes) => (SharedLog.timestampRecord bytes).length
  | _ => 0

variable {s t : Server}

theorem mainRank_positive (total : Nat) (phase : MainPhase) : 1 ≤ mainRank total phase := by
  cases phase <;> simp [mainRank]

theorem rank_ends (running : s.status = .running) {status : Status} (stops : status ≠ .running) :
    1 + shutdownRank (s.ends status) ≤ shutdownRank s := by
  have positive := mainRank_positive (s.handlers.length + starting s.listen) s.main
  simp only [shutdownRank, Server.ends, running, stops, ↓reduceIte]
  omega

/-- A read of the flag by a thread that then goes on, or by one that meets a freed flag. -/
theorem rank_flag (running : s.status = .running) (stopping : Stopping s) {next : Bool → Server}
    (goes : 1 + shutdownRank (next false) ≤ shutdownRank s)
    (taken : s.withFlag s.runFlag next = t) : 1 + shutdownRank t ≤ shutdownRank s := by
  rcases withFlag_cases taken with ⟨value, live, rfl⟩ | ⟨_, rfl⟩
  · rcases stopping with lowered | freed
    · rw [lowered] at live
      rw [← FlagCell.live.inj live]
      exact goes
    · rw [freed] at live
      cases live
  · exact rank_ends running (by simp)

section Main

theorem rank_main (running : s.status = .running) {next : MainPhase} (status : t.status = s.status)
    (main : t.main = next) (listen : t.listen = s.listen) (stamp : t.stamp = s.stamp)
    (handlers : t.handlers.length = s.handlers.length)
    (less : 1 + mainRank (s.handlers.length + starting s.listen) next ≤
      mainRank (s.handlers.length + starting s.listen) s.main) :
    1 + shutdownRank t ≤ shutdownRank s := by
  simp only [shutdownRank, status, running, main, listen, stamp, handlers, ↓reduceIte]
  omega

theorem atNode_rank {cells : List (Cell Nat)} {start : Option Nat} {count : Nat}
    (chain : Chain cells start (descending count)) (total : Nat) :
    1 + mainRank total (atNode start) ≤ 4 * count + 9 := by
  cases count with
  | zero =>
    obtain rfl : start = none := chain
    simp [atNode, mainRank]
  | succ count =>
    obtain ⟨rfl, _⟩ := chain_first chain
    simp only [atNode, mainRank]
    omega

theorem drain_pays (running : s.status = .running) (listing : Listing s)
    (ended : s.listen = .finished) (moves : DrainMoves s t) :
    1 + shutdownRank t ≤ shutdownRank s := by
  have chain := listing.chain
  have counts := finished_counts listing ended
  cases moves with
  | clears here =>
    refine rank_main running rfl rfl rfl rfl rfl ?_
    simp only [here, mainRank]
    omega
  | begins here =>
    refine rank_main running rfl rfl rfl rfl rfl ?_
    rw [here] at chain
    have rank := atNode_rank chain (s.handlers.length + starting s.listen)
    simp only [drainPoint, DrainPoint.linked] at rank
    simp only [here, ended, starting, counts] at rank ⊢
    exact rank
  | @joins node handler here found done =>
    refine rank_main running rfl rfl rfl rfl (by simp [Server.setHandler]) ?_
    simp only [here, mainRank]
    omega
  | removes here found rest =>
    refine rank_main running rfl rfl rfl rfl rfl ?_
    simp only [here, mainRank]
    omega
  | reads here inside =>
    refine rank_main running rfl rfl rfl rfl rfl ?_
    simp only [here, mainRank]
    omega
  | frees here freed =>
    rw [here] at chain
    refine rank_main running rfl rfl rfl rfl rfl ?_
    simp only [here, mainRank]
    exact atNode_rank chain _

theorem main_pays {answer : MainAnswer} (running : s.status = .running) (stopping : Stopping s)
    (life : Lifetimes s) (listing : Listing s) (taken : mainStep s answer = some t) :
    1 + shutdownRank t ≤ shutdownRank s := by
  by_cases draining : stage s.main = .draining
  · exact drain_pays running listing (drain_finished life draining)
      (drain_moves life listing draining taken)
  · unfold mainStep at taken
    split at taken
    case h_34 => simp at taken
    case h_5 number here =>
      split at taken
      · cases taken
        refine rank_main running rfl rfl rfl rfl rfl ?_
        simp only [here, mainRank]
        omega
      · simp at taken
    case h_7 number here =>
      split at taken
      · cases taken
        refine rank_main running rfl rfl rfl rfl rfl ?_
        rw [here]
        cases s.daemonMode with
        | true => simp only [mainRank, ↓reduceIte]; omega
        | false => simp only [mainRank, Bool.false_eq_true, ↓reduceIte]; omega
      · simp at taken
    case h_16 here =>
      apply rank_flag running stopping _ (Option.some.inj taken)
      refine rank_main running rfl rfl rfl rfl rfl ?_
      simp only [here, mainRank, Bool.false_eq_true, ↓reduceIte]
      omega
    case h_17 here | h_18 here =>
      split at taken
      · cases taken
        refine rank_main running rfl rfl rfl rfl rfl ?_
        simp only [here, mainRank]
        omega
      · simp at taken
    case h_12 here =>
      cases taken
      have idle : s.stamp = .notStarted := by
        have stamp := life.stamp
        rwa [here] at stamp
      simp only [shutdownRank, running, here, idle, mainRank, stampRank, ↓reduceIte]
      omega
    case h_14 here =>
      cases taken
      have idle : s.listen = .notStarted := by
        have listen := life.listen
        rwa [here] at listen
      simp only [shutdownRank, running, here, idle, mainRank, listenRank, starting, ↓reduceIte]
      omega
    case h_19 here | h_20 here | h_21 here | h_22 here | h_23 here | h_24 here =>
      exact absurd (by rw [here]; rfl) draining
    -- startup failures and the end of main
    case h_6 | h_8 | h_10 | h_13 | h_15 | h_33 =>
      cases taken
      exact rank_ends running (by simp)
    all_goals
      rename_i here
      cases taken
      refine rank_main running rfl rfl rfl rfl rfl ?_
      simp only [here, mainRank]
      omega

end Main

section Others

theorem rank_listen (running : s.status = .running) {next : ListenPhase}
    (status : t.status = s.status) (main : t.main = s.main) (listen : t.listen = next)
    (stamp : t.stamp = s.stamp)
    (handlers : t.handlers.length + starting next = s.handlers.length + starting s.listen)
    (less : 1 + listenRank next ≤ listenRank s.listen) :
    1 + shutdownRank t ≤ shutdownRank s := by
  simp only [shutdownRank, status, running, main, listen, stamp, handlers, ↓reduceIte]
  omega

theorem listen_pays {answer : ListenAnswer} (running : s.status = .running)
    (stopping : Stopping s) (taken : listenStep s answer = some t) :
    1 + shutdownRank t ≤ shutdownRank s := by
  unfold listenStep at taken
  split at taken
  case h_18 => simp at taken
  case h_1 here | h_2 here | h_6 here | h_10 connection here =>
    refine rank_flag running stopping ?_ (Option.some.inj taken)
    refine rank_listen running rfl rfl rfl rfl ?_ ?_
    · simp [here, starting]
    · simp [here, listenRank]
  case h_7 connection here =>
    split at taken
    · cases taken
      refine rank_listen running rfl rfl rfl rfl ?_ ?_
      · simp [here, starting]
      · simp [here, listenRank]
    · simp at taken
  case h_5 | h_9 | h_12 | h_14 | h_16 =>
    cases taken
    exact rank_ends running (by simp)
  all_goals
    rename_i here
    cases taken
    refine rank_listen running rfl rfl rfl rfl ?_ ?_
    · simp [here, starting]
    · simp [here, listenRank]

theorem rank_stamp (running : s.status = .running) {next : StampPhase} (earned : Nat)
    (status : t.status = s.status) (main : t.main = s.main) (listen : t.listen = s.listen)
    (stamp : t.stamp = next) (handlers : t.handlers = s.handlers)
    (less : 1 + stampRank next ≤ stampRank s.stamp + earned) :
    1 + shutdownRank t ≤ shutdownRank s + earned := by
  simp only [shutdownRank, status, running, main, listen, stamp, handlers, ↓reduceIte]
  omega

theorem print_less (rest : List UInt8) (offer : Int) :
    1 + stampRank (if offer ≤ 0 then .unlock
      else if rest.drop offer.toNat = [] then .unlock else .print (rest.drop offer.toNat)) ≤
        stampRank (.print rest) := by
  split
  · simp only [stampRank]
    omega
  · split
    · simp only [stampRank]
      omega
    · rename_i takes more
      have some_left : 0 < (rest.drop offer.toNat).length := List.length_pos_iff.mpr more
      simp only [stampRank, List.length_drop] at some_left ⊢
      omega

theorem stamp_pays {answer : StampAnswer} (running : s.status = .running) (stopping : Stopping s)
    (taken : stampStep s answer = some t) :
    1 + shutdownRank t ≤ shutdownRank s + textLength (.stamp answer) := by
  unfold stampStep at taken
  split at taken
  case h_1 here | h_2 here =>
    refine rank_flag running stopping ?_ (Option.some.inj taken)
    refine rank_stamp running 0 rfl rfl rfl rfl rfl ?_
    simp [here, stampRank]
  case h_3 here =>
    rcases withFlag_cases (Option.some.inj taken) with ⟨due, _, rfl⟩ | ⟨_, rfl⟩
    · refine rank_stamp running 0 rfl rfl rfl rfl rfl ?_
      cases due <;> simp [here, stampRank]
    · exact rank_ends running (by simp)
  case h_4 here =>
    split at taken
    · cases taken
      refine rank_stamp running 0 rfl rfl rfl rfl rfl ?_
      simp [here, stampRank]
    · simp at taken
  case h_5 bytes here =>
    cases taken
    refine rank_stamp running _ rfl rfl rfl rfl rfl ?_
    simp only [here, stampRank, textLength]
    omega
  case h_6 rest offer here =>
    cases taken
    refine rank_stamp running 0 rfl rfl rfl rfl rfl ?_
    rw [here]
    exact print_less rest offer
  case h_8 here =>
    rcases withFlag_cases (Option.some.inj taken) with ⟨due, _, rfl⟩ | ⟨_, rfl⟩
    · refine rank_stamp running 0 rfl rfl rfl rfl rfl ?_
      simp [here, stampRank]
    · exact rank_ends running (by simp)
  case h_7 here | h_9 here =>
    cases taken
    refine rank_stamp running 0 rfl rfl rfl rfl rfl ?_
    simp [here, stampRank]
  case h_10 => simp at taken

theorem rank_aside (running : s.status = .running) (aside : Aside s t) :
    shutdownRank t ≤ shutdownRank s := by
  have handlers : t.handlers.length = s.handlers.length := by
    simpa using congrArg List.length aside.joined
  simp only [shutdownRank, running, aside.main, aside.listen, aside.stamp, handlers, ↓reduceIte]
  split
  · exact Nat.le_refl _
  · exact Nat.zero_le _

end Others

structure Shutting (s : Server) : Prop where
  life : Lifetimes s
  listing : Listing s
  stopping : Stopping s

theorem stopping_main {answer : MainAnswer} (life : Lifetimes s) (stopping : Stopping s)
    (moves : MainMoves s answer t) : Stopping t := by
  cases moves with
  | initRunFlag here =>
    have unset := life.runFlag
    rw [here] at unset
    have unset : s.runFlag = .unset := unset
    simp [Stopping, unset] at stopping
  | clearsRun here flag => exact Or.inl rfl
  | freesRun here => exact Or.inr rfl
  | _ => exact stopping

theorem stopping_aside (stopping : Stopping s) (aside : Aside s t) : Stopping t := by
  rcases aside.runFlag with same | stored
  · rw [Stopping, same]
    exact stopping
  · rw [Stopping, stored]
    rcases stopping with lowered | freed
    · exact Or.inl (by rw [lowered]; rfl)
    · exact Or.inr (by rw [freed]; rfl)

theorem shutting_step (s : Server) (action : Action) (t : Server) (held : Shutting s)
    (taken : machine.step s action = some t) : Shutting t := by
  obtain ⟨life, listing, stopping⟩ := held
  obtain ⟨later, lists⟩ := listing_step s action t ⟨life, listing⟩ taken
  refine ⟨later, lists, ?_⟩
  cases step_moves taken with
  | main _ moves => exact stopping_main life stopping moves
  | listen moves => cases moves <;> exact stopping
  | stamp moves => cases moves <;> exact stopping
  | handler _ moves => exact stopping_aside stopping (aside_handler moves)
  | client found => exact stopping_aside stopping (aside_client found _)
  | signal moves => exact stopping_aside stopping (aside_signal moves)

theorem step_pays (s : Server) (action : Action) (t : Server) (held : Shutting s) (_ : True)
    (taken : machine.step s action = some t) :
    (if service action then 1 else 0) + shutdownRank t ≤ shutdownRank s + textLength action := by
  obtain ⟨life, listing, stopping⟩ := held
  have running := step_running taken
  have idle (other : service action = false) (aside : Aside s t) :
      (if service action then 1 else 0) + shutdownRank t ≤ shutdownRank s + textLength action := by
    have kept := rank_aside running aside
    rw [other]
    simp only [Bool.false_eq_true, ↓reduceIte]
    omega
  cases step_moves taken with
  | main main _ => exact main_pays running stopping life listing main
  | listen _ => exact listen_pays running stopping (listen_taken taken)
  | stamp _ => exact stamp_pays running stopping (stamp_taken taken)
  | handler _ moves => exact idle rfl (aside_handler moves)
  | client found => exact idle rfl (aside_client found _)
  | signal moves => exact idle rfl (aside_signal moves)

def unprinted : StampPhase → Nat
  | .print rest => rest.length
  | _ => 0

theorem mainRank_bound {total : Nat} {phase : MainPhase} (started : phase ≠ .initRunFlag)
    (inside : ∀ node next, phase = .joinNode node ∨ phase = .removeNode node ∨
      phase = .nextNode node ∨ phase = .freeNode node next → node < total) :
    mainRank total phase ≤ 4 * total + 22 := by
  cases phase with
  | initRunFlag => exact absurd rfl started
  | joinNode node =>
    have below := inside node none (by simp)
    simp only [mainRank]
    omega
  | removeNode node =>
    have below := inside node none (by simp)
    simp only [mainRank]
    omega
  | nextNode node =>
    have below := inside node none (by simp)
    simp only [mainRank]
    omega
  | freeNode node next =>
    have below := inside node next (by simp)
    simp only [mainRank]
    omega
  | _ =>
    simp only [mainRank]
    omega

theorem listen_bound (total : Nat) (phase : ListenPhase) :
    4 * (total + starting phase) + listenRank phase ≤ 4 * total + 9 := by
  cases phase <;> simp only [starting, listenRank] <;> omega

theorem stampRank_bound (phase : StampPhase) : stampRank phase ≤ 9 + unprinted phase := by
  cases phase <;> simp only [stampRank, unprinted] <;> omega

theorem drain_inside (life : Lifetimes s) (listing : Listing s) :
    ∀ node next, s.main = .joinNode node ∨ s.main = .removeNode node ∨ s.main = .nextNode node ∨
      s.main = .freeNode node next → node < s.handlers.length := by
  have chain := listing.chain
  have cursor := listing.cursor
  intro node next here
  have ended : s.listen = .finished := by
    apply drain_finished life
    rcases here with here | here | here | here <;> rw [here] <;> rfl
  rw [finished_counts listing ended]
  rcases here with here | here | here | here
  · rw [here] at chain
    exact (chain_first chain).2
  · rw [here] at chain
    exact (chain_first chain).2
  · rw [here] at cursor
    obtain ⟨cell, found, _⟩ := cursor
    obtain ⟨inside, _⟩ := List.getElem?_eq_some_iff.mp (read_eq_some_iff.mp found).1
    exact inside
  · rw [here] at cursor
    exact cursor.1

theorem shutdownRank_bound (life : Lifetimes s) (listing : Listing s)
    (started : s.main ≠ .initRunFlag) :
    shutdownRank s ≤ 4 * s.handlers.length + 40 + unprinted s.stamp := by
  have inside : ∀ node next, s.main = .joinNode node ∨ s.main = .removeNode node ∨
      s.main = .nextNode node ∨ s.main = .freeNode node next →
        node < s.handlers.length + starting s.listen := by
    intro node next here
    have below := drain_inside life listing node next here
    omega
  have main := mainRank_bound started inside
  have listen := listen_bound s.handlers.length s.listen
  have stamp := stampRank_bound s.stamp
  unfold shutdownRank
  split <;> omega

theorem lowered_rank {daemonMode : Bool} {file : OpenFile} {past : List Action}
    (run : machine.run (boot daemonMode file) past = some s) (lowered : s.runFlag = .live false) :
    Shutting s ∧ shutdownRank s ≤ 4 * s.handlers.length + 40 + unprinted s.stamp := by
  obtain ⟨life, listing, _⟩ := ShutdownProgress.settled_run run
  have started : s.main ≠ .initRunFlag := by
    intro here
    have unset := life.runFlag
    rw [here, lowered] at unset
    cases unset
  exact ⟨⟨life, listing, Or.inl lowered⟩, shutdownRank_bound life listing started⟩

theorem service_paid {later : List Action} (shutting : Shutting s)
    (further : machine.run s later = some t) :
    later.countP service ≤ shutdownRank s + (later.map textLength).sum := by
  have covered := tally_covered shutting_step step_pays shutting (along_true machine s later) further
  rw [tally_count service further] at covered
  omega

/-- Once the run flag is lowered, main, listen_loop and print_timestamp_on_time take at most
    four steps for each handler thread and forty more, besides one for each byte of timestamps
    still to print, whatever the handlers, the clients and the signals do meanwhile. -/
theorem shutdown_is_bounded {daemonMode : Bool} {file : OpenFile} {past later : List Action}
    (run : machine.run (boot daemonMode file) past = some s) (lowered : s.runFlag = .live false)
    (further : machine.run s later = some t) :
    later.countP service ≤
      4 * s.handlers.length + 40 + unprinted s.stamp + (later.map textLength).sum := by
  obtain ⟨shutting, bound⟩ := lowered_rank run lowered
  have paid := service_paid shutting further
  omega

/-- The one client stays silent and the shutdown stops at the join of its handler. -/
theorem shutdown_with_a_client_is_bounded :
    [Action.main .ok, .listen .ok, .listen .ok, .main .ok, .stamp .ok, .main .ok,
      .main .ok, .main .ok].countP service ≤ 4 * 1 + 40 + 0 + 0 := by
  obtain ⟨s, run, lowered, handlers, stamp, further⟩ :
      ∃ s, machine.run (boot false ⟨[], 0⟩) (startup ++ oneClient ++ [.signal .sigterm]) = some s ∧
        s.runFlag = .live false ∧ s.handlers.length = 1 ∧ s.stamp = .top ∧
          (machine.run s [.main .ok, .listen .ok, .listen .ok, .main .ok, .stamp .ok, .main .ok,
            .main .ok, .main .ok]).isSome := ⟨_, rfl, rfl, rfl, rfl, rfl⟩
  obtain ⟨t, further⟩ := Option.isSome_iff_exists.mp further
  have bound := shutdown_is_bounded run lowered further
  rw [handlers, stamp] at bound
  exact bound

end BoundedShutdown
