import Aesd.ConnectionRefinement
import Aesd.PacketSchedules

/-! The threads of the server work on the data file one after the other. Whatever the disk,
    the sockets and the scheduler do, the file and the echoes are what handle_packet and the
    timestamp make of them as whole calls, in the order in which they get the mutex. -/
namespace SerialCommits
open TransitionRuns SimulatedRuns WriteAll PacketAppend PacketSteps PacketSchedules SharedLog

inductive Commit (Conn : Type*) where
  | packet (conn : Conn) (msg : List UInt8) (schedules : Schedules)
  | timestamp (text : List UInt8) (offers : List Int)
  deriving DecidableEq, Repr

/-- dprintf as one call, for what it still has to print. -/
def dprintf : List Int → OpenFile → List UInt8 → Option OpenFile
  | [], _, _ => none
  | offer :: later, file, rest =>
      let loop : WriteLoop := ⟨rest, 0⟩
      let after := file.append (loop.accepted offer)
      if offer ≤ 0 then some after
      else if rest.drop offer.toNat = [] then some after
      else dprintf later after (rest.drop offer.toNat)

structure Serial (Conn : Type*) where
  file : OpenFile
  echoes : Conn → List (List UInt8)

section Commits
variable {Conn : Type*} [DecidableEq Conn]

def Commit.thread : Commit Conn → Thread Conn
  | .packet conn _ _ => .handler conn
  | .timestamp _ _ => .timestamp

def Commit.msgOf (conn : Conn) : Commit Conn → Option (List UInt8)
  | .packet other msg _ => if other = conn then some msg else none
  | .timestamp _ _ => none

def msgsOf (conn : Conn) (commits : List (Commit Conn)) : List (List UInt8) :=
  commits.filterMap (Commit.msgOf conn)

/-- Only a call that returns lets another thread go on. -/
def commitStep (s : Serial Conn) : Commit Conn → Option (Serial Conn)
  | .packet conn msg schedules =>
      match handlePacket s.file msg schedules with
      | some ⟨file, sent, .returned⟩ =>
          some ⟨file, Function.update s.echoes conn (s.echoes conn ++ [sent])⟩
      | _ => none
  | .timestamp text offers =>
      (dprintf offers s.file (timestampRecord text)).map fun file => { s with file := file }

def serialMachine : Machine (Serial Conn) (Commit Conn) := ⟨commitStep⟩

/-- A finished section without its packet, as the system calls of a run show it. -/
inductive Section (Conn : Type*) where
  | packet (conn : Conn) (schedules : Schedules)
  | timestamp (text : List UInt8) (offers : List Int)
  deriving DecidableEq, Repr

def Commit.calls : Commit Conn → Section Conn
  | .packet conn _ schedules => .packet conn schedules
  | .timestamp text offers => .timestamp text offers

/-- The finished sections of a run, and the answers in the section that is under way. -/
structure Tally (Conn : Type*) where
  finished : List (Section Conn)
  answers : List PacketAnswer
  text : List UInt8
  offers : List Int
  deriving DecidableEq, Repr

def Tally.next (tally : Tally Conn) : SharedLog.Action Conn → Tally Conn
  | .lock _ => { tally with answers := [] }
  | .answer _ result => { tally with answers := tally.answers ++ [result] }
  | .unlock conn =>
      { tally with finished := tally.finished ++ [.packet conn (schedulesOf tally.answers)] }
  | .stampLock => { tally with offers := [] }
  | .stampFormat text => { tally with text := text }
  | .stampPrint offer => { tally with offers := tally.offers ++ [offer] }
  | .stampUnlock =>
      { tally with finished := tally.finished ++ [.timestamp tally.text tally.offers] }

def tallied (actions : List (SharedLog.Action Conn)) : Tally Conn :=
  actions.foldl Tally.next ⟨[], [], [], []⟩

/-- How far a handler is in the call for the packet now, which found the file as before. An
    answer on which the process exits does not lead on. -/
def HandlerAhead (before : OpenFile) (tally : Tally Conn) (s : System Conn) (conn : Conn)
    (now : List (List UInt8)) : Prop :=
  match (s.handlers conn).call with
  | none => now = [] ∧ s.mutex ≠ some (.handler conn)
  | some call => s.mutex = some (.handler conn) ∧ ∃ msg answers, now = [msg] ∧
      packetMachine.run ⟨before, beginPacket msg⟩ answers = some ⟨s.file, call⟩ ∧
      answers <+: tally.answers ∧ (s.exited = none → answers = tally.answers)

def StampAhead (before : OpenFile) (tally : Tally Conn) (s : System Conn) : Prop :=
  match s.stamp with
  | .waiting => s.mutex ≠ some .timestamp
  | .formatting => s.mutex = some .timestamp ∧ s.file = before ∧ tally.offers = []
  | .printing rest => s.mutex = some .timestamp ∧ ∀ later,
      dprintf (tally.offers ++ later) before (timestampRecord tally.text) =
        dprintf later s.file rest
  | .unlocking => s.mutex = some .timestamp ∧
      dprintf tally.offers before (timestampRecord tally.text) = some s.file

/-- The invariant: all but the section that is under way is committed. -/
structure Committed (base : OpenFile) (packets : Conn → List (List UInt8))
    (past : List (SharedLog.Action Conn)) (commits : List (Commit Conn)) (before : Serial Conn)
    (s : System Conn) : Prop where
  serial : serialMachine.run ⟨base, fun _ => []⟩ commits = some before
  sections : commits.map Commit.calls = (tallied past).finished
  order : commits.map Commit.thread ++ s.mutex.toList = acquisitions past
  echoes : ∀ conn, (s.handlers conn).echoes = before.echoes conn
  handlers : ∀ conn, ∃ now, msgsOf conn commits ++ now ++ (s.handlers conn).todo = packets conn ∧
    HandlerAhead before.file (tallied past) s conn now
  stamp : StampAhead before.file (tallied past) s
  free : s.mutex = none → s.file = before.file

section Steps
variable {base before : OpenFile} {packets : Conn → List (List UInt8)}
  {past : List (SharedLog.Action Conn)} {commits : List (Commit Conn)} {done : Serial Conn}
  {s t : System Conn} {conn : Conn} {now : List (List UInt8)} {tally : Tally Conn}

omit [DecidableEq Conn] in
@[simp] theorem tallied_snoc (past : List (SharedLog.Action Conn)) (action : SharedLog.Action Conn) :
    tallied (past ++ [action]) = (tallied past).next action := by
  simp [tallied]

theorem step_live {action : SharedLog.Action Conn} (taken : step s action = some t) :
    s.exited = none := by
  unfold step at taken
  split at taken
  · simp at taken
  · rename_i live
    simpa using live

omit [DecidableEq Conn] in
theorem ahead_idle (ahead : HandlerAhead before tally s conn now)
    (other : s.mutex ≠ some (.handler conn)) : (s.handlers conn).call = none ∧ now = [] := by
  unfold HandlerAhead at ahead
  split at ahead
  · rename_i idle
    exact ⟨idle, ahead.1⟩
  · exact absurd ahead.1 other

omit [DecidableEq Conn] in
theorem ahead_of_idle (idle : (t.handlers conn).call = none)
    (other : t.mutex ≠ some (.handler conn)) : HandlerAhead before tally t conn [] := by
  unfold HandlerAhead
  rw [idle]
  exact ⟨rfl, other⟩

omit [DecidableEq Conn] in
theorem ahead_busy {call : PacketCall} (ahead : HandlerAhead before tally s conn now)
    (busy : (s.handlers conn).call = some call) :
    s.mutex = some (.handler conn) ∧ ∃ msg answers, now = [msg] ∧
      packetMachine.run ⟨before, beginPacket msg⟩ answers = some ⟨s.file, call⟩ ∧
      answers <+: tally.answers ∧ (s.exited = none → answers = tally.answers) := by
  unfold HandlerAhead at ahead
  rwa [busy] at ahead

omit [DecidableEq Conn] in
theorem stamp_idle (ahead : StampAhead before tally s) (other : s.mutex ≠ some .timestamp) :
    s.stamp = .waiting := by
  unfold StampAhead at ahead
  split at ahead
  · rename_i waiting
    exact waiting
  · exact absurd ahead.1 other
  · exact absurd ahead.1 other
  · exact absurd ahead.1 other

omit [DecidableEq Conn] in
theorem stamp_of_idle (waiting : t.stamp = .waiting) (other : t.mutex ≠ some .timestamp) :
    StampAhead before tally t := by
  unfold StampAhead
  rwa [waiting]

/-- A handler that does not have the mutex stays as it is in any step that does not give it
    the mutex. -/
theorem others_ahead (held : Committed base packets past commits done s) {other : Conn}
    (idle : s.mutex ≠ some (.handler other)) (same : t.handlers other = s.handlers other)
    (still : t.mutex ≠ some (.handler other)) :
    ∃ now, msgsOf other commits ++ now ++ (t.handlers other).todo = packets other ∧
      HandlerAhead before tally t other now := by
  obtain ⟨now, todo, ahead⟩ := held.handlers other
  obtain ⟨quiet, rfl⟩ := ahead_idle ahead idle
  exact ⟨[], by rwa [same], ahead_of_idle (by rw [same, quiet]) still⟩

theorem lock_committed (held : Committed base packets past commits done s)
    (taken : step s (.lock conn) = some t) :
    Committed base packets (past ++ [.lock conn]) commits done t := by
  obtain ⟨free, msg, later, echoes, idle, rfl⟩ := lock_cases taken
  have waiting := stamp_idle held.stamp (by simp [free])
  constructor
  · exact held.serial
  · rw [tallied_snoc]
    exact held.sections
  · have order := held.order
    simp only [free, Option.toList_none, List.append_nil] at order
    simp [order, SharedLog.Action.acquires]
  · intro other
    rw [← held.echoes other]
    by_cases same : other = conn
    · subst same
      simp [idle]
    · simp [same]
  · intro other
    by_cases same : other = conn
    · subst same
      obtain ⟨now, todo, ahead⟩ := held.handlers other
      obtain ⟨_, rfl⟩ := ahead_idle ahead (by simp [free])
      refine ⟨[msg], by simpa [idle] using todo, ?_⟩
      simp only [HandlerAhead, Function.update_self, true_and]
      refine ⟨msg, [], rfl, ?_, List.nil_prefix, fun _ => by rw [tallied_snoc]; rfl⟩
      rw [← held.free free]
      rfl
    · exact others_ahead held (by simp [free]) (by simp [same]) (by simpa using Ne.symm same)
  · exact stamp_of_idle waiting (by simp)
  · simp

theorem answer_committed {result : PacketAnswer} (held : Committed base packets past commits done s)
    (taken : step s (.answer conn result) = some t) :
    Committed base packets (past ++ [.answer conn result]) commits done t := by
  obtain ⟨todo, call, echoes, busy, next⟩ := answer_cases taken
  obtain ⟨now, todoIs, ahead⟩ := held.handlers conn
  obtain ⟨owns, msg, answers, rfl, run, front, now⟩ := ahead_busy ahead (by rw [busy])
  have live := now (step_live taken)
  have sections : commits.map Commit.calls = (tallied (past ++ [.answer conn result])).finished := by
    rw [tallied_snoc]
    exact held.sections
  have order : commits.map Commit.thread ++ s.mutex.toList =
      acquisitions (past ++ [.answer conn result]) := by
    simpa [SharedLog.Action.acquires] using held.order
  have waiting := stamp_idle held.stamp (by simp [owns])
  rcases next with ⟨file, next, answered, rfl⟩ | ⟨status, _, rfl⟩
  · constructor
    · exact held.serial
    · exact sections
    · exact order
    · intro other
      rw [← held.echoes other]
      by_cases same : other = conn
      · subst same
        simp [busy]
      · simp [same]
    · intro other
      by_cases same : other = conn
      · subst same
        refine ⟨[msg], by simpa [busy] using todoIs, ?_⟩
        simp only [HandlerAhead, Function.update_self, owns, true_and]
        have all : answers ++ [result] = (tallied (past ++ [.answer other result])).answers := by
          rw [tallied_snoc, live]
          rfl
        exact ⟨msg, answers ++ [result], rfl,
          run_snoc_iff.mpr ⟨_, run, packetStep_iff.mpr answered⟩, ⟨[], by rw [List.append_nil, all]⟩,
          fun _ => all⟩
      · have elsewhere : s.mutex ≠ some (.handler other) := by simpa [owns] using Ne.symm same
        exact others_ahead held elsewhere (by simp [same]) elsewhere
    · exact stamp_of_idle waiting (by simp [owns])
    · simp [owns]
  · refine ⟨held.serial, sections, order, held.echoes, ?_, stamp_of_idle waiting (by simp [owns]),
      held.free⟩
    intro other
    by_cases same : other = conn
    · subst same
      refine ⟨[msg], todoIs, ?_⟩
      simp only [HandlerAhead, busy, owns, true_and]
      refine ⟨msg, answers, rfl, by simpa [busy] using run, ?_, by simp⟩
      rw [tallied_snoc, live]
      exact List.prefix_append _ _
    · have elsewhere : s.mutex ≠ some (.handler other) := by simpa [owns] using Ne.symm same
      exact others_ahead held elsewhere rfl elsewhere

omit [DecidableEq Conn] in
theorem msgsOf_snoc [DecidableEq Conn] (conn : Conn) (commits : List (Commit Conn))
    (last : Commit Conn) :
    msgsOf conn (commits ++ [last]) = msgsOf conn commits ++ (last.msgOf conn).toList := by
  simp only [msgsOf, List.filterMap_append, List.filterMap_cons, List.filterMap_nil]
  cases last.msgOf conn <;> rfl

theorem packet_commits {serial : Serial Conn} {msg sent : List UInt8} {schedules : Schedules}
    {file : OpenFile} (handled : handlePacket serial.file msg schedules = some ⟨file, sent, .returned⟩) :
    serialMachine.step serial (.packet conn msg schedules) =
      some ⟨file, Function.update serial.echoes conn (serial.echoes conn ++ [sent])⟩ := by
  unfold serialMachine
  simp only [commitStep, handled]

theorem unlock_committed (held : Committed base packets past commits done s)
    (taken : step s (.unlock conn) = some t) :
    ∃ later done, Committed base packets (past ++ [.unlock conn]) later done t := by
  obtain ⟨todo, sent, echoes, busy, rfl⟩ := unlock_cases taken
  obtain ⟨now, todoIs, ahead⟩ := held.handlers conn
  obtain ⟨owns, msg, answers, rfl, run, _, now⟩ := ahead_busy ahead (by rw [busy])
  have live := now (step_live taken)
  have waiting := stamp_idle held.stamp (by simp [owns])
  have handled : handlePacket done.file msg (schedulesOf answers) = some ⟨s.file, sent, .returned⟩ := by
    apply handlePacket_of_steps
    have steps := @stepThrough_append answers [] _ _ run
    simpa [stepThrough] using steps
  refine ⟨commits ++ [.packet conn msg (schedulesOf answers)],
    ⟨s.file, Function.update done.echoes conn (done.echoes conn ++ [sent])⟩, ?_⟩
  constructor
  · exact run_snoc_iff.mpr ⟨done, held.serial, packet_commits handled⟩
  · rw [tallied_snoc, List.map_append, held.sections, live]
    rfl
  · have order := held.order
    rw [owns] at order
    simpa [SharedLog.Action.acquires, Commit.thread] using order
  · intro other
    by_cases same : other = conn
    · subst same
      simp [← held.echoes other, busy]
    · simp [same, held.echoes other]
  · intro other
    rw [msgsOf_snoc]
    by_cases same : other = conn
    · subst same
      refine ⟨[], by simpa [busy, Commit.msgOf] using todoIs, ?_⟩
      exact ahead_of_idle (by simp) (by simp)
    · have elsewhere : s.mutex ≠ some (.handler other) := by simpa [owns] using Ne.symm same
      obtain ⟨now, todoOther, aheadOther⟩ := held.handlers other
      obtain ⟨quiet, rfl⟩ := ahead_idle aheadOther elsewhere
      have apart : conn ≠ other := Ne.symm same
      refine ⟨[], by simpa [Commit.msgOf, apart, same] using todoOther, ?_⟩
      exact ahead_of_idle (by simpa [same] using quiet) (by simp)
  · exact stamp_of_idle waiting (by simp)
  · simp

theorem stampLock_committed (held : Committed base packets past commits done s)
    (taken : step s .stampLock = some t) :
    Committed base packets (past ++ [.stampLock]) commits done t := by
  obtain ⟨free, waiting, rfl⟩ := stampLock_cases taken
  constructor
  · exact held.serial
  · rw [tallied_snoc]
    exact held.sections
  · have order := held.order
    simp only [free, Option.toList_none, List.append_nil] at order
    simp [order, SharedLog.Action.acquires]
  · exact held.echoes
  · intro other
    exact others_ahead held (by simp [free]) rfl (by simp)
  · exact ⟨rfl, held.free free, by rw [tallied_snoc]; rfl⟩
  · simp

theorem stamping_committed {action : SharedLog.Action Conn}
    (held : Committed base packets past commits done s) (owns : s.mutex = some .timestamp)
    (quiet : action.acquires = none)
    (still : ((tallied past).next action).finished = (tallied past).finished)
    (mutex : t.mutex = s.mutex) (same : t.handlers = s.handlers)
    (stamp : StampAhead done.file ((tallied past).next action) t) :
    Committed base packets (past ++ [action]) commits done t := by
  constructor
  · exact held.serial
  · rw [tallied_snoc, still, held.sections]
  · rw [acquisitions_snoc, quiet, mutex]
    simpa using held.order
  · rw [same]
    exact held.echoes
  · intro other
    exact others_ahead held (by simp [owns]) (by rw [same]) (by simp [mutex, owns])
  · rw [tallied_snoc]
    exact stamp
  · simp [mutex, owns]

theorem stampFormat_committed {text : List UInt8} (held : Committed base packets past commits done s)
    (taken : step s (.stampFormat text) = some t) :
    Committed base packets (past ++ [.stampFormat text]) commits done t := by
  obtain ⟨formatting, rfl⟩ := stampFormat_cases taken
  have ahead := held.stamp
  simp only [StampAhead, formatting] at ahead
  obtain ⟨owns, file, none⟩ := ahead
  refine stamping_committed held owns rfl rfl rfl rfl ⟨owns, ?_⟩
  intro later
  simp only [Tally.next, none, List.nil_append, file]

theorem stampPrint_taken {offer : Int} (taken : step s (.stampPrint offer) = some t) :
    ∃ rest, s.stamp = .printing rest ∧ t = { s with
      file := s.file.append ((⟨rest, 0⟩ : WriteLoop).accepted offer)
      stamp := if offer ≤ 0 then .unlocking
        else if rest.drop offer.toNat = [] then .unlocking
        else .printing (rest.drop offer.toNat) } := by
  unfold step at taken
  split at taken
  · simp at taken
  · simp only at taken
    split at taken
    · rename_i rest printing
      exact ⟨rest, printing, (Option.some.inj taken).symm⟩
    · simp at taken

theorem stampPrint_committed {offer : Int} (held : Committed base packets past commits done s)
    (taken : step s (.stampPrint offer) = some t) :
    Committed base packets (past ++ [.stampPrint offer]) commits done t := by
  obtain ⟨rest, printing, rfl⟩ := stampPrint_taken taken
  have ahead := held.stamp
  simp only [StampAhead, printing] at ahead
  obtain ⟨owns, prints⟩ := ahead
  refine stamping_committed held owns rfl rfl rfl rfl ?_
  have here := prints [offer]
  simp only [dprintf] at here
  unfold StampAhead
  by_cases fails : offer ≤ 0
  · simp only [fails, ↓reduceIte] at here ⊢
    exact ⟨owns, here⟩
  · by_cases whole : rest.drop offer.toNat = []
    · simp only [fails, whole, ↓reduceIte] at here ⊢
      exact ⟨owns, here⟩
    · simp only [fails, whole, ↓reduceIte]
      refine ⟨owns, ?_⟩
      intro later
      simp only [Tally.next]
      rw [List.append_assoc, List.singleton_append, prints, dprintf, if_neg fails, if_neg whole]

theorem stampUnlock_committed (held : Committed base packets past commits done s)
    (taken : step s .stampUnlock = some t) :
    ∃ later done, Committed base packets (past ++ [.stampUnlock]) later done t := by
  obtain ⟨unlocking, rfl⟩ := stampUnlock_cases taken
  have ahead := held.stamp
  simp only [StampAhead, unlocking] at ahead
  obtain ⟨owns, prints⟩ := ahead
  refine ⟨commits ++ [.timestamp (tallied past).text (tallied past).offers],
    ⟨s.file, done.echoes⟩, ?_⟩
  constructor
  · refine run_snoc_iff.mpr ⟨done, held.serial, ?_⟩
    unfold serialMachine
    simp [commitStep, prints]
  · rw [tallied_snoc, List.map_append, held.sections]
    rfl
  · have order := held.order
    rw [owns] at order
    simpa [SharedLog.Action.acquires, Commit.thread] using order
  · exact held.echoes
  · intro other
    obtain ⟨now, todo, ahead⟩ := held.handlers other
    obtain ⟨quiet, rfl⟩ := ahead_idle ahead (by simp [owns])
    rw [msgsOf_snoc]
    exact ⟨[], by simpa [Commit.msgOf] using todo, ahead_of_idle quiet (by simp)⟩
  · exact stamp_of_idle rfl (by simp)
  · simp

theorem step_committed {action : SharedLog.Action Conn}
    (held : Committed base packets past commits done s) (taken : step s action = some t) :
    ∃ later done, Committed base packets (past ++ [action]) later done t := by
  cases action with
  | lock conn => exact ⟨_, _, lock_committed held taken⟩
  | answer conn result => exact ⟨_, _, answer_committed held taken⟩
  | unlock conn => exact unlock_committed held taken
  | stampLock => exact ⟨_, _, stampLock_committed held taken⟩
  | stampFormat text => exact ⟨_, _, stampFormat_committed held taken⟩
  | stampPrint offer => exact ⟨_, _, stampPrint_committed held taken⟩
  | stampUnlock => exact stampUnlock_committed held taken

end Steps

theorem start_committed (file : OpenFile) (packets : Conn → List (List UInt8)) :
    Committed file packets [] [] ⟨file, fun _ => []⟩
      (start file.content file.offset packets) where
  serial := rfl
  sections := rfl
  order := rfl
  echoes _ := rfl
  handlers conn := ⟨[], rfl, ahead_of_idle rfl (by simp [start])⟩
  stamp := stamp_of_idle rfl (by simp [start])
  free _ := rfl

theorem run_committed {file : OpenFile} {packets : Conn → List (List UInt8)}
    {actions : List (SharedLog.Action Conn)} {s : System Conn}
    (run : machine.run (start file.content file.offset packets) actions = some s) :
    ∃ commits done, Committed file packets actions commits done s := by
  have keeps (past : List (SharedLog.Action Conn)) (mid : System Conn)
      (action : SharedLog.Action Conn) (t : System Conn)
      (held : ∃ commits done, Committed file packets past commits done mid) (_ : True)
      (taken : machine.step mid action = some t) :
      ∃ commits done, Committed file packets (past ++ [action]) commits done t := by
    obtain ⟨commits, done, held⟩ := held
    exact step_committed held taken
  have begun : ∃ commits done, Committed file packets [] commits done
      (start file.content file.offset packets) := ⟨[], _, start_committed file packets⟩
  exact history_along keeps begun (along_true machine _ actions) run

end Commits

section Runs
open ServerState ServerLifetimes LogRefinement
variable {daemonMode : Bool} {file : OpenFile} {actions : List ServerSteps.Action} {s : Server}

theorem server_committed
    (run : ServerSteps.machine.run (boot daemonMode file) actions = some s) :
    ∃ x commits done, Committed file (fun conn => packetsOf conn (logTrace daemonMode file actions))
        (logSteps daemonMode file actions) commits done x ∧
      Shows (fun conn => echoesOf conn (logTrace daemonMode file actions)) s [] x := by
  have start := And.intro (lifetimes_boot daemonMode file) (shows_boot daemonMode file actions)
  obtain ⟨x, reached, _, shown⟩ := (logSimulation _).run_follows start run
  obtain ⟨commits, done, held⟩ := run_committed reached
  exact ⟨x, commits, done, held, shown⟩

/-- Every run of the server, failing disks and all, is serial: in the order in which the
    threads take the mutex, whole calls of handle_packet and whole timestamps, on the answers
    that their system calls got, make the file and the echoes, and only the owner of the
    mutex is on its way from there. -/
theorem server_is_serial
    (run : ServerSteps.machine.run (boot daemonMode file) actions = some s) :
    ∃ (commits : List (Commit Nat)) (done : Serial Nat),
      serialMachine.run ⟨file, fun _ => []⟩ commits = some done ∧
      commits.map Commit.calls = (tallied (logSteps daemonMode file actions)).finished ∧
      commits.map Commit.thread ++ (s.mutex.map ownerThread).toList =
        acquisitions (logSteps daemonMode file actions) ∧
      (s.mutex = none → s.file = done.file) ∧
      ∀ conn, echoesOf conn (logTrace daemonMode file actions) = done.echoes conn ∧
        (callOf s conn = none →
          packetsOf conn (logTrace daemonMode file actions) = msgsOf conn commits) ∧
        ∀ call, callOf s conn = some call → ∃ msg answers,
          packetsOf conn (logTrace daemonMode file actions) = msgsOf conn commits ++ [msg] ∧
          packetMachine.run ⟨done.file, beginPacket msg⟩ answers = some ⟨s.file, call⟩ ∧
          answers <+: (tallied (logSteps daemonMode file actions)).answers ∧
          (s.status = .running → answers = (tallied (logSteps daemonMode file actions)).answers) := by
  obtain ⟨x, commits, done, held, shown⟩ := server_committed run
  have handlers := shown_handlers shown
  refine ⟨commits, done, held.serial, held.sections, ?_, ?_, ?_⟩
  · rw [← shown.mutex]
    exact held.order
  · intro free
    rw [← shown.file]
    exact held.free (by rw [shown.mutex, free]; rfl)
  · intro conn
    have echoes := held.echoes conn
    obtain ⟨now, todo, ahead⟩ := held.handlers conn
    simp only [handlers, List.append_nil] at echoes todo
    refine ⟨echoes, ?_, ?_⟩
    · intro idle
      simp only [HandlerAhead, handlers, idle] at ahead
      rw [← todo, ahead.1, List.append_nil]
    · intro call busy
      simp only [HandlerAhead, handlers, busy, shown.file] at ahead
      obtain ⟨_, msg, answers, rfl, reached, front, whole⟩ := ahead
      exact ⟨msg, answers, todo.symm, reached, front, fun running => whole (shown.going running)⟩

end Runs

section Witness
open ServerState ServerSteps LogRefinement ConnectionRefinement TokenExtraction

theorem spoken_log_steps : logSteps false ⟨[], 0⟩ spokenLife =
    [.lock 0, .answer 0 (.diskWrite 1), .answer 0 (.diskWrite 1), .answer 0 (.seek true),
      .answer 0 (.read 2), .answer 0 (.socketWrite 2), .answer 0 (.read 2), .answer 0 (.seek true),
      .unlock 0] := by
  obtain ⟨sends, drained, received, extracted⟩ := speaking_steps
  obtain ⟨nothing, last⟩ := closing_steps
  rw [logSteps, spokenLife, collect_append speaking_client_run, collect_append one_client_run,
    collect_append (served_client_run spokenRest), speakingClient, closedClient, collect_cons sends,
    collect_cons received, collect_cons extracted, collect_cons nothing, collect_cons last]
  rfl

theorem spoken_line_is_one_commit :
    ∃ (commits : List (Commit Nat)) (done : Serial Nat),
      serialMachine.run ⟨⟨[], 0⟩, fun _ => []⟩ commits = some done ∧
      commits.map Commit.calls = [.packet 0 ⟨[1, 1], true, [2, 2], [2], true⟩] ∧
      done.file = ⟨[97, newline], 2⟩ ∧ msgsOf 0 commits = [[97]] ∧
      done.echoes 0 = [[97, newline]] := by
  obtain ⟨commits, done, serial, calls, _, free, own⟩ := server_is_serial spoken_life_run
  obtain ⟨echoes, idle, _⟩ := own 0
  rw [spoken_log_steps] at calls
  have packets := idle rfl
  rw [spoken_packets] at packets
  have echoed : echoesOf 0 (logTrace false ⟨[], 0⟩ spokenLife) = [[97, newline]] := spoken_echoes
  exact ⟨commits, done, serial, calls, (free rfl).symm, packets.symm, by rw [← echoes, echoed]⟩

end Witness

end SerialCommits
