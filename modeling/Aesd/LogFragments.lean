import Mathlib.Data.List.Forall2
import Aesd.SerialCommits

/-! What is left of the serialised log when writes fail. A call of write_all that gives up
    leaves a part of its record behind, but no part of it stands inside that of another
    thread, and nothing that is in the file is ever changed. -/
namespace LogFragments
open TransitionRuns SerialLog WriteAll PacketAppend PacketSteps PacketSchedules SharedLog
  SerialCommits

def PacketFragment (msg fragment : List UInt8) : Prop :=
  ∃ part ending, fragment = part ++ ending ∧ part <+: msg ∧ ending <+: newlineArray

def Appended (before msg content : List UInt8) : Prop :=
  ∃ fragment, content = before ++ fragment ∧ PacketFragment msg fragment

/-- What handle_packet keeps, write errors and all. What was sent is the file up to the
    offset, until the echo is given up. -/
def Partly (before msg : List UInt8) (s : PacketState) : Prop :=
  match s.call.phase with
  | .writeMsg loop => s.call.sent = [] ∧
      ∃ part, s.file.content = before ++ part ∧ part ++ loop.rest = msg
  | .writeNewline loop => s.call.sent = [] ∧ ∃ part ending,
      s.file.content = before ++ (part ++ ending) ∧ part <+: msg ∧ ending ++ loop.rest = newlineArray
  | .rewind => s.call.sent = [] ∧ Appended before msg s.file.content
  | .read => s.call.sent = s.file.content.take s.file.offset ∧ Appended before msg s.file.content
  | .echo loop => s.call.sent ++ loop.rest = s.file.content.take s.file.offset ∧
      Appended before msg s.file.content
  | .seekEnd => s.call.sent <+: s.file.content ∧ Appended before msg s.file.content
  | .unlock => s.call.sent <+: s.file.content ∧ Appended before msg s.file.content

theorem begin_partly (msg : List UInt8) (file : OpenFile) :
    Partly file.content msg ⟨file, beginPacket msg⟩ := by
  unfold beginPacket
  split
  · rename_i empty
    exact ⟨rfl, [], [], by simp, List.nil_prefix, rfl⟩
  · exact ⟨rfl, [], by simp, rfl⟩

theorem writeOn_any (loop : WriteLoop) (offer : Int) (more : WriteLoop → PacketPhase)
    (done failed : PacketPhase) :
    (loop.accepted offer = loop.rest ∧ writeOn loop offer more done failed = done) ∨
      (loop.accepted offer = [] ∧ writeOn loop offer more done failed = failed) ∨
      ∃ next, loop.accepted offer ++ next.rest = loop.rest ∧
        writeOn loop offer more done failed = more next := by
  cases after : loop.afterWrite offer with
  | none =>
    refine Or.inr (Or.inl ⟨accepted_gives_up after, ?_⟩)
    simp [writeOn, after]
  | some next =>
    have fine : loop.afterWrite offer ≠ none := by simp [after]
    rcases writeOn_cases fine more done failed with whole | part
    · exact Or.inl whole
    · exact Or.inr (Or.inr part)

theorem partly_msg {before msg sent : List UInt8} {file : OpenFile} {loop : WriteLoop} {offer : Int}
    (held : Partly before msg ⟨file, .writeMsg loop, sent⟩) :
    Partly before msg ⟨file.append (loop.accepted offer),
      writeOn loop offer .writeMsg beginNewline beginNewline, sent⟩ := by
  obtain ⟨nothing, part, content, whole⟩ := held
  rcases writeOn_any loop offer .writeMsg beginNewline beginNewline with
    ⟨all, goes⟩ | ⟨none, goes⟩ | ⟨next, split, goes⟩
  · rw [goes]
    refine ⟨nothing, part ++ loop.accepted offer, [], ?_, ⟨[], by rw [all, ← whole]; simp⟩, rfl⟩
    simp [show file.content = before ++ part from content]
  · rw [goes]
    refine ⟨nothing, part, [], ?_, ⟨loop.rest, whole⟩, rfl⟩
    simp [none, show file.content = before ++ part from content]
  · rw [goes]
    refine ⟨nothing, part ++ loop.accepted offer, ?_, ?_⟩
    · simp [show file.content = before ++ part from content]
    · rw [List.append_assoc, split, whole]

theorem partly_newline {before msg sent : List UInt8} {file : OpenFile} {loop : WriteLoop}
    {offer : Int} (held : Partly before msg ⟨file, .writeNewline loop, sent⟩) :
    Partly before msg ⟨file.append (loop.accepted offer),
      writeOn loop offer .writeNewline .rewind .rewind, sent⟩ := by
  obtain ⟨nothing, part, ending, content, front, whole⟩ := held
  have appended : (file.append (loop.accepted offer)).content =
      before ++ (part ++ (ending ++ loop.accepted offer)) := by
    simp [show file.content = before ++ (part ++ ending) from content]
  rcases writeOn_any loop offer .writeNewline .rewind .rewind with
    ⟨all, goes⟩ | ⟨none, goes⟩ | ⟨next, split, goes⟩
  · rw [goes]
    exact ⟨nothing, _, appended, part, _, rfl, front, ⟨[], by rw [all, whole]; simp⟩⟩
  · rw [goes]
    exact ⟨nothing, _, appended, part, _, rfl, front, ⟨loop.rest, by rw [none, ← whole]; simp⟩⟩
  · rw [goes]
    exact ⟨nothing, part, _, appended, front, by rw [List.append_assoc, split, whole]⟩

theorem partly_read {before msg sent : List UInt8} {file : OpenFile} {offer : Int}
    (held : Partly before msg ⟨file, .read, sent⟩) :
    Partly before msg ⟨⟨file.content, file.offset + (file.readReturns offer).toNat⟩,
      .echo ⟨(file.content.drop file.offset).take (file.readReturns offer).toNat, 0⟩, sent⟩ := by
  obtain ⟨upTo, appended⟩ := held
  refine ⟨?_, appended⟩
  rw [show sent = file.content.take file.offset from upTo, List.take_add]

theorem partly_echo {before msg sent : List UInt8} {file : OpenFile} {loop : WriteLoop} {offer : Int}
    (held : Partly before msg ⟨file, .echo loop, sent⟩) :
    Partly before msg ⟨file, writeOn loop offer .echo .read .seekEnd, sent ++ loop.accepted offer⟩ := by
  obtain ⟨upTo, appended⟩ := held
  rcases writeOn_any loop offer .echo .read .seekEnd with
    ⟨all, goes⟩ | ⟨none, goes⟩ | ⟨next, split, goes⟩
  · rw [goes]
    exact ⟨by rw [all, upTo], appended⟩
  · rw [goes]
    refine ⟨?_, appended⟩
    have front : sent <+: file.content.take file.offset := ⟨loop.rest, upTo⟩
    rw [none, List.append_nil]
    exact front.trans (List.take_prefix _ _)
  · rw [goes]
    exact ⟨by rw [List.append_assoc, split, upTo], appended⟩

theorem packetStep_partly {before msg : List UInt8} {s t : PacketState} {answer : PacketAnswer}
    (held : Partly before msg s) (taken : packetStep s answer = some t) : Partly before msg t := by
  obtain ⟨file, phase, sent⟩ := s
  obtain ⟨after, next⟩ := t
  have goes := packetStep_iff.mp taken
  unfold PacketCall.onAnswer at goes
  split at goes
  · rename_i loop offer here
    obtain rfl : phase = .writeMsg loop := here
    obtain ⟨rfl, rfl⟩ := PacketNext.goes.inj (Option.some.inj goes)
    exact partly_msg held
  · rename_i loop offer here
    obtain rfl : phase = .writeNewline loop := here
    obtain ⟨rfl, rfl⟩ := PacketNext.goes.inj (Option.some.inj goes)
    exact partly_newline held
  · rename_i ok here
    obtain rfl : phase = .rewind := here
    split at goes
    · obtain ⟨rfl, rfl⟩ := PacketNext.goes.inj (Option.some.inj goes)
      exact ⟨held.1, held.2⟩
    · simp at goes
  · rename_i offer here
    obtain rfl : phase = .read := here
    simp only at goes
    split at goes
    · obtain ⟨rfl, rfl⟩ := PacketNext.goes.inj (Option.some.inj goes)
      refine ⟨?_, held.2⟩
      rw [show sent = file.content.take file.offset from held.1]
      exact List.take_prefix _ _
    · obtain ⟨rfl, rfl⟩ := PacketNext.goes.inj (Option.some.inj goes)
      exact partly_read held
  · rename_i loop offer here
    obtain rfl : phase = .echo loop := here
    obtain ⟨rfl, rfl⟩ := PacketNext.goes.inj (Option.some.inj goes)
    exact partly_echo held
  · rename_i ok here
    obtain rfl : phase = .seekEnd := here
    split at goes
    · obtain ⟨rfl, rfl⟩ := PacketNext.goes.inj (Option.some.inj goes)
      exact held
    · simp at goes
  · simp at goes

theorem partly_appended {before msg : List UInt8} {s : PacketState} (held : Partly before msg s) :
    Appended before msg s.file.content := by
  unfold Partly at held
  split at held
  · rename_i loop here
    obtain ⟨_, part, content, whole⟩ := held
    exact ⟨part, content, part, [], by simp, ⟨loop.rest, whole⟩, List.nil_prefix⟩
  · rename_i loop here
    obtain ⟨_, part, ending, content, front, whole⟩ := held
    exact ⟨part ++ ending, content, part, ending, rfl, front, ⟨loop.rest, whole⟩⟩
  all_goals exact held.2

theorem partly_sent {before msg : List UInt8} {s : PacketState} (held : Partly before msg s) :
    s.call.sent <+: s.file.content := by
  unfold Partly at held
  split at held
  · rw [held.1]
    exact List.nil_prefix
  · rw [held.1]
    exact List.nil_prefix
  · rw [held.1]
    exact List.nil_prefix
  · rw [held.1]
    exact List.take_prefix _ _
  · rename_i loop here
    have front : s.call.sent <+: s.file.content.take s.file.offset := ⟨loop.rest, held.1⟩
    exact front.trans (List.take_prefix _ _)
  · exact held.1
  · exact held.1

theorem packet_partly {file : OpenFile} {msg : List UInt8} {answers : List PacketAnswer}
    {t : PacketState} (run : packetMachine.run ⟨file, beginPacket msg⟩ answers = some t) :
    Partly file.content msg t := by
  have keeps (s : PacketState) (answer : PacketAnswer) (t : PacketState)
      (held : Partly file.content msg s) (taken : packetMachine.step s answer = some t) :
      Partly file.content msg t := packetStep_partly held taken
  exact invariant_run keeps (begin_partly msg file) run

theorem run_of_stepThrough {answers : List PacketAnswer} {file after : OpenFile} {call : PacketCall}
    {sent : List UInt8} (steps : stepThrough answers file call = some ⟨after, sent, .returned⟩) :
    packetMachine.run ⟨file, call⟩ answers = some ⟨after, .unlock, sent⟩ := by
  induction answers generalizing file call with
  | nil =>
    rw [stepThrough] at steps
    split at steps
    · rename_i here
      obtain ⟨phase, _⟩ := call
      obtain rfl : phase = .unlock := here
      cases steps
      rfl
    · simp at steps
  | cons answer later ih =>
    rw [stepThrough] at steps
    split at steps
    · simp at steps
    · split at steps <;> simp at steps
    · rename_i next rest goes
      exact run_cons_iff.mpr ⟨⟨next, rest⟩, packetStep_iff.mpr goes, ih steps⟩

theorem handlePacket_fragment {file after : OpenFile} {msg sent : List UInt8}
    {schedules : Schedules} (handled : handlePacket file msg schedules = some ⟨after, sent, .returned⟩) :
    Appended file.content msg after.content ∧ sent <+: after.content := by
  rw [handlePacket_finish] at handled
  obtain ⟨answers, _, _, steps⟩ := steps_of_finish (begin_busy msg) handled
  have held := packet_partly (run_of_stepThrough steps)
  exact ⟨partly_appended held, partly_sent held⟩

theorem dprintf_fragment {offers : List Int} {file after : OpenFile} {rest : List UInt8}
    (printed : dprintf offers file rest = some after) :
    ∃ fragment, after.content = file.content ++ fragment ∧ fragment <+: rest := by
  induction offers generalizing file rest with
  | nil => simp [dprintf] at printed
  | cons offer later ih =>
    have front : (⟨rest, 0⟩ : WriteLoop).accepted offer <+: rest := List.take_prefix _ _
    simp only [dprintf] at printed
    split at printed
    · cases printed
      exact ⟨_, append_content _ _, front⟩
    · rename_i gains
      split at printed
      · cases printed
        exact ⟨_, append_content _ _, front⟩
      · obtain ⟨fragment, content, within⟩ := ih printed
        rw [accepted_gain (by omega)] at content
        rw [append_content, List.append_assoc] at content
        refine ⟨_, content, ?_⟩
        have whole := (List.prefix_append_right_inj (rest.take offer.toNat)).mpr within
        rwa [List.take_append_drop] at whole

section Commits
variable {Conn : Type*} [DecidableEq Conn]

/-- A log of fragments, each under the thread that wrote it; taken are the packets for which
    each handler has had the mutex. -/
structure FragmentLog (base : List UInt8) (threads : List (Thread Conn))
    (taken : Conn → List (List UInt8)) (content : List UInt8)
    (fragments : List (Thread Conn × List UInt8)) : Prop where
  content : content = contents base fragments
  threads : fragments.map Prod.fst = threads
  packets : ∀ conn, List.Forall₂ PacketFragment (taken conn) (recordsOf (.handler conn) fragments)
  stamps : ∀ fragment ∈ recordsOf .timestamp fragments, ∃ text, fragment <+: timestampRecord text

structure Fragmented (base : List UInt8) (commits : List (Commit Conn)) (done : Serial Conn)
    (fragments : List (Thread Conn × List UInt8)) : Prop where
  log : FragmentLog base (commits.map Commit.thread) (fun conn => msgsOf conn commits)
    done.file.content fragments
  echoes : ∀ conn, ∀ echo ∈ done.echoes conn, echo <+: done.file.content

variable {base content : List UInt8} {threads : List (Thread Conn)}
  {taken : Conn → List (List UInt8)} {fragments : List (Thread Conn × List UInt8)}

theorem fragmentLog_packet {msg fragment : List UInt8} (conn : Conn)
    (held : FragmentLog base threads taken content fragments) (fits : PacketFragment msg fragment) :
    FragmentLog base (threads ++ [.handler conn])
      (fun other => taken other ++ if other = conn then [msg] else []) (content ++ fragment)
      (fragments ++ [(.handler conn, fragment)]) := by
  constructor
  · rw [contents_snoc, held.content]
  · simp [held.threads]
  · intro other
    by_cases same : other = conn
    · subst same
      rw [recordsOf_own, if_pos rfl]
      exact List.rel_append (held.packets other) (.cons fits .nil)
    · have apart : Thread.handler conn ≠ Thread.handler other := by simpa using Ne.symm same
      rw [recordsOf_other apart, if_neg same, List.append_nil]
      exact held.packets other
  · rw [recordsOf_other (by simp)]
    exact held.stamps

theorem fragmentLog_stamp {text fragment : List UInt8}
    (held : FragmentLog base threads taken content fragments)
    (fits : fragment <+: timestampRecord text) :
    FragmentLog base (threads ++ [.timestamp]) taken (content ++ fragment)
      (fragments ++ [(.timestamp, fragment)]) := by
  constructor
  · rw [contents_snoc, held.content]
  · simp [held.threads]
  · intro conn
    rw [recordsOf_other (by simp)]
    exact held.packets conn
  · intro last member
    rw [recordsOf_own, List.mem_append, List.mem_singleton] at member
    rcases member with earlier | new
    · exact held.stamps last earlier
    · exact ⟨text, by rwa [new]⟩

variable {commits : List (Commit Conn)} {done next : Serial Conn}

theorem packet_fragmented {conn : Conn} {msg : List UInt8} {schedules : Schedules}
    (held : Fragmented base commits done fragments)
    (goes : commitStep done (.packet conn msg schedules) = some next) :
    ∃ fragment, Fragmented base (commits ++ [.packet conn msg schedules]) next
      (fragments ++ [(.handler conn, fragment)]) := by
  unfold commitStep at goes
  simp only at goes
  split at goes
  · rename_i file sent handled
    cases goes
    obtain ⟨⟨fragment, content, fits⟩, echoed⟩ := handlePacket_fragment handled
    refine ⟨fragment, ?_, ?_⟩
    · have further := fragmentLog_packet conn held.log fits
      have msgs : (fun other => msgsOf other (commits ++ [.packet conn msg schedules])) =
          fun other => msgsOf other commits ++ if other = conn then [msg] else [] := by
        funext other
        rw [msgsOf_snoc]
        by_cases same : conn = other <;> simp [Commit.msgOf, same, eq_comm]
      rw [List.map_append, msgs, content]
      exact further
    · intro other echo member
      have front : done.file.content <+: file.content := ⟨fragment, content.symm⟩
      by_cases same : other = conn
      · subst same
        simp only [Function.update_self, List.mem_append, List.mem_singleton] at member
        rcases member with earlier | last
        · exact (held.echoes other echo earlier).trans front
        · rw [last]
          exact echoed
      · simp only [Function.update_of_ne same] at member
        exact (held.echoes other echo member).trans front
  · simp at goes

theorem timestamp_fragmented {text : List UInt8} {offers : List Int}
    (held : Fragmented base commits done fragments)
    (goes : commitStep done (.timestamp text offers) = some next) :
    ∃ fragment, Fragmented base (commits ++ [.timestamp text offers]) next
      (fragments ++ [(.timestamp, fragment)]) := by
  obtain ⟨file, printed, rfl⟩ := Option.map_eq_some_iff.mp goes
  obtain ⟨fragment, content, fits⟩ := dprintf_fragment printed
  refine ⟨fragment, ?_, ?_⟩
  · have further := fragmentLog_stamp held.log fits
    have msgs : (fun conn => msgsOf conn (commits ++ [.timestamp text offers])) =
        fun conn => msgsOf conn commits := by
      funext conn
      rw [msgsOf_snoc]
      simp [Commit.msgOf]
    rw [List.map_append, msgs, content]
    exact further
  · intro conn echo member
    exact (held.echoes conn echo member).trans ⟨fragment, content.symm⟩

theorem commits_fragmented {file : OpenFile}
    (serial : serialMachine.run ⟨file, fun _ => []⟩ commits = some done) :
    ∃ fragments, Fragmented file.content commits done fragments := by
  have keeps (past : List (Commit Conn)) (mid : Serial Conn) (commit : Commit Conn)
      (t : Serial Conn) (held : ∃ fragments, Fragmented file.content past mid fragments) (_ : True)
      (goes : serialMachine.step mid commit = some t) :
      ∃ fragments, Fragmented file.content (past ++ [commit]) t fragments := by
    obtain ⟨fragments, held⟩ := held
    cases commit with
    | packet conn msg schedules =>
      obtain ⟨fragment, after⟩ := packet_fragmented held goes
      exact ⟨_, after⟩
    | timestamp text offers =>
      obtain ⟨fragment, after⟩ := timestamp_fragmented held goes
      exact ⟨_, after⟩
  have nothing : FragmentLog file.content [] (fun conn : Conn => msgsOf conn []) file.content [] :=
    ⟨by simp [contents], rfl, fun _ => .nil, by simp [recordsOf]⟩
  have begun : ∃ fragments, Fragmented file.content [] (⟨file, fun _ => []⟩ : Serial Conn) fragments :=
    ⟨[], nothing, by simp⟩
  exact history_along keeps begun (along_true serialMachine _ commits) serial

omit [DecidableEq Conn]
variable {before : OpenFile} {tally : Tally Conn} {x : System Conn} {conn : Conn}
  {now : List (List UInt8)}

theorem handler_fragment (ahead : HandlerAhead before tally x conn now)
    (owns : x.mutex = some (.handler conn)) :
    ∃ msg fragment, now = [msg] ∧ x.file.content = before.content ++ fragment ∧
      PacketFragment msg fragment := by
  unfold HandlerAhead at ahead
  split at ahead
  · exact absurd owns ahead.2
  · obtain ⟨_, msg, answers, only, run, _⟩ := ahead
    obtain ⟨fragment, content, fits⟩ := partly_appended (packet_partly run)
    exact ⟨msg, fragment, only, content, fits⟩

theorem stamp_fragment (ahead : StampAhead before tally x) (owns : x.mutex = some .timestamp) :
    ∃ text fragment, x.file.content = before.content ++ fragment ∧
      fragment <+: timestampRecord text := by
  unfold StampAhead at ahead
  split at ahead
  · exact absurd owns ahead
  · exact ⟨[], [], by rw [ahead.2.1, List.append_nil], List.nil_prefix⟩
  · obtain ⟨_, prints⟩ := ahead
    -- a dprintf that failed here would leave the file as it is
    have here : dprintf (tally.offers ++ [0]) before (timestampRecord tally.text) = some x.file := by
      rw [prints]
      simp [dprintf, accepted_fail, append_nil_file]
    obtain ⟨fragment, content, within⟩ := dprintf_fragment here
    exact ⟨tally.text, fragment, content, within⟩
  · obtain ⟨fragment, content, within⟩ := dprintf_fragment ahead.2
    exact ⟨tally.text, fragment, content, within⟩

theorem handler_sent {call : PacketCall} (ahead : HandlerAhead before tally x conn now)
    (busy : (x.handlers conn).call = some call) : call.sent <+: x.file.content := by
  obtain ⟨_, msg, answers, _, run, _⟩ := ahead_busy ahead busy
  exact partly_sent (packet_partly run)

end Commits

/-- The log of a state of the shared log, the section under way included. -/
theorem committed_log {Conn : Type*} [DecidableEq Conn] {file : OpenFile}
    {packets : Conn → List (List UInt8)} {past : List (SharedLog.Action Conn)}
    {commits : List (Commit Conn)} {done : Serial Conn} {x : System Conn}
    (held : Committed file packets past commits done x)
    (all : ∀ conn, (x.handlers conn).todo = []) :
    ∃ fragments, FragmentLog file.content (acquisitions past) packets x.file.content fragments ∧
      ∀ conn, (∀ echo ∈ (x.handlers conn).echoes, echo <+: x.file.content) ∧
        ∀ call, (x.handlers conn).call = some call → call.sent <+: x.file.content := by
  obtain ⟨fragments, log, echoes⟩ := commits_fragmented held.serial
  have order := held.order
  have whole (grown : done.file.content <+: x.file.content) (conn : Conn) :
      (∀ echo ∈ (x.handlers conn).echoes, echo <+: x.file.content) ∧
        ∀ call, (x.handlers conn).call = some call → call.sent <+: x.file.content := by
    obtain ⟨now, _, ahead⟩ := held.handlers conn
    refine ⟨?_, fun call busy => handler_sent ahead busy⟩
    intro echo member
    rw [held.echoes conn] at member
    exact (echoes conn echo member).trans grown
  have quiet (conn : Conn) (other : x.mutex ≠ some (.handler conn)) :
      packets conn = msgsOf conn commits := by
    obtain ⟨now, todo, ahead⟩ := held.handlers conn
    obtain ⟨_, rfl⟩ := ahead_idle ahead other
    simpa [all conn] using todo.symm
  cases owner : x.mutex with
  | none =>
    have same : packets = fun conn => msgsOf conn commits := by
      funext conn
      exact quiet conn (by simp [owner])
    rw [owner, Option.toList_none, List.append_nil] at order
    have file := held.free owner
    rw [← order, same]
    have grown : done.file.content <+: x.file.content := ⟨[], by rw [file, List.append_nil]⟩
    rw [← file] at log
    exact ⟨fragments, log, whole grown⟩
  | some thread =>
    rw [owner, Option.toList_some] at order
    rw [← order]
    cases thread with
    | handler conn =>
      obtain ⟨now, todo, ahead⟩ := held.handlers conn
      obtain ⟨msg, fragment, rfl, content, fits⟩ := handler_fragment ahead owner
      have same : packets = fun other => msgsOf other commits ++ if other = conn then [msg] else [] := by
        funext other
        by_cases here : other = conn
        · subst here
          simpa [all other] using todo.symm
        · rw [quiet other (by simpa [owner] using Ne.symm here), if_neg here, List.append_nil]
      have further := fragmentLog_packet conn log fits
      rw [← content] at further
      rw [same]
      exact ⟨_, further, whole ⟨fragment, content.symm⟩⟩
    | timestamp =>
      obtain ⟨text, fragment, content, within⟩ := stamp_fragment held.stamp owner
      have same : packets = fun conn => msgsOf conn commits := by
        funext conn
        exact quiet conn (by simp [owner])
      have further := fragmentLog_stamp log within
      rw [← content] at further
      rw [same]
      exact ⟨_, further, whole ⟨fragment, content.symm⟩⟩

section Runs
open ServerState LogRefinement
variable {daemonMode : Bool} {file : OpenFile} {actions : List ServerSteps.Action} {s : Server}

/-- Whatever fails, the data file is what was there at the start and behind it one fragment
    for each time the mutex was taken, in that order: of each handler one of each of its
    packets, and of timestamps. What a client has been sent is the file up to some point. -/
theorem server_file_is_a_log_of_fragments
    (run : ServerSteps.machine.run (boot daemonMode file) actions = some s) :
    ∃ fragments : List (Thread Nat × List UInt8),
      s.file.content = contents file.content fragments ∧
      fragments.map Prod.fst = acquisitions (logSteps daemonMode file actions) ∧
      (∀ conn, List.Forall₂ PacketFragment (packetsOf conn (logTrace daemonMode file actions))
        (recordsOf (.handler conn) fragments)) ∧
      (∀ fragment ∈ recordsOf .timestamp fragments, ∃ text, fragment <+: timestampRecord text) ∧
      ∀ conn, (∀ echo ∈ echoesOf conn (logTrace daemonMode file actions), echo <+: s.file.content) ∧
        ∀ call, callOf s conn = some call → call.sent <+: s.file.content := by
  obtain ⟨x, commits, done, held, shown⟩ := server_committed run
  have handlers := shown_handlers shown
  obtain ⟨fragments, log, read⟩ := committed_log held (by simp [handlers])
  rw [shown.file] at log read
  simp only [handlers] at read
  exact ⟨fragments, log.content, log.threads, log.packets, log.stamps, read⟩

def tornTimestamp : List ServerSteps.Action :=
  ServerSteps.startup ++ ServerSteps.oneClient ++ [.signal .sigalrm, .stamp .ok, .stamp .ok,
    .stamp .ok, .stamp .ok, .stamp (.text [48]), .stamp (.prints 4), .stamp (.prints 0),
    .stamp .ok]

theorem torn_timestamp_is_a_fragment :
    ∃ fragments : List (Thread Nat × List UInt8),
      [120, 10] ++ [116, 105, 109, 101] = contents [120, 10] fragments ∧
        fragments.map Prod.fst = [.timestamp] := by
  obtain ⟨fragments, content, order, _⟩ :=
    @server_file_is_a_log_of_fragments false ⟨[120, 10], 0⟩ tornTimestamp _ rfl
  exact ⟨fragments, content, order⟩

end Runs

end LogFragments
