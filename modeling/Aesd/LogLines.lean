import Aesd.PacketProvenance
import Aesd.TimestampText

/-! The data file as lines. What the server writes is read back line by line: packets and
    timestamps have no newline of their own, and each record ends with one. -/
namespace LogLines
open TransitionRuns SerialLog SeparatedSegments SharedLog

section Texts
variable {Conn : Type*} [DecidableEq Conn]

def formats : Action Conn → Option (List UInt8)
  | .stampFormat text => some text
  | _ => none

def formattedTexts (actions : List (Action Conn)) : List (List UInt8) := actions.filterMap formats

variable {base : List UInt8} {packets : Conn → List (List UInt8)} {past : List (Action Conn)}
  {appends : List (Thread Conn × List UInt8)} {s t : System Conn}

def Dated (past : List (Action Conn)) (appends : List (Thread Conn × List UInt8)) : Prop :=
  recordsOf .timestamp appends = (formattedTexts past).map timestampRecord

theorem dated_quiet {action : Action Conn} (quiet : formats action = none)
    (dated : Dated past appends) : Dated (past ++ [action]) appends := by
  simpa [Dated, formattedTexts, quiet] using dated

theorem step_dated {action : Action Conn} (held : Serialised base packets past appends s)
    (dated : Dated past appends) (fine : Undisturbed s action) (taken : step s action = some t) :
    ∃ later, Serialised base packets (past ++ [action]) later t ∧ Dated (past ++ [action]) later := by
  cases action with
  | lock conn =>
    obtain ⟨msg, keeps⟩ := lock_appends held taken
    refine ⟨_, keeps, ?_⟩
    apply dated_quiet rfl
    rw [Dated, recordsOf_other (by simp)]
    exact dated
  | answer conn result => exact ⟨_, answer_keeps held fine taken, dated_quiet rfl dated⟩
  | unlock conn => exact ⟨_, unlock_keeps held taken, dated_quiet rfl dated⟩
  | stampLock => exact ⟨_, stampLock_keeps held taken, dated_quiet rfl dated⟩
  | stampFormat text =>
    refine ⟨_, stampFormat_keeps held taken, ?_⟩
    rw [Dated, recordsOf_own, dated]
    simp [formattedTexts, formats]
  | stampPrint offer => exact ⟨_, stampPrint_keeps held fine taken, dated_quiet rfl dated⟩
  | stampUnlock => exact ⟨_, stampUnlock_keeps held taken, dated_quiet rfl dated⟩

theorem run_dated {offset : Nat} {actions : List (Action Conn)}
    (undisturbed : machine.Along Undisturbed (start base offset packets) actions)
    (run : machine.run (start base offset packets) actions = some s) :
    ∃ appends, Serialised base packets actions appends s ∧ Dated actions appends := by
  have keeps (past : List (Action Conn)) (mid : System Conn) (action : Action Conn)
      (t : System Conn)
      (held : ∃ appends, Serialised base packets past appends mid ∧ Dated past appends)
      (fine : Undisturbed mid action) (taken : machine.step mid action = some t) :
      ∃ appends, Serialised base packets (past ++ [action]) appends t ∧
        Dated (past ++ [action]) appends := by
    obtain ⟨appends, held, dated⟩ := held
    exact step_dated held dated fine taken
  have begun : ∃ appends, Serialised base packets [] appends (start base offset packets) ∧
      Dated [] appends := ⟨[], start_serialised base offset packets, rfl⟩
  exact history_along keeps begun undisturbed run

end Texts

section Lines
open TokenExtraction PacketAppend
variable {Owner : Type*} {base : List UInt8} {appends front : List (Owner × List UInt8)}

def Lined (appends : List (Owner × List UInt8)) : Prop :=
  ∀ append ∈ appends, newline ∉ append.2.dropLast ∧ append.2 = append.2.dropLast ++ [newline]

def linesOf (appends : List (Owner × List UInt8)) : List (Owner × List UInt8) :=
  appends.map fun append => (append.1, append.2.dropLast)

theorem dropLast_newline (line : List UInt8) : (line ++ newlineArray).dropLast = line :=
  List.dropLast_concat

theorem lined_flatten (lined : Lined appends) :
    (appends.map Prod.snd).flatten =
      ((linesOf appends).map Prod.snd).flatMap fun line => line ++ [newline] := by
  rw [linesOf, List.map_map, List.flatMap_map, List.flatMap_def]
  congr 1
  apply List.map_congr_left
  intro append member
  exact (lined append member).2

theorem lined_reads (whole : remainder newline base = []) (lined : Lined appends) :
    segments newline (contents base appends) =
        segments newline base ++ (linesOf appends).map Prod.snd ∧
      remainder newline (contents base appends) = [] := by
  have free : ∀ line ∈ (linesOf appends).map Prod.snd, newline ∉ line := by
    intro line member
    simp only [linesOf, List.map_map, List.mem_map] at member
    obtain ⟨append, inside, rfl⟩ := member
    exact (lined append inside).1
  obtain ⟨read, rest⟩ := segments_lines free
  rw [contents, segments_append, remainder_append, whole, List.nil_append, lined_flatten lined]
  exact ⟨by rw [read], rest⟩

end Lines

section Runs
open PacketAppend ServerState ServerSteps LogRefinement TokenExtraction TimestampText PacketProvenance
  ConnectionRefinement
variable {daemonMode : Bool} {file : OpenFile} {actions : List ServerSteps.Action} {s t : Server}

def stampText : ServerSteps.Action → Option (List UInt8)
  | .stamp (.text text) => some text
  | _ => none

def stampTexts (actions : List ServerSteps.Action) : List (List UInt8) :=
  actions.filterMap stampText

theorem labels_text {action : ServerSteps.Action} (taken : ServerSteps.step s action = some t) :
    formattedTexts (logLabels s action) = (stampText action).toList := by
  cases action with
  | stamp answer =>
    have stamped := ServerMoves.stamp_taken taken
    cases answer with
    | text text =>
      have here : s.stamp = .format := by
        cases phase : s.stamp with
        | format => rfl
        | _ => simp [stampStep, phase] at stamped
      rw [logLabels, here]
      rfl
    | _ =>
      simp only [logLabels, stampText, Option.toList_none]
      cases s.stamp <;> rfl
  | handler index answer =>
    simp only [logLabels, stampText, Option.toList_none]
    split
    · rfl
    · unfold handlerLabels
      split
      · rfl
      · rfl
      · split <;> rfl
      · rfl
  | _ => rfl

theorem logSteps_texts (run : ServerSteps.machine.run (boot daemonMode file) actions = some s) :
    formattedTexts (logSteps daemonMode file actions) = stampTexts actions := by
  induction actions using List.reverseRecOn generalizing s with
  | nil => rfl
  | append_singleton past action ih =>
    obtain ⟨mid, before, taken⟩ := run_snoc_iff.mp run
    have steps : logSteps daemonMode file (past ++ [action]) =
        logSteps daemonMode file past ++ logLabels mid action := collect_snoc before taken
    rw [steps, formattedTexts, List.filterMap_append]
    rw [show (logSteps daemonMode file past).filterMap formats = stampTexts past from ih before,
      show (logLabels mid action).filterMap formats = _ from labels_text taken]
    simp only [stampTexts, List.filterMap_append]
    cases text : stampText action <;> simp [text]

theorem timestamp_line {text : List UInt8}
    (made : ∃ humanTime, getTimestampStr humanTime = some text) :
    newline ∉ timestampTag ++ text := by
  obtain ⟨humanTime, made⟩ := made
  intro member
  rcases List.mem_append.mp member with tag | inside
  · revert tag
    decide
  · have printed := (timestamp_bytes_print made newline inside).1
    revert printed
    decide

theorem shown_lined {appends : List (Thread Nat × List UInt8)}
    (run : ServerSteps.machine.run (boot daemonMode file) actions = some s)
    (clock : ∀ text ∈ stampTexts actions, ∃ humanTime, getTimestampStr humanTime = some text)
    (records : ∀ conn, recordsOf (.handler conn) appends =
      (packetsOf conn (logTrace daemonMode file actions)).map packetRecord)
    (dated : recordsOf .timestamp appends = (stampTexts actions).map timestampRecord) :
    Lined appends := by
  have pieces := allPieces_run run
  rintro ⟨owner, record⟩ member
  have inside := records_of_member.mpr member
  cases owner with
  | handler conn =>
    rw [records conn] at inside
    obtain ⟨msg, passed, rfl⟩ := List.mem_map.mp inside
    simp only [packetRecord, dropLast_newline]
    exact ⟨(pieces conn msg passed).noNewline, rfl⟩
  | timestamp =>
    rw [dated] at inside
    obtain ⟨text, formatted, rfl⟩ := List.mem_map.mp inside
    simp only [timestampRecord, dropLast_newline]
    exact ⟨timestamp_line (clock text formatted), rfl⟩

/-- The data file is read back line by line. With the mutex free its lines are those that
    were there, and then one for each time the mutex was taken: the packets of each handler
    in their order and the timestamps in theirs. An echo is the lines of an earlier time. -/
theorem server_file_reads_back
    (undisturbed : ServerSteps.machine.Along LogRefinement.Undisturbed (boot daemonMode file) actions)
    (run : ServerSteps.machine.run (boot daemonMode file) actions = some s)
    (whole : remainder newline file.content = [])
    (clock : ∀ text ∈ stampTexts actions, ∃ humanTime, getTimestampStr humanTime = some text) :
    ∃ lines : List (Thread Nat × List UInt8),
      (s.mutex = none →
        segments newline s.file.content = segments newline file.content ++ lines.map Prod.snd ∧
          remainder newline s.file.content = [] ∧
            lines.map Prod.fst = acquisitions (logSteps daemonMode file actions)) ∧
      (∀ conn, recordsOf (.handler conn) lines = packetsOf conn (logTrace daemonMode file actions)) ∧
      recordsOf .timestamp lines = (stampTexts actions).map (timestampTag ++ ·) ∧
      ∀ conn, callOf s conn = none → ∀ echo ∈ echoesOf conn (logTrace daemonMode file actions),
        remainder newline echo = [] ∧ ∃ front, front <+: lines ∧
          segments newline echo = segments newline file.content ++ front.map Prod.snd := by
  obtain ⟨x, reached, quiet, shown⟩ := shown_run undisturbed run
  obtain ⟨appends, held, dated⟩ := run_dated quiet reached
  have records := shown_records shown held
  rw [Dated, logSteps_texts run] at dated
  have lined := shown_lined run clock records dated
  refine ⟨linesOf appends, ?_, ?_, ?_, ?_⟩
  · intro free
    obtain ⟨content, order⟩ := (shown_file shown held).2 free
    obtain ⟨read, rest⟩ := lined_reads whole lined
    rw [content]
    refine ⟨read, rest, ?_⟩
    rw [← order, linesOf, List.map_map]
    rfl
  · intro conn
    rw [linesOf, recordsOf_map, records conn, List.map_map]
    exact (List.map_congr_left fun msg _ => dropLast_newline msg).trans (List.map_id _)
  · rw [linesOf, recordsOf_map, dated, List.map_map]
    exact List.map_congr_left fun text _ => dropLast_newline (timestampTag ++ text)
  · intro conn idle echo member
    rw [show echoesOf conn (logTrace daemonMode file actions) = _ from shown_echoes shown held idle]
      at member
    obtain ⟨front, prefixed, rfl⟩ := snapshot_front member
    have earlier : Lined front := fun append inside => lined append (prefixed.subset inside)
    obtain ⟨read, rest⟩ := lined_reads whole earlier
    exact ⟨rest, linesOf front, prefixed.map _, read⟩

def firstSecond : List ServerSteps.Action :=
  startup ++ oneClient ++ [.signal .sigalrm, .stamp .ok, .stamp .ok, .stamp .ok, .stamp .ok,
    .stamp (.text (asBytes (expand epoch timestampFormat))), .stamp (.prints 42), .stamp .ok]

theorem first_second_is_one_line :
    ∃ lines : List (Thread Nat × List UInt8), lines.map Prod.fst = [.timestamp] ∧
      recordsOf .timestamp lines = [timestampTag ++ asBytes (expand epoch timestampFormat)] := by
  have made : ∀ text ∈ stampTexts firstSecond, ∃ humanTime, getTimestampStr humanTime = some text := by
    intro text member
    obtain rfl := List.mem_singleton.mp member
    exact ⟨epoch, getTimestampStr_eq epoch⟩
  obtain ⟨lines, whole, _, dated, _⟩ :=
    @server_file_reads_back false ⟨[], 0⟩ firstSecond _ (by decide) rfl rfl made
  exact ⟨lines, (whole rfl).2.2, dated⟩

end Runs

end LogLines
