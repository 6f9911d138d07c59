import Mathlib.Logic.Function.Basic
import Aesd.PacketSteps
import Aesd.SerialLog
import Aesd.TransitionRuns

/-! Any number of connection handlers and the timestamp thread on one data file. Handlers
    are indexed by an arbitrary type, every step is one system call of one thread, and a
    run is any interleaving of such steps. -/
namespace SharedLog
open TransitionRuns SerialLog WriteAll PacketAppend PacketSteps

def timestampTag : List UInt8 := [116, 105, 109, 101, 115, 116, 97, 109, 112, 58]

/-- What dprintf(diskfd, "timestamp:%s\n", text) prints. -/
def timestampRecord (text : List UInt8) : List UInt8 := timestampTag ++ text ++ newlineArray

def packetRecord (msg : List UInt8) : List UInt8 := msg ++ newlineArray

inductive StampPhase where
  | waiting
  | formatting
  | printing (rest : List UInt8)
  | unlocking
  deriving DecidableEq, Repr

/-- A handler calls handle_packet for one packet of todo after the other; echoes holds
    what its client was sent for each finished call. -/
structure Handler where
  todo : List (List UInt8)
  call : Option PacketCall
  echoes : List (List UInt8)
  deriving DecidableEq, Repr

inductive Thread (Conn : Type*) where
  | handler (conn : Conn)
  | timestamp
  deriving DecidableEq, Repr

/-- mutex names the owner of g_file_mutex, exited the status given to exit. -/
structure System (Conn : Type*) where
  file : OpenFile
  mutex : Option (Thread Conn)
  handlers : Conn → Handler
  stamp : StampPhase
  exited : Option Int

inductive Action (Conn : Type*) where
  | lock (conn : Conn)
  | answer (conn : Conn) (result : PacketAnswer)
  | unlock (conn : Conn)
  | stampLock
  | stampFormat (text : List UInt8)
  | stampPrint (offer : Int)
  | stampUnlock

variable {Conn : Type*} [DecidableEq Conn]

def step (s : System Conn) (action : Action Conn) : Option (System Conn) :=
  if s.exited.isSome then none
  else match action with
  | .lock conn =>
      match s.mutex, s.handlers conn with
      | none, ⟨msg :: later, none, echoes⟩ =>
          some { s with
            mutex := some (.handler conn)
            handlers := Function.update s.handlers conn ⟨later, some (beginPacket msg), echoes⟩ }
      | _, _ => none
  | .answer conn result =>
      match s.handlers conn with
      | ⟨todo, some call, echoes⟩ =>
          match call.onAnswer s.file result with
          | some (.goes file next) =>
              some { s with
                file := file
                handlers := Function.update s.handlers conn ⟨todo, some next, echoes⟩ }
          | some (.exits status) => some { s with exited := some status }
          | none => none
      | _ => none
  | .unlock conn =>
      match s.handlers conn with
      | ⟨todo, some ⟨.unlock, sent⟩, echoes⟩ =>
          some { s with
            mutex := none
            handlers := Function.update s.handlers conn ⟨todo, none, echoes ++ [sent]⟩ }
      | _ => none
  | .stampLock =>
      match s.mutex, s.stamp with
      | none, .waiting => some { s with mutex := some .timestamp, stamp := .formatting }
      | _, _ => none
  | .stampFormat text =>
      match s.stamp with
      | .formatting => some { s with stamp := .printing (timestampRecord text) }
      | _ => none
  | .stampPrint offer =>
      match s.stamp with
      | .printing rest =>
          let loop : WriteLoop := ⟨rest, 0⟩
          some { s with
            file := s.file.append (loop.accepted offer)
            stamp := if offer ≤ 0 then .unlocking
              else if rest.drop offer.toNat = [] then .unlocking
              else .printing (rest.drop offer.toNat) }
      | _ => none
  | .stampUnlock =>
      match s.stamp with
      | .unlocking => some { s with mutex := none, stamp := .waiting }
      | _ => none

def machine : Machine (System Conn) (Action Conn) := ⟨step⟩

def start (base : List UInt8) (offset : Nat) (packets : Conn → List (List UInt8)) : System Conn :=
  ⟨⟨base, offset⟩, none, fun conn => ⟨packets conn, none, []⟩, .waiting, none⟩

/-- No write_all gives up, no read of the data file fails, and dprintf writes on. -/
def Undisturbed (s : System Conn) : Action Conn → Prop
  | .answer conn result =>
      match (s.handlers conn).call with
      | some call => call.Undisturbed result
      | none => True
  | .stampPrint offer => 0 < offer
  | _ => True

instance (s : System Conn) (action : Action Conn) : Decidable (Undisturbed s action) := by
  unfold Undisturbed
  split
  · split <;> infer_instance
  · infer_instance
  · infer_instance

def Action.acquires : Action Conn → Option (Thread Conn)
  | .lock conn => some (.handler conn)
  | .stampLock => some .timestamp
  | _ => none

def acquisitions (actions : List (Action Conn)) : List (Thread Conn) :=
  actions.filterMap Action.acquires

def StampPhase.unformatted : StampPhase → List (Thread Conn)
  | .formatting => [.timestamp]
  | _ => []

def StampPhase.Writing (phase : StampPhase) (full content : List UInt8) : Prop :=
  match phase with
  | .waiting => False
  | .formatting => content = full
  | .printing rest => content ++ rest = full
  | .unlocking => content = full

def System.FileHeld (s : System Conn) (full : List UInt8) : Prop :=
  match s.mutex with
  | none => s.file.content = full
  | some (.handler conn) => ∃ call, (s.handlers conn).call = some call ∧ call.Writing full s.file
  | some .timestamp => s.stamp.Writing full s.file.content

def Handler.snapshots (handler : Handler) (full : List UInt8) : List (List UInt8) :=
  handler.echoes ++ if handler.call.isSome then [full] else []

structure HandlerHeld (base : List UInt8) (packets : Conn → List (List UInt8))
    (appends : List (Thread Conn × List UInt8)) (mutex : Option (Thread Conn)) (conn : Conn)
    (handler : Handler) : Prop where
  records : recordsOf (.handler conn) appends ++ handler.todo.map packetRecord =
    (packets conn).map packetRecord
  echoes : handler.snapshots (contents base appends) = snapshotsOf (.handler conn) base appends
  owner : handler.call.isSome → mutex = some (.handler conn)

/-- The invariant. The records appended are those of the threads that took the mutex, and
    only the last one can still be on its way into the file. -/
structure Serialised (base : List UInt8) (packets : Conn → List (List UInt8))
    (actions : List (Action Conn)) (appends : List (Thread Conn × List UInt8))
    (s : System Conn) : Prop where
  order : appends.map Prod.fst ++ s.stamp.unformatted = acquisitions actions
  handlers : ∀ conn, HandlerHeld base packets appends s.mutex conn (s.handlers conn)
  stamps : ∀ record ∈ recordsOf .timestamp appends, ∃ text, record = timestampRecord text
  file : s.FileHeld (contents base appends)
  stampOwner : s.stamp ≠ .waiting → s.mutex = some .timestamp

omit [DecidableEq Conn] in
@[simp] theorem acquisitions_snoc (past : List (Action Conn)) (action : Action Conn) :
    acquisitions (past ++ [action]) = acquisitions past ++ action.acquires.toList := by
  simp only [acquisitions, List.filterMap_append, List.filterMap_cons, List.filterMap_nil]
  cases action.acquires <;> rfl

omit [DecidableEq Conn] in
theorem snapshots_idle {handler : Handler} (idle : handler.call = none) (full : List UInt8) :
    handler.snapshots full = handler.echoes := by
  simp [Handler.snapshots, idle]

section Steps
variable {base : List UInt8} {packets : Conn → List (List UInt8)} {past : List (Action Conn)}
  {appends : List (Thread Conn × List UInt8)} {s t : System Conn} {conn : Conn}

theorem idle_of_mutex (held : Serialised base packets past appends s)
    (other : s.mutex ≠ some (.handler conn)) : (s.handlers conn).call = none := by
  by_contra busy
  exact other ((held.handlers conn).owner (Option.isSome_iff_ne_none.mpr busy))

theorem stamp_waiting (held : Serialised base packets past appends s)
    (other : s.mutex ≠ some .timestamp) : s.stamp = .waiting := by
  by_contra busy
  exact other (held.stampOwner busy)

theorem lock_cases (taken : step s (.lock conn) = some t) :
    s.mutex = none ∧ ∃ msg later echoes, s.handlers conn = ⟨msg :: later, none, echoes⟩ ∧
      t = { s with
        mutex := some (.handler conn)
        handlers := Function.update s.handlers conn ⟨later, some (beginPacket msg), echoes⟩ } := by
  unfold step at taken
  split at taken
  · simp at taken
  · simp only at taken
    split at taken
    · rename_i msg later echoes free idle
      exact ⟨free, msg, later, echoes, idle, (Option.some.inj taken).symm⟩
    · simp at taken

theorem answer_cases {result : PacketAnswer} (taken : step s (.answer conn result) = some t) :
    ∃ todo call echoes, s.handlers conn = ⟨todo, some call, echoes⟩ ∧
      ((∃ file next, call.onAnswer s.file result = some (.goes file next) ∧
        t = { s with
          file := file
          handlers := Function.update s.handlers conn ⟨todo, some next, echoes⟩ }) ∨
      ∃ status, call.onAnswer s.file result = some (.exits status) ∧
        t = { s with exited := some status }) := by
  unfold step at taken
  split at taken
  · simp at taken
  · simp only at taken
    split at taken
    · rename_i todo call echoes busy
      refine ⟨todo, call, echoes, busy, ?_⟩
      split at taken
      · rename_i file next answered
        exact Or.inl ⟨file, next, answered, (Option.some.inj taken).symm⟩
      · rename_i status answered
        exact Or.inr ⟨status, answered, (Option.some.inj taken).symm⟩
      · simp at taken
    · simp at taken

theorem unlock_cases (taken : step s (.unlock conn) = some t) :
    ∃ todo sent echoes, s.handlers conn = ⟨todo, some ⟨.unlock, sent⟩, echoes⟩ ∧
      t = { s with
        mutex := none
        handlers := Function.update s.handlers conn ⟨todo, none, echoes ++ [sent]⟩ } := by
  unfold step at taken
  split at taken
  · simp at taken
  · simp only at taken
    split at taken
    · rename_i todo sent echoes busy
      exact ⟨todo, sent, echoes, busy, (Option.some.inj taken).symm⟩
    · simp at taken

theorem lock_appends (held : Serialised base packets past appends s)
    (taken : step s (.lock conn) = some t) :
    ∃ msg, Serialised base packets (past ++ [.lock conn])
      (appends ++ [(.handler conn, packetRecord msg)]) t := by
  obtain ⟨free, msg, later, echoes, idle, rfl⟩ := lock_cases taken
  have waiting := stamp_waiting held (by simp [free])
  have content := held.file
  rw [System.FileHeld, free] at content
  have handlerIdle (c : Conn) : (s.handlers c).call = none := idle_of_mutex held (by simp [free])
  refine ⟨msg, ?_, ?_, ?_, ?_, ?_⟩
  · have order := held.order
    simp only [waiting, StampPhase.unformatted, List.append_nil] at order
    simp [waiting, StampPhase.unformatted, order, Action.acquires]
  · rw [Function.forall_update_iff s.handlers (p := HandlerHeld base packets _ _)]
    constructor
    · obtain ⟨records, echoed, _⟩ := held.handlers conn
      rw [snapshots_idle (handlerIdle conn), idle] at echoed
      rw [idle] at records
      refine ⟨by simpa [recordsOf_own] using records, ?_, fun _ => rfl⟩
      simp [Handler.snapshots, snapshotsOf_own, ← echoed]
    · intro c other
      obtain ⟨records, echoed, _⟩ := held.handlers c
      have apart : Thread.handler conn ≠ Thread.handler c := by simpa using other.symm
      refine ⟨by rwa [recordsOf_other apart], ?_, by simp [handlerIdle c]⟩
      rw [snapshotsOf_other apart, ← echoed, snapshots_idle (handlerIdle c),
        snapshots_idle (handlerIdle c)]
  · rw [recordsOf_other (by simp)]
    exact held.stamps
  · refine ⟨beginPacket msg, by simp, ?_⟩
    rw [contents_snoc, ← content]
    exact begin_writing msg s.file
  · exact fun busy => absurd waiting busy

theorem lock_keeps (held : Serialised base packets past appends s)
    (taken : step s (.lock conn) = some t) :
    ∃ later, Serialised base packets (past ++ [.lock conn]) later t := by
  obtain ⟨msg, keeps⟩ := lock_appends held taken
  exact ⟨_, keeps⟩

theorem answer_keeps {result : PacketAnswer} (held : Serialised base packets past appends s)
    (fine : Undisturbed s (.answer conn result)) (taken : step s (.answer conn result) = some t) :
    Serialised base packets (past ++ [.answer conn result]) appends t := by
  obtain ⟨todo, call, echoes, busy, next⟩ := answer_cases taken
  have owns : s.mutex = some (.handler conn) := (held.handlers conn).owner (by simp [busy])
  have order : appends.map Prod.fst ++ s.stamp.unformatted =
      acquisitions (past ++ [.answer conn result]) := by
    simpa [Action.acquires] using held.order
  rcases next with ⟨file, next, answered, rfl⟩ | ⟨status, _, rfl⟩
  · refine ⟨order, ?_, held.stamps, ?_, held.stampOwner⟩
    · rw [Function.forall_update_iff s.handlers (p := HandlerHeld base packets _ _)]
      constructor
      · obtain ⟨records, echoed, _⟩ := held.handlers conn
        rw [busy] at records echoed
        exact ⟨records, echoed, fun _ => owns⟩
      · exact fun c _ => held.handlers c
    · have fileHeld := held.file
      simp only [System.FileHeld, owns, busy, Option.some.injEq, exists_eq_left'] at fileHeld
      have fine' : call.Undisturbed result := by simpa [Undisturbed, busy] using fine
      simp only [System.FileHeld, owns]
      exact ⟨next, by simp, onAnswer_writing fileHeld fine' answered⟩
  · exact ⟨order, held.handlers, held.stamps, held.file, held.stampOwner⟩

theorem unlock_keeps (held : Serialised base packets past appends s)
    (taken : step s (.unlock conn) = some t) :
    Serialised base packets (past ++ [.unlock conn]) appends t := by
  obtain ⟨todo, sent, echoes, busy, rfl⟩ := unlock_cases taken
  have owns : s.mutex = some (.handler conn) := (held.handlers conn).owner (by simp [busy])
  have fileHeld := held.file
  simp only [System.FileHeld, owns, busy, Option.some.injEq, exists_eq_left'] at fileHeld
  obtain ⟨content, whole⟩ := fileHeld
  refine ⟨by simpa [Action.acquires] using held.order, ?_, held.stamps, content, ?_⟩
  · rw [Function.forall_update_iff s.handlers (p := HandlerHeld base packets _ _)]
    constructor
    · obtain ⟨records, echoed, _⟩ := held.handlers conn
      simp only [Handler.snapshots, busy, Option.isSome_some, ↓reduceIte] at records echoed
      refine ⟨records, ?_, by simp⟩
      rw [← echoed, snapshots_idle rfl, ← whole]
    · intro c other
      obtain ⟨records, echoed, owner⟩ := held.handlers c
      refine ⟨records, echoed, ?_⟩
      intro running
      have elsewhere := owner running
      rw [owns] at elsewhere
      exact absurd (Thread.handler.inj (Option.some.inj elsewhere)).symm other
  · intro stamping
    have elsewhere := held.stampOwner stamping
    simp [owns] at elsewhere

theorem stampLock_cases (taken : step s .stampLock = some t) :
    s.mutex = none ∧ s.stamp = .waiting ∧
      t = { s with mutex := some .timestamp, stamp := .formatting } := by
  unfold step at taken
  split at taken
  · simp at taken
  · simp only at taken
    split at taken
    · rename_i free waiting
      exact ⟨free, waiting, (Option.some.inj taken).symm⟩
    · simp at taken

theorem stampFormat_cases {text : List UInt8} (taken : step s (.stampFormat text) = some t) :
    s.stamp = .formatting ∧ t = { s with stamp := .printing (timestampRecord text) } := by
  unfold step at taken
  split at taken
  · simp at taken
  · simp only at taken
    split at taken
    · rename_i formatting
      exact ⟨formatting, (Option.some.inj taken).symm⟩
    · simp at taken

theorem stampPrint_cases {offer : Int} (positive : 0 < offer)
    (taken : step s (.stampPrint offer) = some t) :
    ∃ rest, s.stamp = .printing rest ∧
      t = { s with
        file := s.file.append (rest.take offer.toNat)
        stamp := if rest.drop offer.toNat = [] then .unlocking
          else .printing (rest.drop offer.toNat) } := by
  unfold step at taken
  split at taken
  · simp at taken
  · simp only at taken
    split at taken
    · rename_i rest printing
      refine ⟨rest, printing, ?_⟩
      have accepted := @accepted_gain ⟨rest, 0⟩ offer positive
      rw [← Option.some.inj taken, accepted, if_neg (by omega)]
    · simp at taken

theorem stampUnlock_cases (taken : step s .stampUnlock = some t) :
    s.stamp = .unlocking ∧ t = { s with mutex := none, stamp := .waiting } := by
  unfold step at taken
  split at taken
  · simp at taken
  · simp only at taken
    split at taken
    · rename_i unlocking
      exact ⟨unlocking, (Option.some.inj taken).symm⟩
    · simp at taken

theorem stampLock_keeps (held : Serialised base packets past appends s)
    (taken : step s .stampLock = some t) :
    Serialised base packets (past ++ [.stampLock]) appends t := by
  obtain ⟨free, waiting, rfl⟩ := stampLock_cases taken
  have content := held.file
  rw [System.FileHeld, free] at content
  refine ⟨?_, ?_, held.stamps, content, fun _ => rfl⟩
  · have order := held.order
    simp only [waiting, StampPhase.unformatted, List.append_nil] at order
    simp [StampPhase.unformatted, order, Action.acquires]
  · intro c
    obtain ⟨records, echoed, owner⟩ := held.handlers c
    refine ⟨records, echoed, ?_⟩
    intro busy
    have elsewhere := owner busy
    simp [free] at elsewhere

theorem stampFormat_keeps {text : List UInt8} (held : Serialised base packets past appends s)
    (taken : step s (.stampFormat text) = some t) :
    Serialised base packets (past ++ [.stampFormat text])
      (appends ++ [(.timestamp, timestampRecord text)]) t := by
  obtain ⟨formatting, rfl⟩ := stampFormat_cases taken
  have owns : s.mutex = some .timestamp := held.stampOwner (by simp [formatting])
  have content := held.file
  simp only [System.FileHeld, owns, formatting, StampPhase.Writing] at content
  have handlerIdle (c : Conn) : (s.handlers c).call = none := idle_of_mutex held (by simp [owns])
  refine ⟨?_, ?_, ?_, ?_, fun _ => owns⟩
  · have order := held.order
    simp only [formatting, StampPhase.unformatted] at order
    simp [StampPhase.unformatted, ← order, Action.acquires]
  · intro c
    obtain ⟨records, echoed, owner⟩ := held.handlers c
    refine ⟨by rwa [recordsOf_other (by simp)], ?_, owner⟩
    rw [snapshotsOf_other (by simp), ← echoed, snapshots_idle (handlerIdle c),
      snapshots_idle (handlerIdle c)]
  · intro record member
    rw [recordsOf_own, List.mem_append, List.mem_singleton] at member
    rcases member with earlier | new
    · exact held.stamps record earlier
    · exact ⟨text, new⟩
  · simp only [System.FileHeld, owns, StampPhase.Writing, contents_snoc, content]

theorem stampPrint_keeps {offer : Int} (held : Serialised base packets past appends s)
    (fine : Undisturbed s (.stampPrint offer)) (taken : step s (.stampPrint offer) = some t) :
    Serialised base packets (past ++ [.stampPrint offer]) appends t := by
  obtain ⟨rest, printing, rfl⟩ := stampPrint_cases fine taken
  have owns : s.mutex = some .timestamp := held.stampOwner (by simp [printing])
  have content := held.file
  simp only [System.FileHeld, owns, printing, StampPhase.Writing] at content
  have order := held.order
  rw [printing] at order
  refine ⟨?_, held.handlers, held.stamps, ?_, fun _ => owns⟩
  · by_cases done : rest.drop offer.toNat = []
    · simpa [done, Action.acquires, StampPhase.unformatted] using order
    · simpa [done, Action.acquires, StampPhase.unformatted] using order
  · simp only [System.FileHeld, owns]
    rw [← content]
    have parts := List.take_append_drop offer.toNat rest
    by_cases done : rest.drop offer.toNat = []
    · rw [done, List.append_nil] at parts
      simp [done, StampPhase.Writing, parts]
    · simp [done, StampPhase.Writing]

theorem stampUnlock_keeps (held : Serialised base packets past appends s)
    (taken : step s .stampUnlock = some t) :
    Serialised base packets (past ++ [.stampUnlock]) appends t := by
  obtain ⟨unlocking, rfl⟩ := stampUnlock_cases taken
  have owns : s.mutex = some .timestamp := held.stampOwner (by simp [unlocking])
  have content := held.file
  simp only [System.FileHeld, owns, unlocking, StampPhase.Writing] at content
  refine ⟨?_, ?_, held.stamps, content, fun busy => absurd rfl busy⟩
  · have order := held.order
    simp only [unlocking, StampPhase.unformatted] at order
    simpa [StampPhase.unformatted, Action.acquires] using order
  · intro c
    obtain ⟨records, echoed, owner⟩ := held.handlers c
    refine ⟨records, echoed, ?_⟩
    intro busy
    have elsewhere := owner busy
    simp [owns] at elsewhere

theorem step_keeps {action : Action Conn} (held : Serialised base packets past appends s)
    (fine : Undisturbed s action) (taken : step s action = some t) :
    ∃ later, Serialised base packets (past ++ [action]) later t := by
  cases action with
  | lock conn => exact lock_keeps held taken
  | answer conn result => exact ⟨_, answer_keeps held fine taken⟩
  | unlock conn => exact ⟨_, unlock_keeps held taken⟩
  | stampLock => exact ⟨_, stampLock_keeps held taken⟩
  | stampFormat text => exact ⟨_, stampFormat_keeps held taken⟩
  | stampPrint offer => exact ⟨_, stampPrint_keeps held fine taken⟩
  | stampUnlock => exact ⟨_, stampUnlock_keeps held taken⟩

end Steps

theorem start_serialised (base : List UInt8) (offset : Nat) (packets : Conn → List (List UInt8)) :
    Serialised base packets [] [] (start base offset packets) where
  order := rfl
  handlers conn := ⟨rfl, rfl, by simp [start]⟩
  stamps := by simp [recordsOf]
  file := (contents_nil base).symm
  stampOwner busy := absurd rfl busy

theorem run_serialised {base : List UInt8} {offset : Nat} {packets : Conn → List (List UInt8)}
    {actions : List (Action Conn)} {s : System Conn}
    (undisturbed : machine.Along Undisturbed (start base offset packets) actions)
    (run : machine.run (start base offset packets) actions = some s) :
    ∃ appends, Serialised base packets actions appends s := by
  have keeps (past : List (Action Conn)) (mid : System Conn) (action : Action Conn)
      (t : System Conn) (held : ∃ appends, Serialised base packets past appends mid)
      (fine : Undisturbed mid action) (taken : machine.step mid action = some t) :
      ∃ appends, Serialised base packets (past ++ [action]) appends t := by
    obtain ⟨appends, held⟩ := held
    exact step_keeps held fine taken
  have begun : ∃ appends, Serialised base packets [] appends (start base offset packets) :=
    ⟨[], start_serialised base offset packets⟩
  exact history_along keeps begun undisturbed run

theorem file_prefix {base : List UInt8} {packets : Conn → List (List UInt8)}
    {actions : List (Action Conn)} {appends : List (Thread Conn × List UInt8)} {s : System Conn}
    (held : Serialised base packets actions appends s) :
    s.file.content <+: contents base appends := by
  have file := held.file
  unfold System.FileHeld at file
  split at file
  · exact ⟨[], by rw [List.append_nil, file]⟩
  · obtain ⟨call, _, writing⟩ := file
    exact writing_content writing
  · unfold StampPhase.Writing at file
    split at file
    · exact absurd file id
    · exact ⟨[], by rw [List.append_nil, file]⟩
    · exact ⟨_, file⟩
    · exact ⟨[], by rw [List.append_nil, file]⟩

/-- The data file is a log of whole records in the order in which the mutex was taken, and
    an echo is the log right after the record it answers. -/
theorem data_file_is_a_serialised_log {base : List UInt8} {offset : Nat}
    {packets : Conn → List (List UInt8)} {actions : List (Action Conn)} {s : System Conn}
    (undisturbed : machine.Along Undisturbed (start base offset packets) actions)
    (run : machine.run (start base offset packets) actions = some s) :
    ∃ appends : List (Thread Conn × List UInt8),
      appends.map Prod.fst <+: acquisitions actions ∧ s.file.content <+: contents base appends ∧
      (s.mutex = none → appends.map Prod.fst = acquisitions actions ∧
        s.file.content = contents base appends) ∧
      (∀ conn, recordsOf (.handler conn) appends ++ (s.handlers conn).todo.map packetRecord =
        (packets conn).map packetRecord) ∧
      (∀ record ∈ recordsOf .timestamp appends, ∃ text, record = timestampRecord text) ∧
      ∀ conn, ((s.handlers conn).call = none →
          (s.handlers conn).echoes = snapshotsOf (.handler conn) base appends) ∧
        ∀ call, (s.handlers conn).call = some call → ∃ full, call.sent <+: full ∧
          (s.handlers conn).echoes ++ [full] = snapshotsOf (.handler conn) base appends := by
  obtain ⟨appends, held⟩ := run_serialised undisturbed run
  refine ⟨appends, ⟨_, held.order⟩, file_prefix held, ?_, fun conn => (held.handlers conn).records,
    held.stamps, fun conn => ⟨?_, ?_⟩⟩
  · intro free
    have file := held.file
    rw [System.FileHeld, free] at file
    have order := held.order
    rw [stamp_waiting held (by simp [free])] at order
    exact ⟨by simpa [StampPhase.unformatted] using order, file⟩
  · intro idle
    rw [← (held.handlers conn).echoes, snapshots_idle idle]
  · intro call busy
    have owns := (held.handlers conn).owner (by simp [busy])
    have file := held.file
    simp only [System.FileHeld, owns, busy, Option.some.injEq, exists_eq_left'] at file
    refine ⟨contents base appends, writing_sent file, ?_⟩
    rw [← (held.handlers conn).echoes]
    simp [Handler.snapshots, busy]

def twoClients : Bool → List (List UInt8)
  | true => [[98]]
  | false => [[97]]

def interleaving : List (Action Bool) :=
  [.lock true, .answer true (.diskWrite 1), .answer true (.diskWrite 0),
    .answer true (.diskWrite 1), .answer true (.seek true), .answer true (.read 1024),
    .answer true (.socketWrite 1), .answer true (.socketWrite 9), .answer true (.read 1024),
    .answer true (.seek true), .unlock true, .stampLock, .stampFormat [48], .stampPrint 4,
    .stampPrint 9, .stampUnlock, .lock false, .answer false (.diskWrite 1),
    .answer false (.diskWrite 1), .answer false (.seek true), .answer false (.read 1024),
    .answer false (.socketWrite 99), .answer false (.read 1024), .answer false (.seek true),
    .unlock false]

theorem two_clients_and_a_timestamp :
    ∃ s, machine.run (start [] 0 twoClients) interleaving = some s ∧ s.mutex = none ∧
      (s.handlers true).echoes = [[98, 10]] ∧
      (s.handlers false).echoes = [[98, 10] ++ timestampRecord [48] ++ [97, 10]] ∧
      ∃ appends : List (Thread Bool × List UInt8), s.file.content = contents [] appends ∧
        appends.map Prod.fst = [.handler true, .timestamp, .handler false] := by
  obtain ⟨appends, _, _, free, _⟩ :=
    @data_file_is_a_serialised_log _ _ [] 0 twoClients interleaving _ (by decide) rfl
  obtain ⟨order, content⟩ := free rfl
  exact ⟨_, rfl, rfl, rfl, rfl, appends, content, order⟩

end SharedLog
