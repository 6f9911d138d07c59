import Aesd.ServerLifetimes

/-! SIGALRM deliveries against the records of print_timestamp_on_time. The thread clears the
    flag only after it has printed, and leaves its wait on a stop signal as well. -/
namespace TimestampTicks
open TransitionRuns PacketAppend ServerState ServerSteps ServerMoves ServerLifetimes
open SharedLog (timestampRecord)

/-- get_timestamp_str, where the thread calls time. -/
def ReadsClock (action : Action) : Prop := ∃ text, action = .stamp (.text text)

def TickSince (past : List Action) : Prop :=
  ∃ front later, past = front ++ .signal .sigalrm :: later ∧ ∀ action ∈ later, ¬ ReadsClock action

/-- The last tick is still flagged, or the thread is on its way from the wait to the clock. -/
def TickKept (past : List Action) (s : Server) : Prop :=
  s.status = .running → s.runFlag = .live true → TickSince past →
    s.timestampDueFlag = .live true ∨ s.stamp = .lock ∨ s.stamp = .format

def TicksKept (start : Server) (actions : List Action) : Prop :=
  ∀ past s, past <+: actions → machine.run start past = some s → TickKept past s

/-- While the server runs, the thread clears the flag only when no tick came since it read
    the clock in that pass. -/
def ClearsOldTicks (start : Server) (actions : List Action) : Prop :=
  ∀ past s, past ++ [.stamp .ok] <+: actions → machine.run start past = some s →
    s.status = .running → s.stamp = .clearDue → s.runFlag = .live true → ¬ TickSince past

theorem tickSince_nil : ¬ TickSince [] := by
  rintro ⟨front, later, split, _⟩
  simp at split

theorem tickSince_snoc_iff {past : List Action} {action : Action} :
    TickSince (past ++ [action]) ↔
      action = .signal .sigalrm ∨ ¬ ReadsClock action ∧ TickSince past := by
  constructor
  · rintro ⟨front, later, split, quiet⟩
    cases later using List.reverseRecOn with
    | nil =>
      obtain ⟨_, last⟩ := List.append_inj' split rfl
      exact Or.inl (List.cons.inj last).1
    | append_singleton later other =>
      rw [← List.cons_append, ← List.append_assoc] at split
      obtain ⟨rfl, last⟩ := List.append_inj' split rfl
      obtain rfl := (List.cons.inj last).1
      refine Or.inr ⟨quiet action (by simp), front, later, rfl, ?_⟩
      intro before member
      exact quiet before (List.mem_append_left _ member)
  · rintro (rfl | ⟨still, front, later, rfl, quiet⟩)
    · exact ⟨past, [], rfl, by simp⟩
    · refine ⟨front, later ++ [action], by simp, ?_⟩
      intro other member
      rcases List.mem_append.mp member with before | last
      · exact quiet other before
      · rwa [List.mem_singleton.mp last]

def DueAt (s : Server) : Prop :=
  .sigalrm ∈ s.caught ∧ (s.runFlag = .live true → s.timestampDueFlag = .live true)

def Flagged (past : List Action) (s : Server) : Prop :=
  s.status = .running → TickSince past → DueAt s

section Steps
variable {s t : Server}

theorem store_ne_true (cell : FlagCell) : cell.store false ≠ .live true := by
  cases cell <;> simp [FlagCell.store]

theorem due_live_of_run (held : Lifetimes s) (run : s.runFlag = .live true) :
    Live s.timestampDueFlag := by
  have runFlag := held.runFlag
  have dueFlag := held.dueFlag
  rw [run] at runFlag
  cases current : stage s.main <;> rw [current] at runFlag dueFlag
  case booting => simp [runFlagAt] at runFlag
  case runFreed => simp [runFlagAt] at runFlag
  case dueFreed => simp [runFlagAt] at runFlag
  all_goals exact dueFlag

theorem due_main {answer : MainAnswer} (held : Lifetimes s) (due : DueAt s)
    (moves : MainMoves s answer t) : DueAt t := by
  cases moves with
  | initRunFlag here =>
    have none := held.caught (by rw [here]; rfl)
    have caught := due.1
    rw [none] at caught
    simp at caught
  | catches here there => exact ⟨List.mem_cons_of_mem _ due.1, due.2⟩
  | clearsRun here flag => exact ⟨due.1, by simp⟩
  | freesRun here => exact ⟨due.1, by simp⟩
  | freesDue here =>
    have freed := held.runFlag
    rw [here] at freed
    refine ⟨due.1, ?_⟩
    intro run
    simp [show s.runFlag = .freed from freed] at run
  | _ => exact due

theorem due_step {action : Action} (held : Lifetimes s) (due : DueAt s)
    (taken : machine.step s action = some t)
    (elsewhere : s.stamp = .clearDue → action = .stamp .ok → s.runFlag ≠ .live true) : DueAt t := by
  cases step_moves taken with
  | main _ moves => exact due_main held due moves
  | listen moves => cases moves <;> exact due
  | stamp moves =>
    cases moves with
    | clears here flag => exact ⟨due.1, fun run => absurd run (elsewhere here rfl)⟩
    | _ => exact due
  | handler _ moves => cases moves <;> exact due
  | client found => exact due
  | signal moves =>
    cases moves with
    | lowers caught stops => exact ⟨due.1, fun run => absurd run (store_ne_true _)⟩
    | raises caught alarm =>
      refine ⟨due.1, ?_⟩
      intro run
      rw [due.2 run]
      rfl
    | kills uncaught => exact due

theorem due_after_tick (held : Lifetimes s) (taken : step s (.signal .sigalrm) = some t)
    (running : t.status = .running) : DueAt t := by
  cases step_moves taken with
  | signal moves =>
    cases moves with
    | lowers caught stops => simp [Signal.stops] at stops
    | raises caught alarm =>
      refine ⟨caught, ?_⟩
      intro run
      obtain ⟨value, live⟩ := due_live_of_run held run
      simp [live, FlagCell.store]
    | kills uncaught => simp [Server.ends] at running

end Steps

variable {daemonMode : Bool} {file : OpenFile} {actions : List Action}

theorem lifetimes_run {s : Server} (run : machine.run (boot daemonMode file) actions = some s) :
    Lifetimes s :=
  invariant_run lifetimes_step (lifetimes_boot daemonMode file) run

theorem flagged_of_clears (clears : ClearsOldTicks (boot daemonMode file) actions)
    {past : List Action} {s : Server} (front : past <+: actions)
    (run : machine.run (boot daemonMode file) past = some s) : Flagged past s := by
  apply history_front _ _ front run
  · intro _ tick
    exact absurd tick tickSince_nil
  · intro past mid action t front run held taken running tick
    have life := lifetimes_run run
    rcases tickSince_snoc_iff.mp tick with rfl | ⟨still, before⟩
    · exact due_after_tick life taken running
    · have alive := step_running taken
      apply due_step life (held alive before) taken
      rintro here rfl flag
      exact clears past mid front run alive here flag before

/-- In every run no tick is lost exactly when the thread, as long as the run flag is true,
    clears the flag only in passes in which no SIGALRM came after it read the clock. -/
theorem no_tick_is_lost_iff (daemonMode : Bool) (file : OpenFile) (actions : List Action) :
    TicksKept (boot daemonMode file) actions ↔ ClearsOldTicks (boot daemonMode file) actions := by
  constructor
  · intro kept past s front run running here flag tick
    obtain ⟨_, due, live⟩ := stamping_live (lifetimes_run run) (by simp [here])
    have taken : machine.step s (.stamp .ok) =
        some { s with timestampDueFlag := .live false, stamp := .freeStr } := by
      simp [machine, step, running, stampStep, here, Server.withFlag, live]
    have later : TickSince (past ++ [.stamp .ok]) :=
      tickSince_snoc_iff.mpr (Or.inr ⟨by simp [ReadsClock], tick⟩)
    have lost := kept _ _ front (run_snoc_iff.mpr ⟨s, run, taken⟩) running flag later
    simp at lost
  · intro clears past s front run running flag tick
    exact Or.inl ((flagged_of_clears clears front run running tick).2 flag)

def firstRecord : List Action :=
  startup ++ [.signal .sigalrm, .stamp .ok, .stamp .ok, .stamp .ok, .stamp .ok, .stamp (.text [48])]

def tickWhilePrinting : List Action :=
  firstRecord ++ [.signal .sigalrm, .stamp (.prints 12), .stamp .ok, .stamp .ok]

theorem tick_while_printing_is_lost : ¬ TicksKept (boot false ⟨[], 0⟩) tickWhilePrinting := by
  intro kept
  have tick : TickSince tickWhilePrinting :=
    ⟨firstRecord, [.stamp (.prints 12), .stamp .ok, .stamp .ok], rfl, by simp [ReadsClock]⟩
  have lost := kept tickWhilePrinting _ List.prefix_rfl rfl rfl rfl tick
  exact absurd lost (by decide)

/-- One record, if the step puts the last byte of one into the file. -/
def recordsWritten (s : Server) : Action → Nat
  | .stamp (.prints offer) =>
      match s.stamp with
      | .print rest => if 0 < offer ∧ rest.drop offer.toNat = [] then 1 else 0
      | _ => 0
  | _ => 0

def ticks : Action → Nat
  | .signal .sigalrm => 1
  | _ => 0

/-- When a stop signal ends the wait of the thread, a tick is due as well. -/
def LeavesOnTick (s : Server) (action : Action) : Prop :=
  action = .stamp .ok → s.stamp = .waitRun → s.runFlag = .live false →
    s.timestampDueFlag = .live true

instance (s : Server) (action : Action) : Decidable (LeavesOnTick s action) :=
  match action with
  | .stamp .ok =>
      decidable_of_iff (s.stamp = .waitRun → s.runFlag = .live false →
        s.timestampDueFlag = .live true) ⟨fun cond _ => cond, fun cond => cond rfl⟩
  | .stamp (.text _) => isTrue (by simp [LeavesOnTick])
  | .stamp (.prints _) => isTrue (by simp [LeavesOnTick])
  | .main _ => isTrue (by simp [LeavesOnTick])
  | .listen _ => isTrue (by simp [LeavesOnTick])
  | .handler _ _ => isTrue (by simp [LeavesOnTick])
  | .client _ _ => isTrue (by simp [LeavesOnTick])
  | .signal _ => isTrue (by simp [LeavesOnTick])

def dueTicks (s : Server) : Nat := if s.timestampDueFlag = .live true then 1 else 0

/-- Ticks that have come but not been paid out. From the lock to the end of dprintf the
    thread holds one, and the flag still set there is the same tick again. -/
def credit (s : Server) : Nat :=
  match s.stamp with
  | .lock => 1
  | .format => 1
  | .print _ => 1
  | .unlock => 0
  | .clearDue => 0
  | _ => dueTicks s

section Credit
variable {s t : Server}

theorem dueTicks_le (s : Server) : dueTicks s ≤ 1 := by
  unfold dueTicks
  split <;> omega

/-- In a step of another thread the credit follows the flag. -/
theorem credit_le (stamp : t.stamp = s.stamp) (due : dueTicks t ≤ dueTicks s) :
    credit t ≤ credit s := by
  unfold credit
  rw [stamp]
  split
  · exact Nat.le_refl _
  · exact Nat.le_refl _
  · exact Nat.le_refl _
  · exact Nat.le_refl _
  · exact Nat.le_refl _
  · exact due

theorem credit_raised (stamp : t.stamp = s.stamp) : credit t ≤ credit s + 1 := by
  have one := dueTicks_le t
  unfold credit
  rw [stamp]
  split <;> omega

theorem credit_main {answer : MainAnswer} (held : Lifetimes s) (moves : MainMoves s answer t) :
    credit t ≤ credit s := by
  cases moves with
  | initRunFlag here =>
    apply credit_le
    · rfl
    · simp [dueTicks]
  | freesDue here =>
    apply credit_le
    · rfl
    · simp [dueTicks]
  | startsStamp here =>
    have idle := held.stamp
    rw [here] at idle
    unfold credit
    rw [show s.stamp = .notStarted from idle]
    exact Nat.le_refl _
  | _ => exact credit_le rfl (Nat.le_refl _)

theorem credit_stamp {answer : StampAnswer}
    (cond : LeavesOnTick s (.stamp answer)) (taken : stampStep s answer = some t) :
    recordsWritten s (.stamp answer) + credit t ≤ credit s := by
  unfold stampStep at taken
  split at taken
  · rename_i here
    rcases withFlag_cases (Option.some.inj taken) with ⟨running, _, rfl⟩ | ⟨_, rfl⟩
    · cases running <;> simp [recordsWritten, credit, here, dueTicks]
    · simp [recordsWritten, credit, here, dueTicks, Server.ends]
  · rename_i here
    rcases withFlag_cases (Option.some.inj taken) with ⟨running, flag, rfl⟩ | ⟨_, rfl⟩
    · cases running with
      | true => simp [recordsWritten, credit, here, dueTicks]
      | false => simp [recordsWritten, credit, here, dueTicks, cond rfl here flag]
    · simp [recordsWritten, credit, here, dueTicks, Server.ends]
  · rename_i here
    rcases withFlag_cases (Option.some.inj taken) with ⟨due, flag, rfl⟩ | ⟨_, rfl⟩
    · cases due with
      | true => simp [recordsWritten, credit, here, dueTicks, flag]
      | false => simp [recordsWritten, credit, here, dueTicks]
    · simp [recordsWritten, credit, here, dueTicks, Server.ends]
  · rename_i here
    split at taken
    · cases taken
      simp [recordsWritten, credit, here]
    · simp at taken
  · rename_i text here
    cases taken
    simp [recordsWritten, credit, here]
  · rename_i rest offer here
    cases taken
    by_cases nothing : offer ≤ 0
    · simp [recordsWritten, credit, here, nothing, Int.not_lt.mpr nothing]
    · by_cases last : rest.drop offer.toNat = []
      · simp [recordsWritten, credit, here, nothing, last, Int.not_le.mp nothing]
      · simp [recordsWritten, credit, here, nothing, last]
  · rename_i here
    cases taken
    simp [recordsWritten, credit, here]
  · rename_i here
    rcases withFlag_cases (Option.some.inj taken) with ⟨due, flag, rfl⟩ | ⟨_, rfl⟩
    · simp [recordsWritten, credit, here, dueTicks]
    · simp [recordsWritten, credit, here, Server.ends]
  · rename_i here
    cases taken
    simp [recordsWritten, credit, here, dueTicks]
  · simp at taken

theorem credit_signal {signal : Signal} (moves : SignalMoves s signal t) :
    credit t ≤ credit s + ticks (.signal signal) := by
  cases moves with
  | lowers caught stops => exact Nat.le_add_right_of_le (credit_le rfl (Nat.le_refl _))
  | raises caught alarm =>
    have tick : ticks (.signal signal) = 1 := by
      cases signal <;> simp_all [Signal.stops, ticks]
    rw [tick]
    exact credit_raised rfl
  | kills uncaught => exact Nat.le_add_right_of_le (credit_le rfl (Nat.le_refl _))

theorem credit_step (s : Server) (action : Action) (t : Server) (held : Lifetimes s)
    (cond : LeavesOnTick s action) (taken : machine.step s action = some t) :
    recordsWritten s action + credit t ≤ credit s + ticks action := by
  have taken : step s action = some t := taken
  cases step_moves taken with
  | main _ moves =>
    simp only [recordsWritten, Nat.zero_add]
    exact credit_main held moves
  | listen moves =>
    simp only [recordsWritten, Nat.zero_add]
    cases moves <;> exact credit_le rfl (Nat.le_refl _)
  | stamp _ => exact credit_stamp cond (stamp_taken taken)
  | handler _ moves =>
    simp only [recordsWritten, Nat.zero_add]
    cases moves <;> exact credit_le rfl (Nat.le_refl _)
  | client found =>
    simp only [recordsWritten, Nat.zero_add]
    exact credit_le rfl (Nat.le_refl _)
  | signal moves =>
    simp only [recordsWritten, Nat.zero_add]
    exact credit_signal moves

end Credit

/-- In a run in which a stop signal ends the wait only with a tick due as well, no more
    records are written than SIGALRMs are delivered. -/
theorem no_record_without_a_tick (daemonMode : Bool) (file : OpenFile) {actions : List Action}
    {s : Server} (along : machine.Along LeavesOnTick (boot daemonMode file) actions)
    (run : machine.run (boot daemonMode file) actions = some s) :
    machine.tally recordsWritten (boot daemonMode file) actions ≤ (actions.map ticks).sum := by
  have covered := tally_covered lifetimes_step credit_step (lifetimes_boot daemonMode file) along run
  have nothing : credit (boot daemonMode file) = 0 := rfl
  omega

def pass (text : List UInt8) : List Action :=
  [.stamp .ok, .stamp .ok, .stamp (.text text), .stamp (.prints (timestampRecord text).length)]

def stopAfterTick : List Action :=
  startup ++ [.stamp .ok, .signal .sigalrm, .signal .sigterm] ++ pass [48]

theorem tick_before_stop_pays_for_its_record :
    machine.tally recordsWritten (boot false ⟨[], 0⟩) stopAfterTick = 1 ∧
      machine.tally recordsWritten (boot false ⟨[], 0⟩) stopAfterTick ≤
        (stopAfterTick.map ticks).sum :=
  ⟨rfl, no_record_without_a_tick false ⟨[], 0⟩ (by decide) rfl⟩

/-- Wherever a stop signal ends the wait with no tick due, one record more gets written. -/
theorem stop_without_a_tick_prints {s : Server}
    (run : machine.run (boot daemonMode file) actions = some s) (running : s.status = .running)
    (here : s.stamp = .waitRun) (stop : s.runFlag = .live false) (free : s.mutex = none)
    (text : List UInt8) :
    machine.tally recordsWritten (boot daemonMode file) (actions ++ pass text) =
        machine.tally recordsWritten (boot daemonMode file) actions + 1 ∧
      ((actions ++ pass text).map ticks).sum = (actions.map ticks).sum := by
  constructor
  · rw [tally_append run]
    simp [pass, Machine.tally, machine, step, stampStep, Server.withFlag, recordsWritten, running,
      here, stop, free, timestampRecord, SharedLog.timestampTag, newlineArray]
    omega
  · simp [pass, ticks]

def stopWhileWaiting : List Action := startup ++ [.stamp .ok, .signal .sigterm] ++ pass [48]

theorem stop_signal_prints_a_record :
    ¬ machine.tally recordsWritten (boot false ⟨[], 0⟩) stopWhileWaiting ≤
      (stopWhileWaiting.map ticks).sum := by
  decide

end TimestampTicks
