import Aesd.ServerLifetimes

/-! Which memory signal_handler touches. Its handlers are installed after the flags are
    allocated but stay installed while main frees them. -/
namespace SignalSafety
open TransitionRuns PacketAppend ServerState ServerSteps ServerMoves ServerLifetimes

instance (cell : FlagCell) : Decidable (Live cell) :=
  match cell with
  | .live value => isTrue ⟨value, rfl⟩
  | .unset => isFalse (by simp [Live])
  | .freed => isFalse (by simp [Live])

/-- A delivery that signal_handler sees stores to a flag that is allocated and not freed. -/
def TouchesLiveFlag (s : Server) : Action → Prop
  | .signal signal =>
      signal ∈ s.caught → Live (if signal.stops then s.runFlag else s.timestampDueFlag)
  | _ => True

def RunFlagFreed : MainPhase → Prop
  | .freeListeningFlag => True
  | .freeDueFlag => True
  | .removeFile => True
  | .finished => True
  | _ => False

def DueFlagFreed : MainPhase → Prop
  | .removeFile => True
  | .finished => True
  | _ => False

def ArrivesBeforeFree (s : Server) : Action → Prop
  | .signal signal =>
      signal ∈ s.caught → ¬ if signal.stops then RunFlagFreed s.main else DueFlagFreed s.main
  | _ => True

instance (s : Server) : (action : Action) → Decidable (TouchesLiveFlag s action)
  | .signal signal =>
      if caught : signal ∈ s.caught then
        decidable_of_iff (Live (if signal.stops then s.runFlag else s.timestampDueFlag))
          ⟨fun live _ => live, fun touches => touches caught⟩
      else isTrue fun member => absurd member caught
  | .main _ => isTrue trivial
  | .listen _ => isTrue trivial
  | .stamp _ => isTrue trivial
  | .handler _ _ => isTrue trivial
  | .client _ _ => isTrue trivial

theorem run_flag_live_iff {s : Server} (held : Lifetimes s) (booted : stage s.main ≠ .booting) :
    Live s.runFlag ↔ ¬ RunFlagFreed s.main := by
  have flag := held.runFlag
  cases main : s.main <;> rw [main] at flag booted <;>
    simp_all [RunFlagFreed, runFlagAt, stage, Live]

theorem due_flag_live_iff {s : Server} (held : Lifetimes s) (booted : stage s.main ≠ .booting) :
    Live s.timestampDueFlag ↔ ¬ DueFlagFreed s.main := by
  have flag := held.dueFlag
  cases main : s.main <;> rw [main] at flag booted <;>
    simp_all [DueFlagFreed, dueFlagAt, stage, Live]

theorem touches_iff_arrives (s : Server) (action : Action) (held : Lifetimes s) :
    TouchesLiveFlag s action ↔ ArrivesBeforeFree s action := by
  cases action with
  | signal signal =>
    simp only [TouchesLiveFlag, ArrivesBeforeFree]
    apply forall_congr'
    intro caught
    have booted : stage s.main ≠ .booting := by
      intro booting
      rw [held.caught booting] at caught
      simp at caught
    cases signal.stops with
    | true => exact run_flag_live_iff held booted
    | false => exact due_flag_live_iff held booted
  | main answer => exact Iff.rfl
  | listen answer => exact Iff.rfl
  | stamp answer => exact Iff.rfl
  | handler index answer => exact Iff.rfl
  | client index event => exact Iff.rfl

/-- In every run signal_handler touches only live flags exactly when no signal comes after
    the flag it stores to was freed; none can come before the flags are allocated. -/
theorem signal_handler_touches_live_flags_iff (daemonMode : Bool) (file : OpenFile)
    (actions : List Action) :
    machine.Along TouchesLiveFlag (boot daemonMode file) actions ↔
      machine.Along ArrivesBeforeFree (boot daemonMode file) actions :=
  along_congr lifetimes_step touches_iff_arrives (lifetimes_boot daemonMode file) actions

theorem second_sigterm_touches_a_freed_flag :
    ¬ machine.Along TouchesLiveFlag (boot false ⟨[], 0⟩)
      (startup ++ quietStop ++ [.signal .sigterm]) := by
  decide

end SignalSafety
