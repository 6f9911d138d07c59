import Aesd.ChildWaits

/-! A call of do_fork_exec alone in its process, on what its calls of waitpid return. The
    history lists these returns in any order that the kernel may choose; when it has run
    out no child remains, and waitpid returns -1 for ever. -/
namespace AwaitedChild
open ChildWaits

def awaitCalls (pid : Pid) : Nat → List WaitReturn → Option UInt8
  | 0, _ => none
  | calls + 1, history =>
      match awaitChildProc pid (history.headD .error) with
      | some code => some code
      | none => awaitCalls pid calls history.tail

/-- do_fork_exec in the parent, on the return of fork, none being -1. -/
def doForkExec (childPid : Option Pid) (calls : Nat) (history : List WaitReturn) : Option Bool :=
  match childPid with
  | none => some false
  | some pid => (awaitCalls pid calls history).map fun exitCode => exitCode == 0

def reportedPid : WaitReturn → Option Pid
  | .error => none
  | .child pid _ => some pid

def ReportedOnce (history : List WaitReturn) : Prop := (history.filterMap reportedPid).Nodup

structure WaitEnds (pid : Pid) (history : List WaitReturn) : Prop where
  returns : ∃ calls code, awaitCalls pid calls history = some code
  succeeds_only : ∀ calls, doForkExec (some pid) calls history = some true →
    .child pid (.exited 0) ∈ history

theorem awaitChildProc_iff {pid : Pid} {result : WaitReturn} {code : UInt8} :
    awaitChildProc pid result = some code ↔ result = .child pid (.exited code) := by
  cases result with
  | error => simp [awaitChildProc]
  | child other status =>
    by_cases own : other = pid
    · cases status with
      | exited status => simp [awaitChildProc, own]
      | signalled signal => simp [awaitChildProc]
    · simp [awaitChildProc, own]

theorem awaitCalls_reported {pid : Pid} {calls : Nat} {history : List WaitReturn} {code : UInt8}
    (returned : awaitCalls pid calls history = some code) : .child pid (.exited code) ∈ history := by
  induction calls generalizing history with
  | zero => simp [awaitCalls] at returned
  | succ calls ih =>
    rw [awaitCalls] at returned
    split at returned
    · rename_i here
      obtain rfl := Option.some.inj returned
      have first := awaitChildProc_iff.mp here
      cases history with
      | nil => simp at first
      | cons result later =>
        rw [List.headD_cons] at first
        rw [first]
        exact List.mem_cons_self
    · exact List.mem_of_mem_tail (ih returned)

theorem awaitCalls_returns {pid : Pid} {history : List WaitReturn} {code : UInt8}
    (exits : .child pid (.exited code) ∈ history) :
    ∃ found, awaitCalls pid history.length history = some found := by
  induction history with
  | nil => cases exits
  | cons result later ih =>
    rw [List.length_cons, awaitCalls, List.headD_cons, List.tail_cons]
    cases here : awaitChildProc pid result with
    | some found => exact ⟨found, rfl⟩
    | none =>
      rcases List.mem_cons.mp exits with first | exits
      · have found := awaitChildProc_iff.mpr first.symm
        rw [here] at found
        cases found
      · exact ih exits

theorem await_returns_iff {pid : Pid} {history : List WaitReturn} :
    (∃ calls code, awaitCalls pid calls history = some code) ↔
      ∃ code, .child pid (.exited code) ∈ history := by
  constructor
  · rintro ⟨calls, code, returned⟩
    exact ⟨code, awaitCalls_reported returned⟩
  · rintro ⟨code, exits⟩
    exact ⟨history.length, awaitCalls_returns exits⟩

theorem doForkExec_true {pid : Pid} {calls : Nat} {history : List WaitReturn}
    (succeeds : doForkExec (some pid) calls history = some true) :
    .child pid (.exited 0) ∈ history := by
  simp only [doForkExec, Option.map_eq_some_iff, beq_iff_eq] at succeeds
  obtain ⟨code, returned, zero⟩ := succeeds
  rw [zero] at returned
  exact awaitCalls_reported returned

theorem reportedOnce_error (later : List WaitReturn) :
    ReportedOnce (.error :: later) ↔ ReportedOnce later := by
  unfold ReportedOnce
  rw [List.filterMap_cons_none (by rfl)]

theorem reportedOnce_child (pid : Pid) (status : WaitStatus) (later : List WaitReturn) :
    ReportedOnce (.child pid status :: later) ↔
      (∀ other, .child pid other ∉ later) ∧ ReportedOnce later := by
  unfold ReportedOnce
  rw [@List.filterMap_cons_some _ _ reportedPid _ later pid (by rfl), List.nodup_cons]
  apply and_congr_left
  intro _
  rw [List.mem_filterMap]
  constructor
  · intro fresh other member
    exact fresh ⟨_, member, rfl⟩
  · intro fresh reported
    obtain ⟨result, member, same⟩ := reported
    cases result with
    | error => cases same
    | child first other =>
      obtain rfl := Option.some.inj same
      exact fresh other member

theorem one_status {history : List WaitReturn} (once : ReportedOnce history) {pid : Pid}
    {status other : WaitStatus} (member : .child pid status ∈ history)
    (again : .child pid other ∈ history) : status = other := by
  induction history with
  | nil => cases member
  | cons result later ih =>
    cases result with
    | error =>
      rw [reportedOnce_error] at once
      exact ih once (by simpa using member) (by simpa using again)
    | child first ended =>
      rw [reportedOnce_child] at once
      obtain ⟨fresh, once⟩ := once
      simp only [List.mem_cons, WaitReturn.child.injEq] at member again
      rcases member with ⟨rfl, rfl⟩ | member
      · rcases again with ⟨_, rfl⟩ | again
        · rfl
        · exact absurd again (fresh other)
      · rcases again with ⟨rfl, rfl⟩ | again
        · exact absurd member (fresh status)
        · exact ih once member again

/-- The wait for a child that ends is over exactly if the child ends by exiting. -/
theorem await_ends_iff {pid : Pid} {status : WaitStatus} {history : List WaitReturn}
    (once : ReportedOnce history) (ends : .child pid status ∈ history) :
    WaitEnds pid history ↔ ∃ code, status = .exited code := by
  constructor
  · intro wait
    obtain ⟨code, exits⟩ := await_returns_iff.mp wait.returns
    exact ⟨code, one_status once ends exits⟩
  · rintro ⟨code, rfl⟩
    constructor
    · exact await_returns_iff.mpr ⟨code, ends⟩
    · intro calls succeeds
      exact doForkExec_true succeeds

/-- Another child exits before and one is killed after it. -/
theorem exit_code_is_awaited :
    WaitEnds 101 [.child 99 (.exited 0), .child 101 (.exited 3), .child 100 (.signalled 9)] ↔
      ∃ code, WaitStatus.exited 3 = .exited code :=
  await_ends_iff (by simp [ReportedOnce, reportedPid]) (by simp)

theorem killed_child_is_awaited_for_ever :
    ReportedOnce [.child 101 (.signalled 9)] ∧ ¬ WaitEnds 101 [.child 101 (.signalled 9)] := by
  constructor
  · simp [ReportedOnce, reportedPid]
  · intro wait
    obtain ⟨code, exits⟩ := await_returns_iff.mp wait.returns
    simp at exits

end AwaitedChild
