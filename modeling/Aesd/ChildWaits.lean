import Mathlib.Logic.Function.Basic
import Aesd.TransitionRuns

/-! do_exec and do_exec_redirect in any number of threads of one process. Each call forks a
    child and waits for it, but waitpid is asked for any child of the process, and what it
    reports of another one is thrown away. -/
namespace ChildWaits
open TransitionRuns

abbrev Pid := Nat

inductive WaitStatus where
  | exited (code : UInt8)
  | signalled (signal : Nat)
  deriving DecidableEq, Repr

inductive Child where
  | running
  | waitable (status : WaitStatus)
  deriving DecidableEq, Repr

/-- The calls of do_exec_redirect, then those of do_fork_exec, which do_exec shares. -/
inductive CallPhase where
  | openFile
  | dupStdout
  | dupStderr
  | fork
  | awaiting (pid : Pid)
  | returned (didSucceed : Bool)
  deriving DecidableEq, Repr

structure Process where
  calls : List CallPhase
  children : Pid → Option Child

/-- What waitpid(-1, &wstatus, 0) returns: -1, or a child with its status. -/
inductive WaitReturn where
  | error
  | child (pid : Pid) (status : WaitStatus)
  deriving DecidableEq, Repr

/-- The loop body of await_child_proc after waitpid, none going round once more. -/
def awaitChildProc (pid : Pid) : WaitReturn → Option UInt8
  | .error => none
  | .child childAwaitEventPid wstatus =>
      if childAwaitEventPid ≠ pid then none
      else match wstatus with
        | .exited code => some code
        | .signalled _ => none

/-- The kernel ends running children and hands out any waitable one. -/
inductive Action where
  | doExec
  | doExecRedirect
  | system (call : Nat) (succeeds : Bool)
  | forks (call : Nat) (childPid : Option Pid)
  | terminates (pid : Pid) (status : WaitStatus)
  | waits (call : Nat) (result : WaitReturn)
  deriving DecidableEq, Repr

def Process.setCall (s : Process) (call : Nat) (phase : CallPhase) : Process :=
  { s with calls := s.calls.set call phase }

def Process.setChild (s : Process) (pid : Pid) (child : Option Child) : Process :=
  { s with children := Function.update s.children pid child }

/-- waitpid takes a waitable child away; its errors, ECHILD and EINTR, take none. -/
def Process.reap (s : Process) : WaitReturn → Option Process
  | .error => some s
  | .child pid status =>
      if s.children pid = some (.waitable status) then some (s.setChild pid none) else none

def awaitsNext (pid : Pid) (result : WaitReturn) : CallPhase :=
  match awaitChildProc pid result with
  | none => .awaiting pid
  | some code => .returned (code == 0)

def step (s : Process) : Action → Option Process
  | .doExec => some { s with calls := s.calls ++ [.fork] }
  | .doExecRedirect => some { s with calls := s.calls ++ [.openFile] }
  | .system call succeeds =>
      match s.calls[call]? with
      | some .openFile => some (s.setCall call (if succeeds then .dupStdout else .returned false))
      | some .dupStdout => some (s.setCall call (if succeeds then .dupStderr else .returned false))
      | some .dupStderr => some (s.setCall call (if succeeds then .fork else .returned false))
      | _ => none
  | .forks call childPid =>
      match s.calls[call]?, childPid with
      | some .fork, none => some (s.setCall call (.returned false))
      | some .fork, some pid =>
          if pid ≠ 0 ∧ s.children pid = none then
            some ((s.setChild pid (some .running)).setCall call (.awaiting pid))
          else none
      | _, _ => none
  | .terminates pid status =>
      if s.children pid = some .running then some (s.setChild pid (some (.waitable status)))
      else none
  | .waits call result =>
      match s.calls[call]? with
      | some (.awaiting pid) => (s.reap result).map fun t => t.setCall call (awaitsNext pid result)
      | _ => none

def machine : Machine Process Action := ⟨step⟩

def start : Process := ⟨[], fun _ => none⟩

def ConsumedByItsCall (s : Process) : Action → Prop
  | .waits call (.child pid _) => s.calls[call]? = some (.awaiting pid)
  | _ => True

def ChildrenKept (s : Process) : Prop :=
  ∀ (call : Nat) (pid : Pid), s.calls[call]? = some (.awaiting pid) → (s.children pid).isSome

/-- Both, in every state of a run and for every step that it takes. -/
def WaitsDoNotSteal (actions : List Action) : Prop :=
  ∀ past s, past <+: actions → machine.run start past = some s →
    ChildrenKept s ∧
      ∀ action t, past ++ [action] <+: actions → machine.step s action = some t →
        ConsumedByItsCall s action

/-- When waitpid returns a child, the only one that is waitable is the caller's own, and it
    was not killed by a signal. -/
def OnlyOwnWaitable (s : Process) : Action → Prop
  | .waits call (.child _ _) =>
      ∀ (pid other : Pid) (status : WaitStatus), s.calls[call]? = some (.awaiting pid) →
        s.children other = some (.waitable status) → other = pid ∧ ∃ code, status = .exited code
  | _ => True

structure Owned (s : Process) : Prop where
  kept : ChildrenKept s
  distinct : ∀ (one two : Nat) (pid : Pid), s.calls[one]? = some (.awaiting pid) →
    s.calls[two]? = some (.awaiting pid) → one = two

theorem owned_start : Owned start where
  kept := by intro call pid here; simp [start] at here
  distinct := by intro one two pid here; simp [start] at here

section Steps
variable {s t : Process}

theorem lookup_set {call other : Nat} {phase found : CallPhase}
    (here : (s.setCall call phase).calls[other]? = some found) :
    (other = call ∧ found = phase) ∨ (other ≠ call ∧ s.calls[other]? = some found) := by
  simp only [Process.setCall, List.getElem?_set] at here
  by_cases same : call = other
  · rw [if_pos same] at here
    split at here
    · exact Or.inl ⟨same.symm, (Option.some.inj here).symm⟩
    · simp at here
  · rw [if_neg same] at here
    exact Or.inr ⟨Ne.symm same, here⟩

theorem awaiting_snoc {phase : CallPhase} (idle : ∀ pid, phase ≠ .awaiting pid) {call pid : Nat}
    (here : (s.calls ++ [phase])[call]? = some (.awaiting pid)) :
    s.calls[call]? = some (.awaiting pid) := by
  rw [List.getElem?_append] at here
  split at here
  · exact here
  · rw [List.getElem?_singleton] at here
    split at here
    · exact absurd (Option.some.inj here) (idle pid)
    · simp at here

theorem owned_snoc (held : Owned s) {phase : CallPhase} (idle : ∀ pid, phase ≠ .awaiting pid) :
    Owned { s with calls := s.calls ++ [phase] } where
  kept := fun call pid here => held.kept call pid (awaiting_snoc idle here)
  distinct := fun one two pid first second =>
    held.distinct one two pid (awaiting_snoc idle first) (awaiting_snoc idle second)

/-- A call that is not left waiting for a child changes nothing for the others. -/
theorem owned_set (held : Owned s) {call : Nat} {phase : CallPhase}
    (idle : ∀ pid, phase ≠ .awaiting pid) : Owned (s.setCall call phase) where
  kept := by
    intro other pid here
    rcases lookup_set here with ⟨_, same⟩ | ⟨_, before⟩
    · exact absurd same.symm (idle pid)
    · exact held.kept other pid before
  distinct := by
    intro one two pid first second
    rcases lookup_set first with ⟨_, same⟩ | ⟨_, before⟩
    · exact absurd same.symm (idle pid)
    · rcases lookup_set second with ⟨_, same⟩ | ⟨_, beforeToo⟩
      · exact absurd same.symm (idle pid)
      · exact held.distinct one two pid before beforeToo

theorem owned_child (held : Owned s) (pid : Pid) (child : Child) :
    Owned (s.setChild pid (some child)) where
  kept := by
    intro call other here
    by_cases same : other = pid
    · simp [Process.setChild, same]
    · simpa [Process.setChild, Function.update_of_ne same] using held.kept call other here
  distinct := held.distinct

theorem owned_fork (held : Owned s) {call : Nat} {pid : Pid} (fresh : s.children pid = none) :
    Owned ((s.setChild pid (some .running)).setCall call (.awaiting pid)) := by
  have unclaimed : ∀ other : Nat, s.calls[other]? ≠ some (CallPhase.awaiting pid) := by
    intro other here
    have present := held.kept other pid here
    simp [fresh] at present
  have child := owned_child held pid .running
  constructor
  · intro other claimed here
    rcases lookup_set here with ⟨_, same⟩ | ⟨_, before⟩
    · obtain rfl := CallPhase.awaiting.inj same
      simp [Process.setCall, Process.setChild]
    · exact child.kept other claimed before
  · intro one two claimed first second
    rcases lookup_set first with ⟨rfl, same⟩ | ⟨_, before⟩
    · obtain rfl := CallPhase.awaiting.inj same
      rcases lookup_set second with ⟨rfl, _⟩ | ⟨_, beforeToo⟩
      · rfl
      · exact absurd beforeToo (unclaimed two)
    · rcases lookup_set second with ⟨rfl, same⟩ | ⟨_, beforeToo⟩
      · obtain rfl := CallPhase.awaiting.inj same
        exact absurd before (unclaimed one)
      · exact held.distinct one two claimed before beforeToo

theorem owned_reap (held : Owned s) {call : Nat} {pid : Pid} {didSucceed : Bool}
    (here : s.calls[call]? = some (.awaiting pid)) :
    Owned ((s.setChild pid none).setCall call (.returned didSucceed)) where
  kept := by
    intro other claimed there
    rcases lookup_set there with ⟨_, same⟩ | ⟨differs, before⟩
    · simp at same
    · have elsewhere : claimed ≠ pid := by
        rintro rfl
        exact differs (held.distinct other call claimed before here)
      have present := held.kept other claimed before
      simpa [Process.setCall, Process.setChild, Function.update_of_ne elsewhere] using present
  distinct := by
    intro one two claimed first second
    rcases lookup_set first with ⟨_, same⟩ | ⟨_, before⟩
    · simp at same
    · rcases lookup_set second with ⟨_, same⟩ | ⟨_, beforeToo⟩
      · simp at same
      · exact held.distinct one two claimed before beforeToo

theorem waits_cases {call : Nat} {result : WaitReturn} (taken : step s (.waits call result) = some t) :
    ∃ pid mid, s.calls[call]? = some (.awaiting pid) ∧ s.reap result = some mid ∧
      t = mid.setCall call (awaitsNext pid result) := by
  simp only [step] at taken
  split at taken
  · rename_i pid here
    obtain ⟨mid, reaped, rfl⟩ := Option.map_eq_some_iff.mp taken
    exact ⟨pid, mid, here, reaped, rfl⟩
  · simp at taken

theorem reap_cases {pid : Pid} {status : WaitStatus} {mid : Process}
    (reaped : s.reap (.child pid status) = some mid) :
    s.children pid = some (.waitable status) ∧ mid = s.setChild pid none := by
  simp only [Process.reap] at reaped
  split at reaped
  · rename_i waitable
    exact ⟨waitable, (Option.some.inj reaped).symm⟩
  · simp at reaped

theorem set_same {call : Nat} {phase : CallPhase} (here : s.calls[call]? = some phase) :
    s.setCall call phase = s := by
  obtain ⟨inside, rfl⟩ := List.getElem?_eq_some_iff.mp here
  simp only [Process.setCall, List.set_getElem_self]

theorem owned_step (s : Process) (action : Action) (t : Process) (held : Owned s)
    (cond : OnlyOwnWaitable s action) (taken : machine.step s action = some t) : Owned t := by
  cases action with
  | doExec =>
    cases taken
    exact owned_snoc held (by simp)
  | doExecRedirect =>
    cases taken
    exact owned_snoc held (by simp)
  | system call succeeds =>
    simp only [machine, step] at taken
    split at taken
    · cases taken
      exact owned_set held (by cases succeeds <;> simp)
    · cases taken
      exact owned_set held (by cases succeeds <;> simp)
    · cases taken
      exact owned_set held (by cases succeeds <;> simp)
    · simp at taken
  | forks call childPid =>
    simp only [machine, step] at taken
    split at taken
    · cases taken
      exact owned_set held (by simp)
    · split at taken
      · rename_i fresh
        cases taken
        exact owned_fork held fresh.2
      · simp at taken
    · simp at taken
  | terminates pid status =>
    simp only [machine, step] at taken
    split at taken
    · cases taken
      exact owned_child held pid _
    · simp at taken
  | waits call result =>
    obtain ⟨pid, mid, here, reaped, rfl⟩ := waits_cases taken
    cases result with
    | error =>
      obtain rfl := Option.some.inj reaped
      rw [show awaitsNext pid .error = .awaiting pid from rfl, set_same here]
      exact held
    | child other status =>
      obtain ⟨waitable, rfl⟩ := reap_cases reaped
      obtain ⟨rfl, code, rfl⟩ := cond pid other status here waitable
      have returns : awaitsNext other (.child other (.exited code)) = .returned (code == 0) := by
        simp [awaitsNext, awaitChildProc]
      rw [returns]
      exact owned_reap held here

theorem consumed_of_own {action : Action} (cond : OnlyOwnWaitable s action)
    (taken : machine.step s action = some t) : ConsumedByItsCall s action := by
  cases action with
  | waits call result =>
    obtain ⟨pid, mid, here, reaped, rfl⟩ := waits_cases taken
    cases result with
    | error => trivial
    | child other status =>
      obtain ⟨waitable, _⟩ := reap_cases reaped
      obtain ⟨rfl, _⟩ := cond pid other status here waitable
      exact here
  | _ => trivial

/-- A waitpid that returns anything else loses a child: another call's, or the caller's own
    while it goes on waiting. -/
theorem steals_otherwise {past : List Action} {call : Nat} {pid other : Pid} {status : WaitStatus}
    (run : machine.run start past = some s) (here : s.calls[call]? = some (.awaiting pid))
    (waitable : s.children other = some (.waitable status))
    (foreign : ¬ (other = pid ∧ ∃ code, status = .exited code)) :
    ¬ WaitsDoNotSteal (past ++ [.waits call (.child other status)]) := by
  intro keeps
  have taken : machine.step s (.waits call (.child other status)) =
      some ((s.setChild other none).setCall call (awaitsNext pid (.child other status))) := by
    simp [machine, step, here, Process.reap, waitable]
  by_cases own : other = pid
  · subst own
    cases status with
    | exited code => exact foreign ⟨rfl, code, rfl⟩
    | signalled signal =>
      have goesOn : awaitsNext other (.child other (.signalled signal)) = .awaiting other := by
        simp [awaitsNext, awaitChildProc]
      rw [goesOn] at taken
      have kept := (keeps _ _ List.prefix_rfl (run_snoc_iff.mpr ⟨s, run, taken⟩)).1
      obtain ⟨inside, _⟩ := List.getElem?_eq_some_iff.mp here
      have gone := kept call other (List.getElem?_set_self inside)
      simp [Process.setCall, Process.setChild] at gone
  · have consumed := (keeps past s (List.prefix_append _ _) run).2 _ _ List.prefix_rfl taken
    have same : some (CallPhase.awaiting pid) = some (.awaiting other) := here.symm.trans consumed
    exact own (CallPhase.awaiting.inj (Option.some.inj same)).symm

end Steps

/-- No call steals from another in a run where, whenever waitpid returns a child, only the
    caller's own is waitable and has exited. -/
theorem waits_do_not_steal_when {actions : List Action}
    (along : machine.Along OnlyOwnWaitable start actions) : WaitsDoNotSteal actions := by
  intro past s front run
  have held := invariant_along owned_step owned_start (along_front along front) run
  refine ⟨held.kept, ?_⟩
  rintro action t ⟨rest, split⟩ taken
  have cond := along_iff_split.mp along past action rest s
    (by rw [← split, List.append_assoc, List.singleton_append]) run
  exact consumed_of_own cond taken

def twoChildrenInTurn : List Action :=
  [.doExec, .doExec, .forks 0 (some 101), .forks 1 (some 102), .terminates 102 (.exited 1),
    .waits 1 (.child 102 (.exited 1)), .terminates 101 (.exited 0), .waits 0 (.child 101 (.exited 0))]

theorem only_waitable {children : Pid → Option Child} {pid other : Pid} {code : UInt8}
    {status : WaitStatus} (none_else : ∀ child stopped, children child ≠ some (.waitable stopped))
    (waitable : Function.update children pid (some (.waitable (.exited code))) other =
      some (.waitable status)) : other = pid ∧ ∃ code, status = .exited code := by
  by_cases own : other = pid
  · simp only [own, Function.update_self, Option.some.injEq, Child.waitable.injEq] at waitable
    exact ⟨own, code, waitable.symm⟩
  · rw [Function.update_of_ne own] at waitable
    exact absurd waitable (none_else other status)

theorem children_in_turn_are_not_stolen : WaitsDoNotSteal twoChildrenInTurn := by
  have none_running (child : Pid) (stopped : WaitStatus) :
      Function.update (fun _ => none) 101 (some Child.running) child ≠ some (.waitable stopped) := by
    by_cases first : child = 101 <;> simp [first]
  have none_left (child : Pid) (stopped : WaitStatus) :
      Function.update (Function.update (fun _ => none) 101 (some Child.running)) 102 none child ≠
        some (.waitable stopped) := by
    by_cases second : child = 102
    · simp [second]
    · rw [Function.update_of_ne second]
      exact none_running child stopped
  apply waits_do_not_steal_when
  iterate 5 refine along_cons_of_step trivial rfl ?_
  refine along_cons_of_step ?_ rfl ?_
  · intro pid other status here waitable
    cases here
    simp only [start, Process.setChild, Process.setCall, Function.update_idem] at waitable
    exact only_waitable none_running waitable
  refine along_cons_of_step trivial rfl ?_
  refine along_cons_of_step ?_ rfl trivial
  intro pid other status here waitable
  cases here
  simp only [start, Process.setChild, Process.setCall, Function.update_idem] at waitable
  exact only_waitable none_left waitable

def firstChildEnds : List Action :=
  [.doExec, .doExec, .forks 0 (some 101), .forks 1 (some 102), .terminates 101 (.exited 0)]

theorem second_call_takes_the_first_child :
    ¬ WaitsDoNotSteal (firstChildEnds ++ [.waits 1 (.child 101 (.exited 0))]) := by
  have run : machine.run start firstChildEnds = some
      ⟨[.awaiting 101, .awaiting 102],
        Function.update (Function.update (Function.update (fun _ => none) 101 (some .running)) 102
          (some .running)) 101 (some (.waitable (.exited 0)))⟩ := by
    rfl
  exact steals_otherwise run rfl (by simp) (by simp)

end ChildWaits
