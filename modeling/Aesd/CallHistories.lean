import Aesd.AwaitedChild

/-! The calls of do_exec and do_exec_redirect in one process, each told by what fork and
    waitpid have returned to it. In any interleaving a call does what do_fork_exec does alone
    on these returns. Calls made one after the other keep their children to themselves and
    leave none behind. -/
namespace CallHistories
open TransitionRuns ChildWaits AwaitedChild

def forkReturn (call : Nat) : Action → Option (Option Pid)
  | .forks other childPid => if other = call then some childPid else none
  | _ => none

def waitReturn (call : Nat) : Action → Option WaitReturn
  | .waits other result => if other = call then some result else none
  | _ => none

/-- What fork returns to a call, none being -1. -/
def forksOf (call : Nat) (actions : List Action) : List (Option Pid) :=
  actions.filterMap (forkReturn call)

def waitsOf (call : Nat) (actions : List Action) : List WaitReturn :=
  actions.filterMap (waitReturn call)

def Told (forks : List (Option Pid)) (waits : List WaitReturn) : CallPhase → Prop
  | .awaiting pid => forks = [some pid] ∧ awaitCalls pid waits.length waits = none
  | .returned didSucceed =>
      (forks = [] ∧ waits = [] ∧ didSucceed = false) ∨
        ∃ childPid, forks = [childPid] ∧ doForkExec childPid waits.length waits = some didSucceed
  | _ => forks = [] ∧ waits = []

theorem awaitCalls_snoc {pid : Pid} {waits : List WaitReturn}
    (waiting : awaitCalls pid waits.length waits = none) (result : WaitReturn) :
    awaitCalls pid (waits ++ [result]).length (waits ++ [result]) = awaitChildProc pid result := by
  induction waits with
  | nil =>
    simp only [List.nil_append, List.length_singleton, awaitCalls, List.headD_cons]
    cases awaitChildProc pid result <;> rfl
  | cons first later ih =>
    rw [List.length_cons, awaitCalls, List.headD_cons, List.tail_cons] at waiting
    rw [List.cons_append, List.length_cons, awaitCalls, List.headD_cons, List.tail_cons]
    cases here : awaitChildProc pid first with
    | some code => simp [here] at waiting
    | none =>
      simp only [here] at waiting
      exact ih waiting

structure AllTold (past : List Action) (s : Process) : Prop where
  told : ∀ (call : Nat) (phase : CallPhase), s.calls[call]? = some phase →
    Told (forksOf call past) (waitsOf call past) phase
  absent : ∀ call : Nat, s.calls.length ≤ call → forksOf call past = [] ∧ waitsOf call past = []

section Steps
variable {s t : Process} {past : List Action}

theorem histories_kept {action : Action} {call : Nat} (forks : forkReturn call action = none)
    (waits : waitReturn call action = none) :
    forksOf call (past ++ [action]) = forksOf call past ∧
      waitsOf call (past ++ [action]) = waitsOf call past := by
  simp [forksOf, waitsOf, forks, waits]

theorem told_snoc (held : AllTold past s) {phase : CallPhase} (begins : Told [] [] phase)
    {action : Action} (forks : ∀ call, forkReturn call action = none)
    (waits : ∀ call, waitReturn call action = none) :
    AllTold (past ++ [action]) { s with calls := s.calls ++ [phase] } := by
  constructor
  · intro call found here
    obtain ⟨sameForks, sameWaits⟩ := @histories_kept past action call (forks call) (waits call)
    rw [sameForks, sameWaits]
    simp only [List.getElem?_append] at here
    split at here
    · exact held.told call found here
    · rename_i outside
      obtain rfl : found = phase := by simpa using List.mem_of_getElem? here
      obtain ⟨noForks, noWaits⟩ := held.absent call (by omega)
      rw [noForks, noWaits]
      exact begins
  · intro call outside
    obtain ⟨sameForks, sameWaits⟩ := @histories_kept past action call (forks call) (waits call)
    rw [sameForks, sameWaits]
    simp only [List.length_append, List.length_singleton] at outside
    exact held.absent call (by omega)

theorem told_set (held : AllTold past s) {call : Nat} {before phase : CallPhase} {action : Action}
    (found : s.calls[call]? = some before)
    (goes : Told (forksOf call (past ++ [action])) (waitsOf call (past ++ [action])) phase)
    (other : ∀ conn, conn ≠ call → forkReturn conn action = none ∧ waitReturn conn action = none)
    (calls : t.calls = s.calls.set call phase) : AllTold (past ++ [action]) t := by
  obtain ⟨inside, _⟩ := List.getElem?_eq_some_iff.mp found
  constructor
  · intro conn there here
    rw [calls, List.getElem?_set] at here
    by_cases same : call = conn
    · subst same
      rw [if_pos rfl, if_pos inside] at here
      obtain rfl := Option.some.inj here
      exact goes
    · rw [if_neg same] at here
      obtain ⟨noFork, noWait⟩ := other conn (Ne.symm same)
      obtain ⟨sameForks, sameWaits⟩ := @histories_kept past action conn noFork noWait
      rw [sameForks, sameWaits]
      exact held.told conn there here
  · intro conn outside
    rw [calls, List.length_set] at outside
    have apart : conn ≠ call := by omega
    obtain ⟨noFork, noWait⟩ := other conn apart
    obtain ⟨sameForks, sameWaits⟩ := @histories_kept past action conn noFork noWait
    rw [sameForks, sameWaits]
    exact held.absent conn outside

theorem told_step {action : Action} (held : AllTold past s) (taken : step s action = some t) :
    AllTold (past ++ [action]) t := by
  cases action with
  | doExec =>
    cases taken
    exact @told_snoc _ _ held .fork ⟨rfl, rfl⟩ .doExec (fun _ => rfl) (fun _ => rfl)
  | doExecRedirect =>
    cases taken
    exact @told_snoc _ _ held .openFile ⟨rfl, rfl⟩ .doExecRedirect (fun _ => rfl) (fun _ => rfl)
  | terminates pid status =>
    have kept (call : Nat) := @histories_kept past (.terminates pid status) call rfl rfl
    simp only [step] at taken
    split at taken
    · cases taken
      constructor
      · intro call phase here
        rw [(kept call).1, (kept call).2]
        exact held.told call phase here
      · intro call outside
        rw [(kept call).1, (kept call).2]
        exact held.absent call outside
    · cases taken
  | system call succeeds =>
    have kept := @histories_kept past (.system call succeeds) call rfl rfl
    have quiet (conn : Nat) (_ : conn ≠ call) : forkReturn conn (.system call succeeds) = none ∧
        waitReturn conn (.system call succeeds) = none := ⟨rfl, rfl⟩
    have goes {next : CallPhase} (nothing : forksOf call past = [] ∧ waitsOf call past = [])
        (begins : Told [] [] next) :
        Told (forksOf call (past ++ [.system call succeeds]))
          (waitsOf call (past ++ [.system call succeeds])) (if succeeds then next else .returned false) := by
      rw [kept.1, kept.2, nothing.1, nothing.2]
      cases succeeds with
      | true => exact begins
      | false => exact Or.inl ⟨rfl, rfl, rfl⟩
    simp only [step] at taken
    split at taken
    · rename_i here
      cases taken
      exact told_set held here (@goes .dupStdout (held.told call _ here) ⟨rfl, rfl⟩) quiet rfl
    · rename_i here
      cases taken
      exact told_set held here (@goes .dupStderr (held.told call _ here) ⟨rfl, rfl⟩) quiet rfl
    · rename_i here
      cases taken
      exact told_set held here (@goes .fork (held.told call _ here) ⟨rfl, rfl⟩) quiet rfl
    · cases taken
  | forks call childPid =>
    have apart (conn : Nat) (other : conn ≠ call) : forkReturn conn (.forks call childPid) = none ∧
        waitReturn conn (.forks call childPid) = none := by
      simp [forkReturn, waitReturn, Ne.symm other]
    simp only [step] at taken
    split at taken
    · rename_i here
      cases taken
      obtain ⟨forks, waits⟩ := held.told call _ here
      apply told_set held here _ apart rfl
      right
      exact ⟨none, by simpa [forksOf, forkReturn] using forks, by rfl⟩
    · rename_i pid here
      obtain ⟨forks, waits⟩ := held.told call _ here
      split at taken
      · cases taken
        apply told_set held here _ apart rfl
        constructor
        · simpa [forksOf, forkReturn] using forks
        · rw [show waitsOf call (past ++ [.forks call (some pid)]) = [] by
            simpa [waitsOf, waitReturn] using waits]
          rfl
      · cases taken
    · cases taken
  | waits call result =>
    obtain ⟨pid, mid, here, reaped, rfl⟩ := waits_cases taken
    have apart (conn : Nat) (other : conn ≠ call) : forkReturn conn (.waits call result) = none ∧
        waitReturn conn (.waits call result) = none := by
      simp [forkReturn, waitReturn, Ne.symm other]
    obtain ⟨forks, waiting⟩ := held.told call _ here
    have calls : mid.calls = s.calls := by
      cases result with
      | error => rw [← Option.some.inj reaped]
      | child other status => rw [(reap_cases reaped).2]; rfl
    have sameForks : forksOf call (past ++ [.waits call result]) = forksOf call past := by
      simp [forksOf, forkReturn]
    have oneMore : waitsOf call (past ++ [.waits call result]) = waitsOf call past ++ [result] := by
      simp [waitsOf, waitReturn]
    have next := awaitCalls_snoc waiting result
    apply told_set held here _ apart (by rw [Process.setCall, calls])
    rw [sameForks, oneMore, awaitsNext]
    cases ends : awaitChildProc pid result with
    | none => exact ⟨forks, next.trans ends⟩
    | some code =>
      right
      refine ⟨some pid, forks, ?_⟩
      rw [doForkExec, next, ends]
      rfl

theorem allTold_run (run : machine.run start past = some s) : AllTold past s := by
  have keeps (before : List Action) (mid : Process) (action : Action) (t : Process)
      (_ : before ++ [action] <+: past) (_ : machine.run start before = some mid)
      (held : AllTold before mid) (taken : machine.step mid action = some t) :
      AllTold (before ++ [action]) t :=
    told_step held taken
  have begins : AllTold [] start := by
    constructor
    · intro call phase here
      simp [start] at here
    · exact fun _ _ => ⟨rfl, rfl⟩
  exact history_front begins keeps List.prefix_rfl run

/-- However the calls are interleaved, one that has not forked has failed or not returned, and
    one that has returns what do_fork_exec returns alone, as soon as that returns. -/
theorem calls_are_do_fork_exec_alone {actions : List Action}
    (run : machine.run start actions = some s) {call : Nat} {phase : CallPhase}
    (found : s.calls[call]? = some phase) :
    (forksOf call actions = [] ∧ waitsOf call actions = [] ∧
      ∀ didSucceed, phase = .returned didSucceed → didSucceed = false) ∨
    ∃ childPid, forksOf call actions = [childPid] ∧ ∀ didSucceed, phase = .returned didSucceed ↔
      doForkExec childPid (waitsOf call actions).length (waitsOf call actions) = some didSucceed := by
  have told := (allTold_run run).told call phase found
  cases phase with
  | awaiting pid =>
    obtain ⟨forks, waiting⟩ := told
    exact Or.inr ⟨some pid, forks, by simp [doForkExec, waiting]⟩
  | returned result =>
    rcases told with ⟨forks, waits, failed⟩ | ⟨childPid, forks, returns⟩
    · exact Or.inl ⟨forks, waits, by rintro _ ⟨⟩; exact failed⟩
    · exact Or.inr ⟨childPid, forks, by simp [returns]⟩
  | _ => exact Or.inl ⟨told.1, told.2, by simp⟩

end Steps

def crossedChildren : List Action :=
  firstChildEnds ++ [.waits 1 (.child 101 (.exited 0)), .terminates 102 (.exited 1),
    .waits 1 (.child 102 (.exited 1))]

theorem call_with_crossed_children_returns_alone :
    doForkExec (some 102) 2 [.child 101 (.exited 0), .child 102 (.exited 1)] = some false := by
  obtain ⟨s, run, found⟩ : ∃ s, machine.run start crossedChildren = some s ∧
      s.calls[1]? = some (.returned false) := ⟨_, rfl, rfl⟩
  rcases calls_are_do_fork_exec_alone run found with ⟨none, _⟩ | ⟨childPid, forks, returns⟩
  · cases none
  · cases forks
    exact (returns false).mp rfl

def Sequential (s : Process) : Action → Prop
  | .doExec => ∀ phase ∈ s.calls, ∃ didSucceed, phase = .returned didSucceed
  | .doExecRedirect => ∀ phase ∈ s.calls, ∃ didSucceed, phase = .returned didSucceed
  | _ => True

/-- At most the last call is unfinished, and the only child is the one it waits for. -/
structure OneAtATime (s : Process) : Prop where
  done : ∀ (call : Nat) (phase : CallPhase), s.calls[call]? = some phase →
    call + 1 ≠ s.calls.length → ∃ didSucceed, phase = .returned didSucceed
  own : ∀ pid, s.children pid ≠ none → ∃ call : Nat, s.calls[call]? = some (.awaiting pid)

section Sequence
variable {s t : Process}

theorem last_of_unfinished (held : OneAtATime s) {call : Nat} {phase : CallPhase}
    (here : s.calls[call]? = some phase) (unfinished : ∀ didSucceed, phase ≠ .returned didSucceed) :
    call + 1 = s.calls.length := by
  by_contra earlier
  obtain ⟨didSucceed, same⟩ := held.done call phase here earlier
  exact unfinished didSucceed same

theorem child_of_unfinished (held : OneAtATime s) {call : Nat} {phase : CallPhase}
    (here : s.calls[call]? = some phase) (unfinished : ∀ didSucceed, phase ≠ .returned didSucceed)
    {pid : Pid} (child : s.children pid ≠ none) : phase = .awaiting pid := by
  obtain ⟨other, there⟩ := held.own pid child
  have last := last_of_unfinished held here unfinished
  have lastToo := last_of_unfinished held there (by simp)
  obtain rfl : other = call := by omega
  exact Option.some.inj (here.symm.trans there)

theorem one_at_a_time_begun (held : OneAtATime s)
    (idle : ∀ phase ∈ s.calls, ∃ didSucceed, phase = .returned didSucceed) (phase : CallPhase) :
    OneAtATime { s with calls := s.calls ++ [phase] } := by
  constructor
  · intro call found here earlier
    simp only [List.length_append, List.length_singleton] at earlier
    obtain ⟨inside, _⟩ := List.getElem?_eq_some_iff.mp here
    rw [List.length_append, List.length_singleton] at inside
    rw [List.getElem?_append_left (by omega)] at here
    exact idle found (List.mem_of_getElem? here)
  · intro pid child
    obtain ⟨call, here⟩ := held.own pid child
    obtain ⟨didSucceed, same⟩ := idle _ (List.mem_of_getElem? here)
    cases same

/-- A step of the unfinished call, after which its children are those it waits for. -/
theorem one_at_a_time_moved (held : OneAtATime s) {call : Nat} {before phase : CallPhase}
    (here : s.calls[call]? = some before) (unfinished : ∀ didSucceed, before ≠ .returned didSucceed)
    (calls : t.calls = s.calls.set call phase)
    (own : ∀ pid, t.children pid ≠ none → phase = .awaiting pid) : OneAtATime t := by
  have last := last_of_unfinished held here unfinished
  obtain ⟨inside, _⟩ := List.getElem?_eq_some_iff.mp here
  constructor
  · intro other found there earlier
    rw [calls, List.length_set] at earlier
    rw [calls, List.getElem?_set_ne (by omega)] at there
    exact held.done other found there earlier
  · intro pid child
    refine ⟨call, ?_⟩
    rw [calls, List.getElem?_set_self inside, own pid child]

theorem one_at_a_time_childless (held : OneAtATime s) {call : Nat} {before : CallPhase}
    (here : s.calls[call]? = some before) (unfinished : ∀ didSucceed, before ≠ .returned didSucceed)
    (idle : ∀ pid, before ≠ .awaiting pid) (phase : CallPhase) :
    OneAtATime (s.setCall call phase) := by
  apply one_at_a_time_moved held here unfinished rfl
  intro pid child
  exact absurd (child_of_unfinished held here unfinished child) (idle pid)

theorem own_consumed (held : OneAtATime s) {action : Action} (taken : machine.step s action = some t) :
    ConsumedByItsCall s action := by
  cases action with
  | waits call result =>
    cases result with
    | error => trivial
    | child other status =>
      obtain ⟨pid, mid, here, reaped, _⟩ := waits_cases taken
      have waitable := (reap_cases reaped).1
      have same := @child_of_unfinished s held call _ here (by simp) other (by simp [waitable])
      exact here.trans (congrArg some same)
  | _ => trivial

theorem one_at_a_time_step (s : Process) (action : Action) (t : Process) (held : OneAtATime s)
    (sequential : Sequential s action) (taken : machine.step s action = some t) : OneAtATime t := by
  cases action with
  | doExec =>
    cases taken
    exact one_at_a_time_begun held sequential .fork
  | doExecRedirect =>
    cases taken
    exact one_at_a_time_begun held sequential .openFile
  | system call succeeds =>
    simp only [machine, step] at taken
    split at taken
    · rename_i here
      cases taken
      exact one_at_a_time_childless held here (by simp) (by simp) _
    · rename_i here
      cases taken
      exact one_at_a_time_childless held here (by simp) (by simp) _
    · rename_i here
      cases taken
      exact one_at_a_time_childless held here (by simp) (by simp) _
    · cases taken
  | forks call childPid =>
    simp only [machine, step] at taken
    split at taken
    · rename_i here
      cases taken
      exact one_at_a_time_childless held here (by simp) (by simp) _
    · rename_i forked here
      split at taken
      · cases taken
        apply one_at_a_time_moved held here (by simp) rfl
        intro pid child
        by_cases same : pid = forked
        · rw [same]
        · have before : s.children pid ≠ none := by
            simpa [Process.setCall, Process.setChild, Function.update_of_ne same] using child
          cases child_of_unfinished held here (by simp) before
      · cases taken
    · cases taken
  | terminates pid status =>
    simp only [machine, step] at taken
    split at taken
    · rename_i running
      cases taken
      constructor
      · exact held.done
      · intro other child
        by_cases same : other = pid
        · exact held.own other (by simp [same, running])
        · exact held.own other (by simpa [Process.setChild, Function.update_of_ne same] using child)
    · cases taken
  | waits call result =>
    obtain ⟨pid, mid, here, reaped, rfl⟩ := waits_cases taken
    cases result with
    | error =>
      obtain rfl := Option.some.inj reaped
      rw [show awaitsNext pid .error = .awaiting pid from rfl, set_same here]
      exact held
    | child other status =>
      obtain ⟨waitable, rfl⟩ := reap_cases reaped
      have own := @child_of_unfinished s held call _ here (by simp) other (by simp [waitable])
      obtain rfl := CallPhase.awaiting.inj own
      apply one_at_a_time_moved held here (by simp) rfl
      intro claimed child
      by_cases same : claimed = pid
      · simp [Process.setCall, Process.setChild, same] at child
      · have before : s.children claimed ≠ none := by
          simpa [Process.setCall, Process.setChild, Function.update_of_ne same] using child
        have again := child_of_unfinished held here (by simp) before
        exact absurd (CallPhase.awaiting.inj again).symm same

theorem one_at_a_time_start : OneAtATime start := by
  constructor
  · intro call phase here
    simp [start] at here
  · intro pid child
    exact absurd rfl child

/-- Calls made one after the other, failing ones included: no status goes to another call than
    that of its child, and the only child there ever is belongs to the unfinished call. -/
theorem sequential_calls_keep_their_children {actions : List Action}
    (along : machine.Along Sequential start actions) (run : machine.run start actions = some s) :
    (∀ past mid action next, past ++ [action] <+: actions → machine.run start past = some mid →
      machine.step mid action = some next → ConsumedByItsCall mid action) ∧
    ∀ pid, s.children pid ≠ none →
      ∃ call : Nat, call + 1 = s.calls.length ∧ s.calls[call]? = some (.awaiting pid) := by
  constructor
  · intro past mid action next front reached taken
    have before := along_front along ((List.prefix_append past [action]).trans front)
    exact own_consumed (invariant_along one_at_a_time_step one_at_a_time_start before reached) taken
  · intro pid child
    have held := invariant_along one_at_a_time_step one_at_a_time_start along run
    obtain ⟨call, here⟩ := held.own pid child
    exact ⟨call, last_of_unfinished held here (by simp), here⟩

end Sequence

def oneChild : List Action :=
  [.doExec, .forks 0 (some 101), .terminates 101 (.exited 0), .waits 0 (.child 101 (.exited 0))]

def oneAfterTheOther : List Action :=
  oneChild ++ [.doExecRedirect, .system 1 true, .system 1 true, .system 1 true, .forks 1 (some 101)]

theorem second_call_has_its_own_child :
    ∃ s, machine.run start oneAfterTheOther = some s ∧ ∀ pid, s.children pid ≠ none →
      ∃ call : Nat, call + 1 = s.calls.length ∧ s.calls[call]? = some (.awaiting pid) := by
  obtain ⟨s, run⟩ : ∃ s, machine.run start oneAfterTheOther = some s := ⟨_, rfl⟩
  have along : machine.Along Sequential start oneAfterTheOther := by
    simp [oneAfterTheOther, oneChild, Machine.Along, Sequential, machine, step, start,
      Process.setCall, Process.setChild, Process.reap, awaitsNext, awaitChildProc]
  exact ⟨s, run, (sequential_calls_keep_their_children along run).2⟩

end CallHistories
