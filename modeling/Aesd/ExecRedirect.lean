import Aesd.AwaitedChild
import Aesd.LogConnection

/-! do_exec_redirect and the descriptor table of the process that calls it. Redirection
    comes before fork, so the child only gets a copy of what the parent already has. The
    function logs on its way, and a connection that syslog makes takes a descriptor too. -/
namespace ExecRedirect
open DescriptorTable LogConnection ChildWaits AwaitedChild
variable {φ : Type*}

/-- What the calls answer: open and fork none on failure, and close whether it releases. The
    calls of syslog come in four groups: those before open, the one about a failing open or
    dup2, those of do_fork_exec and await_child_proc, and the last one. -/
structure Answers where
  opened : Option Nat
  dupStdout : Bool
  dupStderr : Bool
  closes : Bool
  childPid : Option Pid
  waits : List WaitReturn
  logArguments : List LogStep
  logError : List LogStep
  logChild : List LogStep
  logSuccess : List LogStep
  deriving DecidableEq, Repr

/-- The parent and its return value, none while it still waits after so many calls of
    waitpid, and the child's table at execv. -/
structure RedirectRun (φ : Type*) where
  parent : Process φ
  atExecv : Option (Table (OpenFile φ))
  didSucceed : Option Bool

def atOpen (caller : Caller φ) (answers : Answers) : Option (Process φ) :=
  Process.syslog ⟨inherited caller.table, caller.log⟩ answers.logArguments

/-- none where the answers are not possible: a descriptor that is obtained was free. -/
def doExecRedirect (calls : Nat) (caller : Caller φ) (answers : Answers) : Option (RedirectRun φ) :=
  (atOpen caller answers).bind fun asked =>
    match answers.opened with
    | none =>
        (asked.syslog (answers.logError ++ answers.logSuccess)).map fun parent =>
          ⟨parent, none, some false⟩
    | some redirectFd =>
        (asked.opens redirectFd).bind fun opened =>
          if answers.dupStdout = false then
            (opened.closeBetween answers.logError answers.closes redirectFd answers.logSuccess).map
              fun parent => ⟨parent, none, some false⟩
          else
            let stdout := opened.redirect redirectFd 1
            if answers.dupStderr = false then
              (stdout.closeBetween answers.logError answers.closes redirectFd
                answers.logSuccess).map fun parent => ⟨parent, none, some false⟩
            else
              let stderr := stdout.redirect redirectFd 2
              (stderr.closeBetween [] answers.closes redirectFd
                  (answers.logChild ++ answers.logSuccess)).map fun parent =>
                ⟨parent, answers.childPid.map fun _ => (stderr.release answers.closes redirectFd).table,
                  doForkExec answers.childPid calls answers.waits⟩

def ReachesFork (answers : Answers) : Prop :=
  answers.opened ≠ none ∧ answers.dupStdout = true ∧ answers.dupStderr = true

instance (answers : Answers) : Decidable (ReachesFork answers) :=
  inferInstanceAs (Decidable (_ ∧ _))

def ReachesExecv (answers : Answers) : Prop := ReachesFork answers ∧ answers.childPid ≠ none

def TableKept (caller : Caller φ) (answers : Answers) : Prop :=
  ∀ calls run, doExecRedirect calls caller answers = some run → run.didSucceed.isSome →
    run.parent.table = inherited caller.table

def logSteps (answers : Answers) : List LogStep :=
  answers.logArguments ++
    ((if ReachesFork answers then answers.logChild else answers.logError) ++ answers.logSuccess)

/-- The log is after the call what it was before: still the caller's connection, or none. -/
def LogSettled (caller : Caller φ) (answers : Answers) : Prop :=
  caller.log.after (logSteps answers) = caller.log

/-- A stream that is lost anyway: it is where open put the file, or the connection to the
    log that was made before. -/
def Spare (caller : Caller φ) (answers : Answers) (stream : Nat) : Prop :=
  answers.opened = some stream ∨ caller.log.after answers.logArguments = .made stream

/-- The failures after which nothing is left to undo. -/
def NothingRedirected (caller : Caller φ) (answers : Answers) : Prop :=
  answers.opened = none ∨ answers.closes = true ∧
    (answers.dupStdout = false ∨ Spare caller answers 1 ∧
      (answers.dupStderr = false ∨ Spare caller answers 2))

def WaitsForever (answers : Answers) : Prop :=
  ReachesExecv answers ∧
    ∀ pid code, answers.childPid = some pid → .child pid (.exited code) ∉ answers.waits

structure StreamsRedirected (child : Table (OpenFile φ)) : Prop where
  stdout : child 1 = some .outputfile
  stderr : child 2 = some .outputfile
  only : ∀ fd, child fd = some .outputfile → fd = 1 ∨ fd = 2

def TakenAtOpen (caller : Caller φ) (answers : Answers) (fd : Nat) : Prop :=
  caller.log.after answers.logArguments = .made fd ∨ caller.table fd ≠ none ∧
    (caller.logFile = some fd → caller.log.after answers.logArguments = .callers fd)

def OpenSparesStreams (caller : Caller φ) (answers : Answers) : Prop :=
  ¬ TakenAtOpen caller answers 0 ∨ TakenAtOpen caller answers 1 ∧ TakenAtOpen caller answers 2

section Calls
variable {calls : Nat} {caller : Caller φ} {answers : Answers} {run : RedirectRun φ}
  {asked : Process φ} {redirectFd : Nat}

theorem asked_accounted (asks : atOpen caller answers = some asked) :
    Accounted caller asked ∧ (∀ fd, asked.table fd ≠ some .outputfile) ∧
      asked.log = caller.log.after answers.logArguments := by
  have logged := syslog_logged asks
  refine ⟨syslog_accounted (start_accounted caller) asks, ?_, logged.log⟩
  intro fd opened
  exact inherited_output caller.table fd (logged.nothingNew fd opened)

inductive RedirectSteps (calls : Nat) (caller : Caller φ) (answers : Answers) (asked : Process φ) :
    RedirectRun φ → Prop where
  | unopened {parent : Process φ} (opens : answers.opened = none)
      (ends : asked.syslog (answers.logError ++ answers.logSuccess) = some parent) :
      RedirectSteps calls caller answers asked ⟨parent, none, some false⟩
  | noStdout {redirectFd : Nat} {opened parent : Process φ}
      (opens : answers.opened = some redirectFd) (gets : asked.opens redirectFd = some opened)
      (stdout : answers.dupStdout = false)
      (ends : opened.closeBetween answers.logError answers.closes redirectFd answers.logSuccess =
        some parent) : RedirectSteps calls caller answers asked ⟨parent, none, some false⟩
  | noStderr {redirectFd : Nat} {opened parent : Process φ}
      (opens : answers.opened = some redirectFd) (gets : asked.opens redirectFd = some opened)
      (stdout : answers.dupStdout = true) (stderr : answers.dupStderr = false)
      (ends : (opened.redirect redirectFd 1).closeBetween answers.logError answers.closes redirectFd
        answers.logSuccess = some parent) :
      RedirectSteps calls caller answers asked ⟨parent, none, some false⟩
  | forks {redirectFd : Nat} {opened parent : Process φ}
      (opens : answers.opened = some redirectFd) (gets : asked.opens redirectFd = some opened)
      (stdout : answers.dupStdout = true) (stderr : answers.dupStderr = true)
      (ends : ((opened.redirect redirectFd 1).redirect redirectFd 2).closeBetween [] answers.closes
        redirectFd (answers.logChild ++ answers.logSuccess) = some parent) :
      RedirectSteps calls caller answers asked ⟨parent,
        answers.childPid.map fun _ =>
          (((opened.redirect redirectFd 1).redirect redirectFd 2).release answers.closes
            redirectFd).table,
        doForkExec answers.childPid calls answers.waits⟩

theorem redirect_steps (goes : doExecRedirect calls caller answers = some run) :
    ∃ asked, atOpen caller answers = some asked ∧
      RedirectSteps calls caller answers asked run := by
  obtain ⟨asked, asks, goes⟩ := Option.bind_eq_some_iff.mp goes
  refine ⟨asked, asks, ?_⟩
  cases opens : answers.opened with
  | none =>
    simp only [opens] at goes
    obtain ⟨parent, ends, rfl⟩ := Option.map_eq_some_iff.mp goes
    exact .unopened opens ends
  | some redirectFd =>
    simp only [opens] at goes
    obtain ⟨opened, gets, goes⟩ := Option.bind_eq_some_iff.mp goes
    split at goes
    · rename_i stdout
      obtain ⟨parent, ends, rfl⟩ := Option.map_eq_some_iff.mp goes
      exact .noStdout opens gets stdout ends
    · rename_i stdout
      split at goes
      · rename_i stderr
        obtain ⟨parent, ends, rfl⟩ := Option.map_eq_some_iff.mp goes
        exact .noStderr opens gets (by simpa using stdout) stderr ends
      · rename_i stderr
        obtain ⟨parent, ends, rfl⟩ := Option.map_eq_some_iff.mp goes
        exact .forks opens gets (by simpa using stdout) (by simpa using stderr) ends

/-- An error path or the redirection undoes itself if each stream was spare. -/
theorem ends_kept_iff {p parent : Process φ} {streams : Nat → Prop} {before after : List LogStep}
    (held : Opened caller redirectFd p) (opens : answers.opened = some redirectFd)
    (log : p.log = caller.log.after answers.logArguments)
    (out : ∀ fd, p.table fd = some .outputfile ↔ streams fd ∨ fd = redirectFd)
    (ends : p.closeBetween before answers.closes redirectFd after = some parent) :
    parent.table = inherited caller.table ↔
      caller.log.after (answers.logArguments ++ (before ++ after)) = caller.log ∧
        answers.closes = true ∧ ∀ stream, streams stream → Spare caller answers stream := by
  obtain ⟨accounted, logged, outs⟩ := closed_out_iff held ends
  rw [accounted.kept_iff, outs, logged, log, ← after_append, and_comm]
  apply and_congr_right
  intro settled
  apply and_congr_right
  intro _
  rw [after_append] at settled
  constructor
  · intro lost stream redirected
    rcases lost stream ((out stream).mpr (Or.inl redirected)) with same | ⟨connected, steps⟩
    · exact Or.inl (by rw [opens, same])
    · right
      rcases log_fd_iff.mp connected with callers | made
      · -- the caller's connection does not come back
        obtain ⟨_, before_all⟩ := after_callers callers
        rw [callers, before_all] at settled
        exact absurd (after_callers settled).1 steps
      · exact made
  · intro spare fd opened
    rcases (out fd).mp opened with redirected | same
    · rcases spare fd redirected with same | made
      · exact Or.inl (Option.some.inj (same.symm.trans opens))
      · right
        rw [made]
        refine ⟨rfl, ?_⟩
        intro silent
        rw [silent, after_nil, made] at settled
        exact callers_not_made caller fd settled.symm
    · exact Or.inl same

theorem opened_out_iff (unopened : ∀ fd, asked.table fd ≠ some .outputfile) {opened : Process φ}
    (gets : asked.opens redirectFd = some opened) (fd : Nat) :
    opened.table fd = some .outputfile ↔ fd = redirectFd := by
  obtain ⟨_, rfl⟩ := opens_iff.mp gets
  simp only [put_lookup]
  split
  · simp_all
  · rename_i other
    simp [other, unopened]

theorem redirect_out_iff {p : Process φ} (own : p.table redirectFd = some .outputfile)
    (target fd : Nat) : (p.redirect redirectFd target).table fd = some .outputfile ↔
      fd = target ∨ p.table fd = some .outputfile := by
  rw [redirect_lookup]
  split
  · simp_all
  · rename_i other
    simp [other]

theorem opens_log {p q : Process φ} (gets : p.opens redirectFd = some q) : q.log = p.log := by
  obtain ⟨_, rfl⟩ := opens_iff.mp gets
  rfl

theorem table_kept_iff (goes : doExecRedirect calls caller answers = some run) :
    run.parent.table = inherited caller.table ↔
      LogSettled caller answers ∧ NothingRedirected caller answers := by
  obtain ⟨asked, asks, steps⟩ := redirect_steps goes
  obtain ⟨accounted, unopened, log⟩ := asked_accounted asks
  unfold LogSettled NothingRedirected logSteps ReachesFork
  cases steps with
  | unopened opens ends =>
    have logged := syslog_logged ends
    rw [(syslog_accounted accounted ends).kept_iff, logged.log, log, ← after_append]
    have none_left (fd : Nat) := fun left => unopened fd (logged.nothingNew fd left)
    simp only [opens, ne_eq, not_true_eq_false, false_and, ↓reduceIte, true_or, and_true]
    exact and_iff_right none_left
  | noStdout opens gets stdout ends =>
    have held := opened_of_opens accounted gets
    have kept := @ends_kept_iff _ _ answers _ _ _ (fun _ => False) _ _ held opens
      (by rw [opens_log gets, log]) (by simpa using opened_out_iff unopened gets) ends
    simpa [opens, stdout] using kept
  | noStderr opens gets stdout stderr ends =>
    have first := opened_of_opens accounted gets
    have held := opened_redirect first 1
    have kept := @ends_kept_iff _ _ answers _ _ _ (fun fd => fd = 1) _ _ held opens
      (by rw [redirect_log, opens_log gets, log])
      (fun fd => by rw [redirect_out_iff first.own, opened_out_iff unopened gets]) ends
    simpa [opens, stdout, stderr] using kept
  | forks opens gets stdout stderr ends =>
    have first := opened_of_opens accounted gets
    have second := opened_redirect first 1
    have held := opened_redirect second 2
    have kept := @ends_kept_iff _ _ answers _ _ _ (fun fd => fd = 2 ∨ fd = 1) _ _ held opens
      (by rw [redirect_log, redirect_log, opens_log gets, log])
      (fun fd => by rw [redirect_out_iff second.own, redirect_out_iff first.own,
        opened_out_iff unopened gets, or_assoc]) ends
    simpa [opens, stdout, stderr, and_comm] using kept

theorem fork_returns_iff {answers : Answers} :
    (∃ calls, (doForkExec answers.childPid calls answers.waits).isSome) ↔
      answers.childPid = none ∨
        ∃ pid code, answers.childPid = some pid ∧ .child pid (.exited code) ∈ answers.waits := by
  cases forked : answers.childPid with
  | none => simp [doForkExec]
  | some pid =>
    simp only [doForkExec, Option.isSome_map, Option.isSome_iff_exists, await_returns_iff]
    simp

theorem returned_iff (goes : doExecRedirect calls caller answers = some run) :
    run.didSucceed.isSome ↔
      (ReachesFork answers → (doForkExec answers.childPid calls answers.waits).isSome) := by
  obtain ⟨asked, asks, steps⟩ := redirect_steps goes
  unfold ReachesFork
  cases steps with
  | unopened opens ends => simp [opens]
  | noStdout opens gets stdout ends => simp [stdout]
  | noStderr opens gets stdout stderr ends => simp [stderr]
  | forks opens gets stdout stderr ends => simp [opens, stdout, stderr]

theorem possible_for_all {few : Nat} (possible : (doExecRedirect few caller answers).isSome)
    (calls : Nat) : ∃ run, doExecRedirect calls caller answers = some run := by
  rw [← Option.isSome_iff_exists]
  unfold doExecRedirect at possible ⊢
  rw [Option.isSome_bind] at possible ⊢
  cases asks : atOpen caller answers with
  | none => simp [asks] at possible
  | some asked =>
    cases opens : answers.opened with
    | none => simpa [asks, opens] using possible
    | some redirectFd =>
      simp only [asks, opens, Option.any_some, Option.isSome_bind] at possible ⊢
      cases gets : asked.opens redirectFd with
      | none => simp [gets] at possible
      | some opened =>
        simp only [gets, Option.any_some] at possible ⊢
        split at possible
        · rename_i stdout
          simpa [stdout] using possible
        · rename_i stdout
          split at possible
          · rename_i stderr
            simpa [stdout, stderr] using possible
          · rename_i stderr
            simpa [stdout, stderr] using possible

theorem call_returns_iff {few : Nat} (possible : (doExecRedirect few caller answers).isSome) :
    (∃ calls run, doExecRedirect calls caller answers = some run ∧ run.didSucceed.isSome) ↔
      ¬ WaitsForever answers := by
  constructor
  · rintro ⟨calls, run, goes, returned⟩ ⟨⟨forks, forked⟩, never⟩
    rcases fork_returns_iff.mp ⟨calls, (returned_iff goes).mp returned forks⟩ with unforked | exits
    · exact forked unforked
    · obtain ⟨pid, code, same, exits⟩ := exits
      exact never pid code same exits
  · intro ends
    obtain ⟨calls, returned⟩ : ∃ calls,
        ReachesFork answers → (doForkExec answers.childPid calls answers.waits).isSome := by
      by_cases forks : ReachesFork answers
      · have exits : answers.childPid = none ∨
            ∃ pid code, answers.childPid = some pid ∧ .child pid (.exited code) ∈ answers.waits := by
          by_contra waits
          rw [not_or] at waits
          exact ends ⟨⟨forks, waits.1⟩,
            fun pid code same member => waits.2 ⟨pid, code, same, member⟩⟩
        obtain ⟨calls, returned⟩ := fork_returns_iff.mpr exits
        exact ⟨calls, fun _ => returned⟩
      · exact ⟨0, fun forked => absurd forked forks⟩
    obtain ⟨run, goes⟩ := possible_for_all possible calls
    exact ⟨calls, run, goes, (returned_iff goes).mpr returned⟩

/-- The caller's table is as before only where the log is settled and the call fails before
    it has redirected anything, or where it has no return. -/
theorem caller_table_kept_iff {few : Nat}
    (possible : (doExecRedirect few caller answers).isSome) :
    TableKept caller answers ↔
      LogSettled caller answers ∧ NothingRedirected caller answers ∨ WaitsForever answers := by
  constructor
  · intro kept
    by_cases waits : WaitsForever answers
    · exact Or.inr waits
    · obtain ⟨calls, run, goes, returned⟩ := (call_returns_iff possible).mpr waits
      exact Or.inl ((table_kept_iff goes).mp (kept calls run goes returned))
  · intro cond calls run goes returned
    rcases cond with undone | waits
    · exact (table_kept_iff goes).mpr undone
    · exact absurd waits ((call_returns_iff possible).mp ⟨calls, run, goes, returned⟩)

end Calls

def threeStreams : Caller String where
  table fd :=
    if fd = 0 then some "in" else if fd = 1 then some "out" else if fd = 2 then some "err"
    else if fd = 3 then some "log" else none
  logFile := some 3
  connected := by
    rintro fd same
    obtain rfl := Option.some.inj same
    decide

def allSucceed (opened : Nat) : Answers :=
  ⟨some opened, true, true, true, some 101, [.child 101 (.exited 0)], [], [], [], []⟩

theorem caller_loses_its_streams : ¬ TableKept threeStreams (allSucceed 4) := by
  intro kept
  have stdout := congrFun (kept 1 _ rfl rfl) 1
  revert stdout
  decide

theorem failed_dup_keeps_the_table :
    TableKept threeStreams { allSucceed 4 with dupStdout := false } := by
  apply (@caller_table_kept_iff _ _ _ 1 rfl).mpr
  exact Or.inl ⟨rfl, Or.inr ⟨rfl, Or.inl rfl⟩⟩

section Streams
variable {calls : Nat} {caller : Caller φ} {answers : Answers} {run : RedirectRun φ}
  {asked opened : Process φ} {redirectFd : Nat}

theorem atExecv_iff (goes : doExecRedirect calls caller answers = some run)
    {child : Table (OpenFile φ)} : run.atExecv = some child ↔
      ReachesExecv answers ∧ ∃ asked redirectFd opened, atOpen caller answers = some asked ∧
        answers.opened = some redirectFd ∧ asked.opens redirectFd = some opened ∧
        child = (((opened.redirect redirectFd 1).redirect redirectFd 2).release answers.closes
          redirectFd).table := by
  obtain ⟨asked, asks, steps⟩ := redirect_steps goes
  unfold ReachesExecv ReachesFork
  cases steps with
  | unopened opens ends => simp [opens]
  | noStdout opens gets stdout ends => simp [stdout]
  | noStderr opens gets stdout stderr ends => simp [stderr]
  | forks opens gets stdout stderr ends =>
    cases forked : answers.childPid with
    | none => simp
    | some pid => simp [opens, stdout, stderr, asks, gets, eq_comm]

theorem redirected_lookup (gets : asked.opens redirectFd = some opened) (closes : Bool) (fd : Nat) :
    (((opened.redirect redirectFd 1).redirect redirectFd 2).release closes redirectFd).table fd =
      if closes = true ∧ fd = redirectFd then none
      else if fd = 1 ∨ fd = 2 ∨ fd = redirectFd then some .outputfile else asked.table fd := by
  obtain ⟨_, rfl⟩ := opens_iff.mp gets
  simp only [release_lookup, redirect_lookup, put_lookup, ↓reduceIte, ite_self]
  split
  · rfl
  · by_cases first : fd = 1 <;> by_cases second : fd = 2 <;> simp [first, second]

/-- The last close takes a stream away if that is where open had put the file. -/
theorem redirected_streams_iff (gets : asked.opens redirectFd = some opened)
    (unopened : ∀ fd, asked.table fd ≠ some .outputfile) (closes : Bool) :
    StreamsRedirected (((opened.redirect redirectFd 1).redirect redirectFd 2).release closes
        redirectFd).table ↔
      (closes = true ↔ redirectFd ≠ 1 ∧ redirectFd ≠ 2) := by
  have lookup := redirected_lookup gets closes
  generalize (((opened.redirect redirectFd 1).redirect redirectFd 2).release closes
    redirectFd).table = child at lookup
  constructor
  · intro streams
    have stdout := streams.stdout
    have stderr := streams.stderr
    rw [lookup] at stdout stderr
    constructor
    · intro releases
      subst releases
      constructor
      · intro same
        simp [same] at stdout
      · intro same
        simp [same] at stderr
    · intro elsewhere
      by_contra kept
      have left := streams.only redirectFd (by
        rw [lookup, if_neg (by tauto), if_pos (by tauto)])
      tauto
  · intro cond
    constructor
    · rw [lookup, if_neg (by rintro ⟨released, same⟩; exact (cond.mp released).1 same.symm),
        if_pos (Or.inl rfl)]
    · rw [lookup, if_neg (by rintro ⟨released, same⟩; exact (cond.mp released).2 same.symm),
        if_pos (Or.inr (Or.inl rfl))]
    · intro fd refers
      rw [lookup] at refers
      split at refers
      · cases refers
      · rename_i not_released
        split at refers
        · rename_i target
          by_contra elsewhere
          obtain rfl : fd = redirectFd := by tauto
          exact not_released ⟨cond.mpr (by tauto), rfl⟩
        · exact absurd refers (unopened fd)

theorem taken_iff (asks : atOpen caller answers = some asked) (fd : Nat) :
    asked.table fd ≠ none ↔ TakenAtOpen caller answers fd := by
  obtain ⟨accounted, unopened, log⟩ := asked_accounted asks
  rw [(accounted.rest fd).resolve_left (unopened fd), unredirected, log, TakenAtOpen]
  by_cases made : caller.log.after answers.logArguments = .made fd
  · simp [made]
  · by_cases lost : caller.logFile = some fd ∧ caller.log.after answers.logArguments ≠ .callers fd
    · rw [if_neg made, if_pos lost]
      tauto
    · rw [if_neg made, if_neg lost, Ne, inherited_free]
      tauto

theorem opens_no_stream_iff (asks : atOpen caller answers = some asked)
    (lowest : LowestFree asked.table redirectFd) :
    redirectFd ≠ 1 ∧ redirectFd ≠ 2 ↔ OpenSparesStreams caller answers := by
  obtain ⟨free, taken⟩ := lowest
  unfold OpenSparesStreams
  simp only [← taken_iff asks, not_not]
  constructor
  · intro elsewhere
    rcases Nat.eq_zero_or_pos redirectFd with rfl | positive
    · exact Or.inl free
    · exact Or.inr ⟨taken 1 (by omega), taken 2 (by omega)⟩
  · intro streams
    constructor
    · rintro rfl
      exact streams.elim (taken 0 (by omega)) fun both => both.1 free
    · rintro rfl
      exact streams.elim (taken 0 (by omega)) fun both => both.2 free

theorem streams_redirected_iff (goes : doExecRedirect calls caller answers = some run)
    (lowest : ∀ asked fd, atOpen caller answers = some asked → answers.opened = some fd →
      LowestFree asked.table fd) :
    (∀ child, run.atExecv = some child → StreamsRedirected child) ↔
      (ReachesExecv answers → (answers.closes = true ↔ OpenSparesStreams caller answers)) := by
  constructor
  · intro redirected reaches
    obtain ⟨asked, asks, steps⟩ := redirect_steps goes
    obtain ⟨_, unopened, _⟩ := asked_accounted asks
    obtain ⟨redirectFd, opens⟩ := Option.ne_none_iff_exists'.mp reaches.1.1
    obtain ⟨child, starts⟩ : ∃ child, run.atExecv = some child := by
      cases steps with
      | unopened none _ => simp [opens] at none
      | noStdout _ _ stdout _ => simp [reaches.1.2.1] at stdout
      | noStderr _ _ _ stderr _ => simp [reaches.1.2.2] at stderr
      | forks _ _ _ _ _ =>
        obtain ⟨pid, forked⟩ := Option.ne_none_iff_exists'.mp reaches.2
        simp [forked]
    have streams := redirected child starts
    obtain ⟨_, other, fd, opened, again, same, gets, rfl⟩ := (atExecv_iff goes).mp starts
    obtain rfl : asked = other := Option.some.inj (asks.symm.trans again)
    rw [← opens_no_stream_iff asks (lowest asked fd asks same)]
    exact (redirected_streams_iff gets unopened _).mp streams
  · intro cond child starts
    obtain ⟨reaches, asked, fd, opened, asks, opens, gets, rfl⟩ := (atExecv_iff goes).mp starts
    obtain ⟨_, unopened, _⟩ := asked_accounted asks
    rw [redirected_streams_iff gets unopened, opens_no_stream_iff asks (lowest asked fd asks opens)]
    exact cond reaches

end Streams

theorem command_of_usual_caller_is_redirected :
    ∃ run, doExecRedirect 1 threeStreams (allSucceed 4) = some run ∧
      ∀ child, run.atExecv = some child → StreamsRedirected child := by
  have taken (fd : Nat) (stream : fd = 1 ∨ fd = 2) : TakenAtOpen threeStreams (allSucceed 4) fd := by
    rcases stream with rfl | rfl
    · exact Or.inr ⟨by decide, by decide⟩
    · exact Or.inr ⟨by decide, by decide⟩
  obtain ⟨run, goes⟩ : ∃ run, doExecRedirect 1 threeStreams (allSucceed 4) = some run := ⟨_, rfl⟩
  refine ⟨run, goes, (streams_redirected_iff goes ?_).mpr fun _ => ?_⟩
  · rintro asked fd asks opens
    obtain rfl := Option.some.inj opens
    obtain rfl := Option.some.inj asks
    exact ⟨by decide, by decide⟩
  · exact iff_of_true rfl (Or.inr ⟨taken 1 (Or.inl rfl), taken 2 (Or.inr rfl)⟩)

def onlyStdin : Caller String where
  table fd := if fd = 0 then some "in" else none
  logFile := none
  connected := by simp

theorem closed_stdout_is_lost :
    ∃ asked run child, atOpen onlyStdin (allSucceed 1) = some asked ∧
      LowestFree asked.table 1 ∧ doExecRedirect 1 onlyStdin (allSucceed 1) = some run ∧
      run.atExecv = some child ∧ ¬ StreamsRedirected child := by
  refine ⟨_, _, _, rfl, ⟨by decide, by decide⟩, rfl, rfl, ?_⟩
  intro streams
  have stdout := streams.stdout
  revert stdout
  decide

end ExecRedirect
