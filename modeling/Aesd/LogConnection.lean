import Aesd.DescriptorTable
import Aesd.TransitionRuns

/-! The descriptor table of a process that opens an output file and logs with syslog. The
    C library keeps the connection to the log in a descriptor of its own, which the process
    does not see, and which it may lose to dup2 or close. -/
namespace LogConnection
open DescriptorTable TransitionRuns
variable {φ : Type*}

/-- The caller's files, the one that this call opens, and connections to the log that
    syslog makes during the call. -/
inductive OpenFile (φ : Type*) where
  | inherited (file : φ)
  | outputfile
  | log
  deriving DecidableEq, Repr

def inherited (table : Table φ) : Table (OpenFile φ) := fun fd => (table fd).map .inherited

/-- The connection to the log, a variable of the C library. -/
inductive Log where
  | closed
  | callers (fd : Nat)
  | made (fd : Nat)
  deriving DecidableEq, Repr

def Log.fd : Log → Option Nat
  | .closed => none
  | .callers fd => some fd
  | .made fd => some fd

structure Caller (φ : Type*) where
  table : Table φ
  logFile : Option Nat
  connected : ∀ fd, logFile = some fd → table fd ≠ none

def Caller.log (caller : Caller φ) : Log :=
  match caller.logFile with
  | none => .closed
  | some fd => .callers fd

/-- What a call of syslog may do with descriptors: connect where there is no connection, and
    drop one that no longer takes messages. Mostly it does neither. -/
inductive LogStep where
  | connects (fd : Nat)
  | drops
  deriving DecidableEq, Repr

def Log.after (log : Log) (steps : List LogStep) : Log :=
  match steps.getLast? with
  | none => log
  | some (.connects fd) => .made fd
  | some .drops => .closed

structure Process (φ : Type*) where
  table : Table (OpenFile φ)
  log : Log

def Process.connect (p : Process φ) (fd : Nat) : Process φ := ⟨put p.table fd .log, .made fd⟩

def Process.disconnect (p : Process φ) (fd : Nat) : Process φ := ⟨close p.table fd, .closed⟩

def logStep (p : Process φ) : LogStep → Option (Process φ)
  | .connects fd =>
      if p.log = .closed ∧ (p.table fd).isNone then some (p.connect fd) else none
  | .drops => p.log.fd.map p.disconnect

def logMachine : Machine (Process φ) LogStep := ⟨logStep⟩

def Process.syslog (p : Process φ) (steps : List LogStep) : Option (Process φ) :=
  logMachine.run p steps

def Process.opens (p : Process φ) (fd : Nat) : Option (Process φ) :=
  if (p.table fd).isNone then some ⟨put p.table fd .outputfile, p.log⟩ else none

def Process.redirect (p : Process φ) (source target : Nat) : Process φ :=
  ⟨dup2 p.table source target, p.log⟩

def Process.release (p : Process φ) (closes : Bool) (fd : Nat) : Process φ :=
  if closes then ⟨close p.table fd, p.log⟩ else p

def Process.closeBetween (p : Process φ) (before : List LogStep) (closes : Bool) (redirectFd : Nat)
    (after : List LogStep) : Option (Process φ) :=
  (p.syslog before).bind fun told => (told.release closes redirectFd).syslog after

theorem inherited_output (table : Table φ) (fd : Nat) : inherited table fd ≠ some .outputfile := by
  unfold inherited
  cases table fd <;> simp

theorem inherited_log (table : Table φ) (fd : Nat) : inherited table fd ≠ some .log := by
  unfold inherited
  cases table fd <;> simp

@[simp] theorem inherited_free {table : Table φ} {fd : Nat} :
    inherited table fd = none ↔ table fd = none := by
  unfold inherited
  rw [Option.map_eq_none_iff]

section Logging
variable {caller : Caller φ} {p q : Process φ} {steps : List LogStep} {log : Log}

@[simp] theorem connect_lookup (p : Process φ) (fd other : Nat) :
    (p.connect fd).table other = if other = fd then some .log else p.table other :=
  put_lookup p.table fd .log other

@[simp] theorem disconnect_lookup (p : Process φ) (fd other : Nat) :
    (p.disconnect fd).table other = if other = fd then none else p.table other :=
  close_lookup p.table fd other

@[simp] theorem connect_log (p : Process φ) (fd : Nat) : (p.connect fd).log = .made fd := rfl

@[simp] theorem disconnect_log (p : Process φ) (fd : Nat) : (p.disconnect fd).log = .closed := rfl

@[simp] theorem after_nil (log : Log) : log.after [] = log := rfl

theorem after_append (log : Log) (steps more : List LogStep) :
    log.after (steps ++ more) = (log.after steps).after more := by
  unfold Log.after
  rw [List.getLast?_append]
  cases more.getLast? with
  | none => rw [Option.none_or]
  | some step =>
    rw [Option.some_or]
    cases step <;> rfl

theorem after_callers {fd : Nat} (same : log.after steps = .callers fd) :
    steps = [] ∧ log = .callers fd := by
  unfold Log.after at same
  split at same
  · rename_i nothing
    exact ⟨List.getLast?_eq_none_iff.mp nothing, same⟩
  · simp at same
  · simp at same

theorem callers_not_made (caller : Caller φ) (fd : Nat) : caller.log ≠ .made fd := by
  unfold Caller.log
  split <;> simp

theorem callers_log_iff (caller : Caller φ) (fd : Nat) :
    caller.log = .callers fd ↔ caller.logFile = some fd := by
  unfold Caller.log
  split <;> simp_all

def unredirected (caller : Caller φ) (log : Log) : Table (OpenFile φ) := fun fd =>
  if log = .made fd then some .log
  else if caller.logFile = some fd ∧ log ≠ .callers fd then none
  else inherited caller.table fd

/-- The invariant: whatever is not outputfile is the caller's or the log's. -/
structure Accounted (caller : Caller φ) (p : Process φ) : Prop where
  rest : ∀ fd, p.table fd = some .outputfile ∨ p.table fd = unredirected caller p.log fd
  live : ∀ fd, p.log.fd = some fd → p.table fd ≠ none
  made : ∀ fd, p.log = .made fd → caller.table fd = none ∨ caller.logFile = some fd
  callers : ∀ fd, p.log = .callers fd → caller.logFile = some fd

theorem start_accounted (caller : Caller φ) :
    Accounted caller ⟨inherited caller.table, caller.log⟩ where
  rest fd := by
    right
    have known := callers_log_iff caller fd
    simp only [unredirected, callers_not_made, ↓reduceIte]
    rw [if_neg (by tauto)]
  live fd found := by
    have connected : caller.logFile = some fd := by
      unfold Caller.log Log.fd at found
      split at found
      · simp at found
      · rename_i same
        split at same <;> simp_all
      · rename_i same
        exact absurd same (callers_not_made caller _)
    rw [Ne, inherited_free]
    exact caller.connected fd connected
  made fd same := absurd same (callers_not_made caller fd)
  callers fd same := (callers_log_iff caller fd).mp same

/-- The table is the caller's if nothing of outputfile is left and the log is settled. -/
theorem Accounted.kept_iff (held : Accounted caller p) :
    p.table = inherited caller.table ↔
      (∀ fd, p.table fd ≠ some .outputfile) ∧ p.log = caller.log := by
  constructor
  · intro same
    have unopened (fd : Nat) : p.table fd ≠ some .outputfile := by
      rw [same]
      exact inherited_output _ fd
    refine ⟨unopened, ?_⟩
    have rest (fd : Nat) := (held.rest fd).resolve_left (unopened fd)
    cases here : p.log with
    | made fd =>
      have log := rest fd
      rw [unredirected, if_pos here, same] at log
      exact absurd log (inherited_log _ fd)
    | callers fd => rw [(callers_log_iff caller fd).mpr (held.callers fd here)]
    | closed =>
      cases logFile : caller.logFile with
      | none => rw [Caller.log, logFile]
      | some fd =>
        have lost := rest fd
        rw [unredirected, here, if_neg (by simp), if_pos ⟨logFile, by simp⟩, same,
          inherited_free] at lost
        exact absurd lost (caller.connected fd logFile)
  · rintro ⟨unopened, settled⟩
    funext fd
    rw [(held.rest fd).resolve_left (unopened fd), unredirected, settled,
      if_neg (callers_not_made caller fd), if_neg]
    rintro ⟨logFile, other⟩
    exact other ((callers_log_iff caller fd).mpr logFile)

theorem logStep_cases {step : LogStep} (taken : logStep p step = some q) :
    (∃ fd, step = .connects fd ∧ p.log = .closed ∧ p.table fd = none ∧
      q = p.connect fd) ∨
    (∃ fd, step = .drops ∧ p.log.fd = some fd ∧ q = p.disconnect fd) := by
  cases step with
  | connects fd =>
    simp only [logStep, Option.ite_none_right_eq_some, Option.isNone_iff_eq_none,
      Option.some.injEq] at taken
    obtain ⟨⟨closed, free⟩, same⟩ := taken
    exact Or.inl ⟨fd, rfl, closed, free, same.symm⟩
  | drops =>
    simp only [logStep, Option.map_eq_some_iff] at taken
    obtain ⟨fd, found, same⟩ := taken
    exact Or.inr ⟨fd, rfl, found, same.symm⟩

theorem log_fd_iff {fd : Nat} : log.fd = some fd ↔ log = .callers fd ∨ log = .made fd := by
  cases log <;> simp [Log.fd]

theorem logStep_accounted {step : LogStep} (held : Accounted caller p)
    (taken : logStep p step = some q) : Accounted caller q := by
  rcases logStep_cases taken with ⟨fd, _, closed, free, rfl⟩ | ⟨fd, _, found, rfl⟩
  · have before := (held.rest fd).resolve_left (by simp [free])
    rw [free, unredirected, closed] at before
    constructor
    · intro other
      rw [connect_lookup]
      by_cases same : other = fd
      · subst same
        simp [unredirected]
      · rw [if_neg same]
        have rest := held.rest other
        simpa [unredirected, closed, Ne.symm same] using rest
    · intro other found
      obtain rfl : fd = other := by simpa [Log.fd] using found
      simp
    · intro other same
      obtain rfl : fd = other := by simpa using same
      by_cases logged : caller.logFile = some fd
      · exact Or.inr logged
      · left
        simpa [logged, eq_comm] using before
    · simp
  · constructor
    · intro other
      rw [disconnect_lookup]
      by_cases same : other = fd
      · subst same
        rw [if_pos rfl]
        right
        rcases log_fd_iff.mp found with callers | made
        · simp [unredirected, held.callers _ callers]
        · rcases held.made _ made with free | logged
          · simp [unredirected, inherited, free]
          · simp [unredirected, logged]
      · rw [if_neg same]
        refine (held.rest other).imp_right fun rest => ?_
        rw [rest]
        rcases log_fd_iff.mp found with callers | made
        · simp [unredirected, callers, held.callers _ callers, Ne.symm same]
        · simp [unredirected, made, Ne.symm same]
    · simp [Log.fd]
    · simp
    · simp

structure Logged (p : Process φ) (steps : List LogStep) (q : Process φ) : Prop where
  log : q.log = p.log.after steps
  nothingNew : ∀ fd, q.table fd = some .outputfile → p.table fd = some .outputfile
  apart : ∀ fd, p.table fd = some .outputfile → p.log.fd ≠ some fd →
    q.table fd = some .outputfile ∧ q.log.fd ≠ some fd
  dropped : steps ≠ [] → ∀ fd, p.log.fd = some fd → q.table fd ≠ some .outputfile

theorem logStep_logged {step : LogStep} (taken : logStep p step = some q) : Logged p [step] q := by
  rcases logStep_cases taken with ⟨fd, rfl, closed, free, rfl⟩ | ⟨fd, rfl, found, rfl⟩
  · constructor
    · rfl
    · intro other opened
      rw [connect_lookup] at opened
      split at opened
      · simp at opened
      · exact opened
    · intro other opened _
      have elsewhere : other ≠ fd := by
        rintro rfl
        simp [free] at opened
      rw [connect_lookup, if_neg elsewhere]
      exact ⟨opened, by simpa [Log.fd] using Ne.symm elsewhere⟩
    · intro _ other connected
      simp [closed, Log.fd] at connected
  · constructor
    · rfl
    · intro other opened
      rw [disconnect_lookup] at opened
      split at opened
      · simp at opened
      · exact opened
    · intro other opened elsewhere
      have other_fd : other ≠ fd := by
        rintro rfl
        exact elsewhere found
      rw [disconnect_lookup, if_neg other_fd]
      exact ⟨opened, by simp [Log.fd]⟩
    · intro _ other connected
      obtain rfl : fd = other := Option.some.inj (found.symm.trans connected)
      simp

theorem syslog_logged (run : p.syslog steps = some q) : Logged p steps q := by
  induction steps using List.reverseRecOn generalizing q with
  | nil =>
    obtain rfl : p = q := Option.some.inj run
    exact ⟨rfl, fun _ opened => opened, fun _ opened apart => ⟨opened, apart⟩, by simp⟩
  | append_singleton before step ih =>
    obtain ⟨mid, earlier, taken⟩ := run_snoc_iff.mp run
    have first := ih earlier
    have last := logStep_logged taken
    constructor
    · rw [after_append, last.log, first.log]
    · exact fun fd opened => first.nothingNew fd (last.nothingNew fd opened)
    · intro fd opened apart
      obtain ⟨still, elsewhere⟩ := first.apart fd opened apart
      exact last.apart fd still elsewhere
    · intro _ fd connected opened
      by_cases none_before : before = []
      · subst none_before
        obtain rfl : p = mid := Option.some.inj earlier
        exact last.dropped (by simp) fd connected opened
      · exact first.dropped none_before fd connected (last.nothingNew fd opened)

theorem syslog_accounted (held : Accounted caller p) (run : p.syslog steps = some q) :
    Accounted caller q := by
  have keeps (s : Process φ) (step : LogStep) (t : Process φ) (kept : Accounted caller s)
      (taken : logMachine.step s step = some t) : Accounted caller t := logStep_accounted kept taken
  exact invariant_run keeps held run

end Logging

section Redirecting
variable {caller : Caller φ} {answers : Answers} {p q : Process φ} {redirectFd : Nat}

@[simp] theorem redirect_lookup (p : Process φ) (source target fd : Nat) :
    (p.redirect source target).table fd = if fd = target then p.table source else p.table fd :=
  dup2_lookup p.table source target fd

@[simp] theorem release_lookup (p : Process φ) (closes : Bool) (redirectFd fd : Nat) :
    (p.release closes redirectFd).table fd =
      if closes = true ∧ fd = redirectFd then none else p.table fd := by
  cases closes with
  | false => simp [Process.release]
  | true => simp [Process.release, close_lookup]

@[simp] theorem redirect_log (p : Process φ) (source target : Nat) :
    (p.redirect source target).log = p.log := rfl

@[simp] theorem release_log (p : Process φ) (closes : Bool) (redirectFd : Nat) :
    (p.release closes redirectFd).log = p.log := by
  cases closes <;> rfl

theorem opens_iff : p.opens redirectFd = some q ↔
    p.table redirectFd = none ∧ ⟨put p.table redirectFd .outputfile, p.log⟩ = q := by
  rw [Process.opens, Option.ite_none_right_eq_some, Option.some.injEq, Option.isNone_iff_eq_none]

/-- The descriptor of outputfile, which is not that of the log. -/
structure Opened (caller : Caller φ) (redirectFd : Nat) (p : Process φ) : Prop where
  accounted : Accounted caller p
  own : p.table redirectFd = some .outputfile
  apart : p.log.fd ≠ some redirectFd
  free : caller.table redirectFd = none ∨ caller.logFile = some redirectFd

theorem opened_of_opens (held : Accounted caller p) (goes : p.opens redirectFd = some q) :
    Opened caller redirectFd q := by
  obtain ⟨free, rfl⟩ := opens_iff.mp goes
  have elsewhere : p.log.fd ≠ some redirectFd := fun same => held.live redirectFd same free
  have nothing := (held.rest redirectFd).resolve_left (by simp [free])
  refine ⟨⟨?_, ?_, held.made, held.callers⟩, by simp [put_lookup], elsewhere, ?_⟩
  · intro fd
    dsimp only
    rw [put_lookup]
    by_cases same : fd = redirectFd
    · exact Or.inl (if_pos same)
    · rw [if_neg same]
      exact held.rest fd
  · intro fd connected
    dsimp only
    rw [put_lookup]
    split
    · simp
    · exact held.live fd connected
  · by_cases logged : caller.logFile = some redirectFd
    · exact Or.inr logged
    · left
      rw [free, unredirected, if_neg (by simpa [log_fd_iff] using fun same => elsewhere (by simp [same, Log.fd])),
        if_neg (by tauto)] at nothing
      exact inherited_free.mp nothing.symm

theorem opened_redirect (held : Opened caller redirectFd p) (target : Nat) :
    Opened caller redirectFd (p.redirect redirectFd target) := by
  refine ⟨⟨?_, ?_, held.accounted.made, held.accounted.callers⟩, ?_, held.apart, held.free⟩
  · intro fd
    rw [redirect_lookup]
    split
    · exact Or.inl held.own
    · exact held.accounted.rest fd
  · intro fd connected
    rw [redirect_lookup]
    split
    · simp [held.own]
    · exact held.accounted.live fd connected
  · rw [redirect_lookup, held.own]
    simp

theorem opened_syslog {steps : List LogStep} (held : Opened caller redirectFd p)
    (run : p.syslog steps = some q) : Opened caller redirectFd q := by
  obtain ⟨own, apart⟩ := (syslog_logged run).apart redirectFd held.own held.apart
  exact ⟨syslog_accounted held.accounted run, own, apart, held.free⟩

theorem release_accounted (held : Opened caller redirectFd p) (closes : Bool) :
    Accounted caller (p.release closes redirectFd) := by
  obtain ⟨accounted, _, apart, free⟩ := held
  have notMade : p.log ≠ .made redirectFd := fun same => apart (log_fd_iff.mpr (Or.inr same))
  have notCallers : p.log ≠ .callers redirectFd := fun same => apart (log_fd_iff.mpr (Or.inl same))
  constructor
  · intro fd
    rw [release_lookup, release_log]
    split
    · rename_i released
      rw [released.2]
      right
      rcases free with free | logged
      · simp [unredirected, notMade, inherited, free]
      · simp [unredirected, notMade, logged, notCallers]
    · exact accounted.rest fd
  · intro fd connected
    rw [release_log] at connected
    rw [release_lookup, if_neg]
    · exact accounted.live fd connected
    · rintro ⟨_, rfl⟩
      exact apart connected
  · rw [release_log]
    exact accounted.made
  · rw [release_log]
    exact accounted.callers

/-- What is left of outputfile after an error path, or after the redirection. -/
theorem closed_out_iff {before after : List LogStep} {closes : Bool}
    (held : Opened caller redirectFd p)
    (goes : p.closeBetween before closes redirectFd after = some q) :
    Accounted caller q ∧ q.log = p.log.after (before ++ after) ∧
      ((∀ fd, q.table fd ≠ some .outputfile) ↔ closes = true ∧ ∀ fd, p.table fd = some .outputfile →
        fd = redirectFd ∨ p.log.fd = some fd ∧ before ++ after ≠ []) := by
  obtain ⟨told, first, last⟩ := Option.bind_eq_some_iff.mp goes
  have one := syslog_logged first
  have two := syslog_logged last
  have opened := opened_syslog held first
  refine ⟨syslog_accounted (release_accounted opened closes) last, ?_, ?_, ?_⟩
  · rw [two.log, release_log, one.log, after_append]
  · intro unopened
    have stays (fd : Nat) (here : told.table fd = some .outputfile) (elsewhere : told.log.fd ≠ some fd) :
        closes = true ∧ fd = redirectFd := by
      by_contra kept
      refine unopened fd (two.apart fd ?_ (by rwa [release_log])).1
      rw [release_lookup, if_neg kept, here]
    refine ⟨(stays redirectFd opened.own opened.apart).1, ?_⟩
    intro fd here
    by_cases connected : p.log.fd = some fd
    · right
      refine ⟨connected, ?_⟩
      intro silent
      obtain ⟨rfl, rfl⟩ := List.append_eq_nil_iff.mp silent
      obtain rfl : p = told := Option.some.inj first
      obtain rfl : p.release closes redirectFd = q := Option.some.inj last
      have lost := unopened fd
      rw [release_lookup] at lost
      split at lost
      · rename_i released
        exact held.apart (by rw [← released.2, connected])
      · exact lost here
    · obtain ⟨there, elsewhere⟩ := one.apart fd here connected
      exact Or.inl (stays fd there elsewhere).2
  · rintro ⟨rfl, spare⟩ fd left
    have released := two.nothingNew fd left
    rw [release_lookup] at released
    split at released
    · simp at released
    · rename_i other
      rcases spare fd (one.nothingNew fd released) with same | ⟨connected, steps⟩
      · exact other ⟨rfl, same⟩
      · by_cases silent : before = []
        · subst silent
          obtain rfl : p = told := Option.some.inj first
          exact two.dropped (by simpa using steps) fd (by rwa [release_log]) left
        · exact one.dropped silent fd connected released

end Redirecting

end LogConnection
