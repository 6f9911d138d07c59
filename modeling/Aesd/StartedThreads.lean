import Aesd.BracketedLocks
import Aesd.ThreadSleep
import Mathlib.Data.List.Forall2

/-! The threads that start_thread_obtaining_mutex starts, any number of them over any number
    of mutexes, each in the middle of its own threadfunc. -/
namespace StartedThreads
open TransitionRuns BracketedLocks ThreadSleep

/-- What threadfunc does besides locking; finish is its last assignment with its return. -/
inductive ThreadWork where
  | nanosleep (request : Timespec)
  | finish (returned : ThreadData)
  deriving DecidableEq, Repr

def asCall : ThreadCall → Call Nat ThreadWork
  | .nanosleep request => .work (.nanosleep request)
  | .lock mutex => .lock mutex
  | .unlock mutex => .unlock mutex

def program (data : ThreadData) : Option (List (Call Nat ThreadWork)) :=
  (threadfunc data).map fun run => run.calls.map asCall ++ [.work (.finish run.returned)]

/-- data has the thread_data of each thread; leaked counts those that no thread will return. -/
structure Threads where
  pool : Pool Nat ThreadWork
  data : List ThreadData
  leaked : Nat

inductive Action where
  | start (allocated created flagFound : Bool) (thread mutex : Nat)
      (waitToObtainMs waitToReleaseMs : Int32)
  | call (thread : Nat)
  deriving DecidableEq, Repr

def finished : Option (List (Call Nat ThreadWork)) → Option ThreadData
  | some (.work (.finish returned) :: _) => some returned
  | _ => none

def step (s : Threads) : Action → Option Threads
  | .start allocated created flagFound thread mutex waitToObtainMs waitToReleaseMs =>
      match (startThreadObtainingMutex allocated created flagFound thread mutex waitToObtainMs
        waitToReleaseMs).started with
      | none => some { s with leaked := s.leaked + if allocated then 1 else 0 }
      -- no step where sleep_ms overflows
      | some data => (program data).map fun calls =>
          { s with pool := s.pool.spawn calls, data := s.data ++ [data] }
  | .call thread => (BracketedLocks.step s.pool thread).map fun pool =>
      match finished s.pool.programs[thread]? with
      | some returned => { s with pool := pool, data := s.data.set thread returned }
      | none => { s with pool := pool }

def machine : Machine Threads Action := ⟨step⟩

def idle : Threads := ⟨⟨fun _ => none, []⟩, [], 0⟩

structure Belongs (data : ThreadData) (rest : List (Call Nat ThreadWork)) : Prop where
  suffix : ∃ whole, program data = some whole ∧ rest <:+ whole
  success : rest = [] → data.threadCompleteSuccess = true

structure Started (s : Threads) : Prop where
  owned : Owned s.pool
  belong : List.Forall₂ Belongs s.data s.pool.programs

variable {s t : Threads} {data : ThreadData} {whole rest : List (Call Nat ThreadWork)}

theorem program_iff : program data = some whole ↔ ∃ before holding,
    sleepMs data.waitToObtainMs = some before ∧ sleepMs data.waitToReleaseMs = some holding ∧
      whole = [.work (.nanosleep before), .lock data.mutex, .work (.nanosleep holding),
        .unlock data.mutex, .work (.finish { data with threadCompleteSuccess := true })] := by
  unfold program
  rw [Option.map_eq_some_iff]
  constructor
  · rintro ⟨run, ran, same⟩
    obtain ⟨before, holding, first, second, rfl⟩ := threadfunc_iff.mp ran
    exact ⟨before, holding, first, second, same.symm⟩
  · rintro ⟨before, holding, first, second, same⟩
    exact ⟨_, threadfunc_iff.mpr ⟨before, holding, first, second, rfl⟩, same.symm⟩

theorem program_bracketed (ran : program data = some whole) : Bracketed none whole := by
  obtain ⟨before, holding, _, _, rfl⟩ := program_iff.mp ran
  exact ⟨rfl, rfl⟩

theorem program_length (ran : program data = some whole) : whole.length = 5 := by
  obtain ⟨before, holding, _, _, rfl⟩ := program_iff.mp ran
  rfl

/-- The program does not look at the flag it sets. -/
theorem program_success (data : ThreadData) :
    program { data with threadCompleteSuccess := true } = program data := rfl

theorem suffix_cases (ran : program data = some whole) (suffix : rest <:+ whole) :
    ∃ before holding, rest ∈ [[.work (.nanosleep before), .lock data.mutex,
        .work (.nanosleep holding), .unlock data.mutex,
        .work (.finish { data with threadCompleteSuccess := true })],
      [.lock data.mutex, .work (.nanosleep holding), .unlock data.mutex,
        .work (.finish { data with threadCompleteSuccess := true })],
      [.work (.nanosleep holding), .unlock data.mutex,
        .work (.finish { data with threadCompleteSuccess := true })],
      [.unlock data.mutex, .work (.finish { data with threadCompleteSuccess := true })],
      [.work (.finish { data with threadCompleteSuccess := true })], []] := by
  obtain ⟨before, holding, _, _, rfl⟩ := program_iff.mp ran
  refine ⟨before, holding, ?_⟩
  simpa [List.suffix_cons_iff] using suffix

/-- Between its lock and its unlock a thread has its own mutex in hand, and only then. -/
theorem belongs_holding (belongs : Belongs data rest) (mutex : Nat) :
    holding rest = some mutex ↔
      data.mutex = mutex ∧ .lock data.mutex ∉ rest ∧ .unlock data.mutex ∈ rest := by
  obtain ⟨whole, ran, suffix⟩ := belongs.suffix
  obtain ⟨before, holding, cases⟩ := suffix_cases ran suffix
  simp only [List.mem_cons, List.not_mem_nil, or_false] at cases
  rcases cases with rfl | rfl | rfl | rfl | rfl | rfl <;> simp [BracketedLocks.holding]

theorem belongs_next {next : Call Nat ThreadWork} (belongs : Belongs data (next :: rest)) :
    Belongs ((finished (some (next :: rest))).getD data) rest := by
  obtain ⟨whole, ran, suffix⟩ := belongs.suffix
  obtain ⟨before, holding, cases⟩ := suffix_cases ran suffix
  have later : rest <:+ whole := (List.suffix_cons next rest).trans suffix
  simp only [List.mem_cons, List.not_mem_nil, or_false, List.cons.injEq, reduceCtorEq] at cases
  rcases cases with ⟨rfl, rfl⟩ | ⟨rfl, rfl⟩ | ⟨rfl, rfl⟩ | ⟨rfl, rfl⟩ | ⟨rfl, rfl⟩
  · exact ⟨⟨whole, ran, later⟩, by simp⟩
  · exact ⟨⟨whole, ran, later⟩, by simp⟩
  · exact ⟨⟨whole, ran, later⟩, by simp⟩
  · exact ⟨⟨whole, ran, later⟩, by simp⟩
  · exact ⟨⟨whole, (program_success data).trans ran, later⟩, fun _ => rfl⟩

theorem started_idle : Started idle := ⟨owned_empty, List.Forall₂.nil⟩

theorem belong_lookup {blocks : List ThreadData} {programs : List (List (Call Nat ThreadWork))}
    (belong : List.Forall₂ Belongs blocks programs) {thread : Nat}
    (found : programs[thread]? = some rest) :
    ∃ data, blocks[thread]? = some data ∧ Belongs data rest := by
  induction belong generalizing thread with
  | nil => simp at found
  | @cons data first blocks programs here _ ih =>
    cases thread with
    | zero =>
      obtain rfl := Option.some.inj found
      exact ⟨data, rfl, here⟩
    | succ thread => exact ih found

theorem belong_set {blocks : List ThreadData} {programs : List (List (Call Nat ThreadWork))}
    (belong : List.Forall₂ Belongs blocks programs) {thread : Nat} (here : Belongs data rest) :
    List.Forall₂ Belongs (blocks.set thread data) (programs.set thread rest) := by
  induction belong generalizing thread with
  | nil => exact List.Forall₂.nil
  | cons first later ih =>
    cases thread with
    | zero => exact List.Forall₂.cons here later
    | succ thread => exact List.Forall₂.cons first ih

theorem call_cases {thread : Nat} (started : Started s)
    (taken : machine.step s (.call thread) = some t) :
    ∃ pool next rest data, BracketedLocks.step s.pool thread = some pool ∧
      s.pool.programs[thread]? = some (next :: rest) ∧ s.data[thread]? = some data ∧
      Belongs data (next :: rest) ∧ pool.programs = s.pool.programs.set thread rest ∧
      t = { s with
        pool := pool
        data := s.data.set thread ((finished (some (next :: rest))).getD data) } := by
  obtain ⟨pool, called, same⟩ := Option.map_eq_some_iff.mp taken
  obtain ⟨next, rest, owner, found, _, rfl⟩ := step_cases called
  obtain ⟨data, here, belongs⟩ := belong_lookup started.belong found
  refine ⟨_, next, rest, data, called, found, here, belongs, rfl, ?_⟩
  rw [← same, found]
  cases finished (some (next :: rest)) with
  | some returned => rfl
  | none =>
    obtain ⟨inside, rfl⟩ := List.getElem?_eq_some_iff.mp here
    simp only [Option.getD_none, List.set_getElem_self]

theorem started_step (s : Threads) (action : Action) (t : Threads) (started : Started s)
    (taken : machine.step s action = some t) : Started t := by
  cases action with
  | start allocated created flagFound thread mutex waitToObtainMs waitToReleaseMs =>
    simp only [machine, step] at taken
    split at taken
    · cases taken
      exact ⟨started.owned, started.belong⟩
    · rename_i data starts
      obtain ⟨calls, ran, rfl⟩ := Option.map_eq_some_iff.mp taken
      constructor
      · exact owned_spawn started.owned (program_bracketed ran)
      · apply List.rel_append started.belong
        apply List.Forall₂.cons _ List.Forall₂.nil
        constructor
        · exact ⟨calls, ran, List.suffix_rfl⟩
        · intro empty
          have five := program_length ran
          rw [empty] at five
          cases five
  | call thread =>
    obtain ⟨pool, next, rest, data, called, _, _, belongs, programs, rfl⟩ :=
      call_cases started taken
    constructor
    · exact owned_step started.owned called
    · rw [programs]
      exact belong_set started.belong (belongs_next belongs)

theorem started_run {past : List Action} (run : machine.run idle past = some s) : Started s :=
  invariant_run started_step started_idle run

def starts : Action → Bool
  | .start allocated created _ _ _ _ _ => allocated && created
  | .call _ => false

def loses : Action → Bool
  | .start allocated created _ _ _ _ _ => allocated && !created
  | .call _ => false

/-- A failed pthread_create leaves its thread_data behind. -/
theorem blocks_counted {past : List Action} (run : machine.run idle past = some s) :
    s.data.length = past.countP starts ∧ s.leaked = past.countP loses := by
  apply @history_along _ _ machine (fun _ _ => True)
    (fun past s => s.data.length = past.countP starts ∧ s.leaked = past.countP loses)
    _ idle s [] past ⟨rfl, rfl⟩ (along_true machine idle past) run
  intro past s action t counted _ taken
  rw [List.countP_append, List.countP_append, ← counted.1, ← counted.2]
  cases action with
  | start allocated created flagFound thread mutex waitToObtainMs waitToReleaseMs =>
    simp only [machine, step, startThreadObtainingMutex] at taken
    cases allocated with
    | false =>
      cases taken
      simp [starts, loses]
    | true =>
      cases created with
      | false =>
        cases taken
        simp [starts, loses]
      | true =>
        obtain ⟨calls, _, rfl⟩ := Option.map_eq_some_iff.mp taken
        simp [starts, loses]
  | call thread =>
    obtain ⟨pool, _, rfl⟩ := Option.map_eq_some_iff.mp taken
    cases finished s.pool.programs[thread]? <;> simp [starts, loses]

/-- Whichever way the scheduler goes, a mutex is held by the one thread that has made its
    lock and not yet its unlock of it, and by none if there is no such thread. -/
theorem mutex_is_held_from_lock_to_unlock {past : List Action}
    (run : machine.run idle past = some s) (mutex thread : Nat) :
    s.pool.owner mutex = some thread ↔
      ∃ data calls, s.data[thread]? = some data ∧ s.pool.programs[thread]? = some calls ∧
        data.mutex = mutex ∧ .lock mutex ∉ calls ∧ .unlock mutex ∈ calls := by
  have started := started_run run
  rw [started.owned.owner mutex thread]
  constructor
  · rintro ⟨calls, found, holds⟩
    obtain ⟨data, here, belongs⟩ := belong_lookup started.belong found
    obtain ⟨rfl, locked, inside⟩ := (belongs_holding belongs mutex).mp holds
    exact ⟨data, calls, here, found, rfl, locked, inside⟩
  · rintro ⟨data, calls, here, found, rfl, locked, inside⟩
    obtain ⟨same, here', belongs⟩ := belong_lookup started.belong found
    obtain rfl := Option.some.inj (here.symm.trans here')
    exact ⟨calls, found, (belongs_holding belongs data.mutex).mpr ⟨rfl, locked, inside⟩⟩

def twoThreads : List Action :=
  [.start true true false 0 7 0 0, .start true false true 1 7 0 0, .start true true true 2 7 1 1,
    .call 0, .call 1, .call 0]

theorem first_thread_holds :
    ∃ s, machine.run idle twoThreads = some s ∧ s.pool.owner 7 = some 0 ∧ s.leaked = 1 := by
  obtain ⟨s, run, leaked, data, calls⟩ : ∃ s, machine.run idle twoThreads = some s ∧
      s.leaked = 1 ∧ s.data[0]? = some ⟨0, 0, 7, 0, false⟩ ∧
        s.pool.programs[0]? = some [.work (.nanosleep ⟨0, 0⟩), .unlock 7,
          .work (.finish ⟨0, 0, 7, 0, true⟩)] := ⟨_, rfl, rfl, rfl, rfl⟩
  refine ⟨s, run, ?_, leaked⟩
  exact (mutex_is_held_from_lock_to_unlock run 7 0).mpr ⟨_, _, data, calls, rfl, by simp, by simp⟩

theorem pool_run {order : List Nat} (run : machine.run s (order.map .call) = some t) :
    (BracketedLocks.machine Nat ThreadWork).run s.pool order = some t.pool := by
  induction order generalizing s with
  | nil =>
    obtain rfl := Option.some.inj run
    rfl
  | cons thread order ih =>
    obtain ⟨mid, taken, later⟩ := run_cons_iff.mp run
    obtain ⟨pool, called, same⟩ := Option.map_eq_some_iff.mp taken
    have next : mid.pool = pool := by
      rw [← same]
      cases finished s.pool.programs[thread]? <;> rfl
    exact run_cons_iff.mpr ⟨pool, called, next ▸ ih later⟩

theorem belong_remaining {blocks : List ThreadData} {programs : List (List (Call Nat ThreadWork))}
    (belong : List.Forall₂ Belongs blocks programs) :
    (programs.map List.length).sum ≤ 5 * blocks.length := by
  induction belong with
  | nil => exact Nat.le_refl _
  | cons here _ ih =>
    obtain ⟨whole, ran, suffix⟩ := here.suffix
    have few := suffix.length_le
    rw [program_length ran] at few
    simp only [List.map_cons, List.sum_cons, List.length_cons]
    omega

theorem belong_left (belong : List.Forall₂ Belongs s.data s.pool.programs) (thread : Nat) :
    s.pool.left thread ≤ 5 := by
  unfold Pool.left
  cases found : s.pool.programs[thread]? with
  | none => exact Nat.zero_le _
  | some calls =>
    obtain ⟨data, _, belongs⟩ := belong_lookup belong found
    obtain ⟨whole, ran, suffix⟩ := belongs.suffix
    have few := suffix.length_le
    rwa [program_length ran] at few

theorem call_stuck {thread : Nat} :
    machine.step s (.call thread) = none ↔ BracketedLocks.step s.pool thread = none := by
  simp only [machine, step, Option.map_eq_none_iff]

/-- However the scheduler orders their calls, each of the threads started so far makes at most
    five of them, and they stop only when all have returned success and every mutex is free. -/
theorem threads_end {past : List Action} (run : machine.run idle past = some s) {order : List Nat}
    (calls : machine.run s (order.map .call) = some t) :
    (∀ thread, order.count thread ≤ 5) ∧ order.length ≤ 5 * s.data.length ∧
      ((∀ thread, machine.step t (.call thread) = none) →
        (∀ program ∈ t.pool.programs, program = []) ∧
          (∀ data ∈ t.data, data.threadCompleteSuccess = true) ∧
            ∀ mutex, t.pool.owner mutex = none) := by
  have started := started_run run
  have ended := invariant_run started_step started calls
  refine ⟨?_, ?_, ?_⟩
  · intro thread
    have left := left_run (pool_run calls) thread
    have bound := belong_left started.belong thread
    omega
  · have left := remaining_run (pool_run calls)
    have bound := belong_remaining started.belong
    unfold Pool.remaining at left
    omega
  · intro stuck
    obtain ⟨finished, free⟩ := stopped ended.owned fun thread => call_stuck.mp (stuck thread)
    refine ⟨finished, ?_, free⟩
    intro data member
    obtain ⟨thread, found⟩ := List.mem_iff_getElem?.mp member
    obtain ⟨inside, _⟩ := List.getElem?_eq_some_iff.mp found
    rw [ended.belong.length_eq] at inside
    obtain ⟨same, here, belongs⟩ :=
      belong_lookup ended.belong (List.getElem?_eq_getElem inside)
    obtain rfl := Option.some.inj (found.symm.trans here)
    exact belongs.success (finished _ (List.getElem_mem inside))

theorem two_threads_end :
    ∃ s t, machine.run idle twoThreads = some s ∧
      machine.run s ([0, 0, 1, 0, 1, 1, 1].map .call) = some t ∧
        (∀ data ∈ t.data, data.threadCompleteSuccess = true) ∧ t.pool.owner 7 = none := by
  obtain ⟨s, t, run, calls, programs⟩ : ∃ s t, machine.run idle twoThreads = some s ∧
      machine.run s ([0, 0, 1, 0, 1, 1, 1].map .call) = some t ∧ t.pool.programs = [[], []] :=
    ⟨_, _, rfl, rfl, rfl⟩
  have stuck : ∀ thread, machine.step t (.call thread) = none := by
    intro thread
    rw [call_stuck, BracketedLocks.step, programs]
    rcases thread with _ | _ | thread <;> rfl
  obtain ⟨_, success, free⟩ := (threads_end run calls).2.2 stuck
  exact ⟨s, t, run, calls, success, free 7⟩

end StartedThreads
