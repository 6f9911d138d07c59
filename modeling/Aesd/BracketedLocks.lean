import Aesd.TransitionRuns
import Mathlib.Logic.Function.Basic

/-! Threads that each run a list of calls, in any order among themselves. Where no thread
    asks for a lock with another one in hand, none of them can stop the rest. -/
namespace BracketedLocks
open TransitionRuns
variable {Lock Work : Type*}

inductive Call (Lock Work : Type*) where
  | work (done : Work)
  | lock (l : Lock)
  | unlock (l : Lock)
  deriving DecidableEq, Repr

/-- The rest of a program, run with a lock in hand or without one, takes no second lock,
    gives back only the one it has, and ends without one. -/
def Bracketed : Option Lock → List (Call Lock Work) → Prop
  | held, [] => held = none
  | held, .work _ :: rest => Bracketed held rest
  | none, .lock l :: rest => Bracketed (some l) rest
  | some _, .lock _ :: _ => False
  | none, .unlock _ :: _ => False
  | some held, .unlock l :: rest => held = l ∧ Bracketed none rest

/-- The lock that such a rest gives back before it takes one. -/
def holding : List (Call Lock Work) → Option Lock
  | [] => none
  | .work _ :: rest => holding rest
  | .lock _ :: _ => none
  | .unlock l :: _ => some l

structure Pool (Lock Work : Type*) where
  owner : Lock → Option Nat
  programs : List (List (Call Lock Work))

section Calls
variable [DecidableEq Lock]

/-- The next call of a thread, with what the thread still has to do. An unlock by a thread
    that is not the owner has no meaning. -/
def call (owner : Lock → Option Nat) (thread : Nat) : Call Lock Work → Option (Lock → Option Nat)
  | .work _ => some owner
  | .lock l => if owner l = none then some (Function.update owner l (some thread)) else none
  | .unlock l => if owner l = some thread then some (Function.update owner l none) else none

def step (pool : Pool Lock Work) (thread : Nat) : Option (Pool Lock Work) :=
  match pool.programs[thread]? with
  | some (next :: rest) =>
      (call pool.owner thread next).map fun owner => ⟨owner, pool.programs.set thread rest⟩
  | _ => none

def machine (Lock Work : Type*) [DecidableEq Lock] : Machine (Pool Lock Work) Nat := ⟨step⟩

end Calls

def Pool.spawn (pool : Pool Lock Work) (program : List (Call Lock Work)) : Pool Lock Work :=
  { pool with programs := pool.programs ++ [program] }

def Pool.remaining (pool : Pool Lock Work) : Nat := (pool.programs.map List.length).sum

def Pool.left (pool : Pool Lock Work) (thread : Nat) : Nat :=
  (pool.programs[thread]?.map List.length).getD 0

structure Owned (pool : Pool Lock Work) : Prop where
  bracketed : ∀ program ∈ pool.programs, Bracketed (holding program) program
  owner : ∀ l thread, pool.owner l = some thread ↔
    ∃ program, pool.programs[thread]? = some program ∧ holding program = some l

theorem bracketed_holding {held : Option Lock} {program : List (Call Lock Work)}
    (bracketed : Bracketed held program) : held = holding program := by
  induction program with
  | nil => exact bracketed
  | cons next rest ih =>
    cases next with
    | work done => exact ih bracketed
    | lock l =>
      cases held with
      | none => rfl
      | some held => exact bracketed.elim
    | unlock l =>
      cases held with
      | none => exact bracketed.elim
      | some held => exact congrArg some bracketed.1

theorem owned_empty : Owned (⟨fun _ => none, []⟩ : Pool Lock Work) := by
  constructor <;> simp

theorem owned_spawn {pool : Pool Lock Work} {program : List (Call Lock Work)}
    (owned : Owned pool) (bracketed : Bracketed none program) : Owned (pool.spawn program) := by
  have idle := bracketed_holding bracketed
  constructor
  · intro other member
    rcases List.mem_append.mp member with old | new
    · exact owned.bracketed other old
    · rw [List.mem_singleton.mp new, ← idle]
      exact bracketed
  · intro l thread
    rw [Pool.spawn, owned.owner l thread]
    constructor
    · rintro ⟨other, found, holds⟩
      obtain ⟨inside, _⟩ := List.getElem?_eq_some_iff.mp found
      exact ⟨other, by rw [List.getElem?_append_left inside, found], holds⟩
    · rintro ⟨other, found, holds⟩
      rcases Nat.lt_or_ge thread pool.programs.length with inside | outside
      · rw [List.getElem?_append_left inside] at found
        exact ⟨other, found, holds⟩
      · rw [List.getElem?_append_right outside] at found
        rw [List.mem_singleton.mp (List.mem_of_getElem? found), ← idle] at holds
        cases holds

theorem remaining_set {programs : List (List (Call Lock Work))} {thread : Nat}
    {next : Call Lock Work} {rest : List (Call Lock Work)}
    (found : programs[thread]? = some (next :: rest)) :
    1 + ((programs.set thread rest).map List.length).sum = (programs.map List.length).sum := by
  induction programs generalizing thread with
  | nil => simp at found
  | cons first programs ih =>
    cases thread with
    | zero =>
      simp only [List.getElem?_cons_zero, Option.some.injEq] at found
      subst found
      simp only [List.set_cons_zero, List.map_cons, List.sum_cons, List.length_cons]
      omega
    | succ thread =>
      have later := ih found
      simp only [List.set_cons_succ, List.map_cons, List.sum_cons]
      omega

variable [DecidableEq Lock] {pool later : Pool Lock Work}

theorem step_cases {thread : Nat} (taken : step pool thread = some later) :
    ∃ next rest owner, pool.programs[thread]? = some (next :: rest) ∧
      call pool.owner thread next = some owner ∧
      later = ⟨owner, pool.programs.set thread rest⟩ := by
  unfold step at taken
  split at taken
  · rename_i next rest found
    obtain ⟨owner, called, same⟩ := Option.map_eq_some_iff.mp taken
    exact ⟨next, rest, owner, found, called, same.symm⟩
  · cases taken

theorem remaining_step {thread : Nat} (taken : step pool thread = some later) :
    1 + later.remaining = pool.remaining := by
  obtain ⟨next, rest, owner, found, _, rfl⟩ := step_cases taken
  exact remaining_set found

theorem left_step {thread : Nat} (taken : step pool thread = some later) (other : Nat) :
    (if thread = other then 1 else 0) + later.left other = pool.left other := by
  obtain ⟨next, rest, owner, found, _, rfl⟩ := step_cases taken
  obtain ⟨inside, _⟩ := List.getElem?_eq_some_iff.mp found
  unfold Pool.left
  by_cases own : thread = other
  · subst own
    rw [if_pos rfl, List.getElem?_set_self inside, found, Option.map_some, Option.map_some,
      Option.getD_some, Option.getD_some, List.length_cons, Nat.add_comm]
  · rw [if_neg own, List.getElem?_set_ne own, Nat.zero_add]

theorem call_holding {owner next_owner : Lock → Option Nat} {thread : Nat}
    {next : Call Lock Work} {rest : List (Call Lock Work)}
    (bracketed : Bracketed (holding (next :: rest)) (next :: rest))
    (own : ∀ l, owner l = some thread ↔ holding (next :: rest) = some l)
    (called : call owner thread next = some next_owner) :
    Bracketed (holding rest) rest ∧ (∀ l, next_owner l = some thread ↔ holding rest = some l) ∧
      ∀ l other, other ≠ thread → (next_owner l = some other ↔ owner l = some other) := by
  cases next with
  | work done =>
    obtain rfl := Option.some.inj called
    exact ⟨bracketed, own, fun _ _ _ => Iff.rfl⟩
  | lock taken =>
    have inside : Bracketed (some taken) rest := bracketed
    simp only [call] at called
    split at called
    · rename_i free
      obtain rfl := Option.some.inj called
      refine ⟨bracketed_holding inside ▸ inside, ?_, ?_⟩
      · intro l
        rw [← bracketed_holding inside]
        by_cases same : l = taken
        · rw [same, Function.update_self]
          exact ⟨fun _ => rfl, fun _ => rfl⟩
        · rw [Function.update_of_ne same, own l]
          simp [holding, Ne.symm same]
      · intro l other apart
        by_cases same : l = taken
        · rw [same, Function.update_self, free]
          simp [Ne.symm apart]
        · rw [Function.update_of_ne same]
    · cases called
  | unlock given =>
    have inside : Bracketed none rest := bracketed.2
    simp only [call] at called
    split at called
    · rename_i mine
      obtain rfl := Option.some.inj called
      refine ⟨bracketed_holding inside ▸ inside, ?_, ?_⟩
      · intro l
        rw [← bracketed_holding inside]
        by_cases same : l = given
        · rw [same, Function.update_self]
          simp
        · rw [Function.update_of_ne same, own l]
          simp [holding, Ne.symm same]
      · intro l other apart
        by_cases same : l = given
        · rw [same, Function.update_self, mine]
          simp [Ne.symm apart]
        · rw [Function.update_of_ne same]
    · cases called

theorem owned_step {thread : Nat} (owned : Owned pool) (taken : step pool thread = some later) :
    Owned later := by
  obtain ⟨next, rest, owner, found, called, rfl⟩ := step_cases taken
  obtain ⟨inside, _⟩ := List.getElem?_eq_some_iff.mp found
  have own (l : Lock) : pool.owner l = some thread ↔ holding (next :: rest) = some l := by
    rw [owned.owner l thread, found]
    simp
  obtain ⟨bracketed, mine, others⟩ :=
    call_holding (owned.bracketed _ (List.mem_of_getElem? found)) own called
  constructor
  · intro program member
    rcases List.mem_or_eq_of_mem_set member with old | rfl
    · exact owned.bracketed program old
    · exact bracketed
  · intro l other
    by_cases same : other = thread
    · subst same
      rw [mine l, List.getElem?_set_self inside]
      simp
    · rw [others l other same, owned.owner l other, List.getElem?_set_ne (Ne.symm same)]

theorem holder_goes {thread : Nat} {l : Lock} (owned : Owned pool)
    (owns : pool.owner l = some thread) : (step pool thread).isSome := by
  obtain ⟨program, found, holds⟩ := (owned.owner l thread).mp owns
  cases program with
  | nil => cases holds
  | cons next rest =>
    cases next with
    | work done => simp [step, found, call]
    | lock other => cases holds
    | unlock given =>
      obtain rfl := Option.some.inj holds
      simp [step, found, call, owns]

/-- No deadlock: while a program is unfinished, some thread can go on. -/
theorem goes_on {program : List (Call Lock Work)} (owned : Owned pool)
    (member : program ∈ pool.programs) (unfinished : program ≠ []) :
    ∃ thread, (step pool thread).isSome := by
  obtain ⟨thread, found⟩ := List.mem_iff_getElem?.mp member
  cases program with
  | nil => exact absurd rfl unfinished
  | cons next rest =>
    cases next with
    | work done => exact ⟨thread, by simp [step, found, call]⟩
    | unlock l =>
      exact ⟨thread, holder_goes owned ((owned.owner l thread).mpr ⟨_, found, rfl⟩)⟩
    | lock l =>
      cases owner : pool.owner l with
      | none => exact ⟨thread, by simp [step, found, call, owner]⟩
      | some other => exact ⟨other, holder_goes owned owner⟩

/-- Every order of calls comes to an end, with every lock free. -/
theorem stopped (owned : Owned pool) (stuck : ∀ thread, step pool thread = none) :
    (∀ program ∈ pool.programs, program = []) ∧ ∀ l, pool.owner l = none := by
  have finished : ∀ program ∈ pool.programs, program = [] := by
    intro program member
    by_contra unfinished
    obtain ⟨thread, goes⟩ := goes_on owned member unfinished
    rw [stuck thread] at goes
    cases goes
  constructor
  · exact finished
  · intro l
    cases owner : pool.owner l with
    | none => rfl
    | some thread =>
      obtain ⟨program, found, holds⟩ := (owned.owner l thread).mp owner
      rw [finished program (List.mem_of_getElem? found)] at holds
      cases holds

theorem remaining_run {pool later : Pool Lock Work} {order : List Nat}
    (run : (machine Lock Work).run pool order = some later) :
    order.length + later.remaining = pool.remaining := by
  induction order generalizing pool with
  | nil =>
    obtain rfl := Option.some.inj run
    exact Nat.zero_add _
  | cons thread order ih =>
    obtain ⟨mid, taken, further⟩ := run_cons_iff.mp run
    have here := remaining_step taken
    have rest := ih further
    rw [List.length_cons]
    omega

theorem left_run {pool later : Pool Lock Work} {order : List Nat}
    (run : (machine Lock Work).run pool order = some later) (thread : Nat) :
    order.count thread + later.left thread = pool.left thread := by
  induction order generalizing pool with
  | nil =>
    obtain rfl := Option.some.inj run
    rw [List.count_nil, Nat.zero_add]
  | cons first order ih =>
    obtain ⟨mid, taken, further⟩ := run_cons_iff.mp run
    have here := left_step taken thread
    have rest := ih further
    simp only [List.count_cons, beq_iff_eq]
    omega

end BracketedLocks
