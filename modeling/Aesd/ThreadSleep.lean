import Mathlib.Tactic.Common

/-! The thread that start_thread_obtaining_mutex starts. Its arguments are ints, their
    product with 1000 is taken in int, and the result of nanosleep is not looked at. -/
namespace ThreadSleep

structure Timespec where
  tvSec : Int
  tvNsec : Int
  deriving DecidableEq, Repr

/-- A product of two ints, none on overflow, which C leaves undefined. -/
def intProduct (a b : Int32) : Option Int :=
  if -2147483648 ≤ a.toInt * b.toInt ∧ a.toInt * b.toInt ≤ 2147483647 then some (a.toInt * b.toInt)
  else none

def sleepMs (ms : Int32) : Option Timespec :=
  (intProduct ms 1000).map fun nsec => ⟨0, nsec⟩

structure ThreadData where
  waitToObtainMs : Int32
  waitToReleaseMs : Int32
  mutex : Nat
  thread : Nat
  threadCompleteSuccess : Bool
  deriving DecidableEq, Repr

inductive ThreadCall where
  | nanosleep (request : Timespec)
  | lock (mutex : Nat)
  | unlock (mutex : Nat)
  deriving DecidableEq, Repr

structure ThreadRun where
  calls : List ThreadCall
  returned : ThreadData
  deriving DecidableEq, Repr

def threadfunc (data : ThreadData) : Option ThreadRun :=
  (sleepMs data.waitToObtainMs).bind fun before =>
    (sleepMs data.waitToReleaseMs).map fun holding =>
      ⟨[.nanosleep before, .lock data.mutex, .nanosleep holding, .unlock data.mutex],
        { data with threadCompleteSuccess := true }⟩

structure StartResult where
  returned : Bool
  started : Option ThreadData
  deriving DecidableEq, Repr

/-- malloc leaves the success flag as it finds it. -/
def startThreadObtainingMutex (allocated created flagFound : Bool) (thread mutex : Nat)
    (waitToObtainMs waitToReleaseMs : Int32) : StartResult :=
  if allocated = false then ⟨false, none⟩
  else
    let data : ThreadData := ⟨waitToObtainMs, waitToReleaseMs, mutex, thread, flagFound⟩
    if created = true then ⟨true, some data⟩ else ⟨false, none⟩

structure SleepsFor (ms : Int32) (request : Timespec) : Prop where
  valid : 0 ≤ request.tvNsec ∧ request.tvNsec < 1000000000
  total : request.tvSec * 1000000000 + request.tvNsec = ms.toInt * 1000000

/-- The thread sleeps for one time before it locks, and for the other while it holds the lock. -/
def SleepsAsAsked (waitToObtainMs waitToReleaseMs : Int32) (data : ThreadData) : Prop :=
  ∃ before holding returned,
    threadfunc data = some ⟨[.nanosleep before, .lock data.mutex, .nanosleep holding,
      .unlock data.mutex], returned⟩ ∧
    SleepsFor waitToObtainMs before ∧ SleepsFor waitToReleaseMs holding

theorem intProduct_iff {a b : Int32} {product : Int} :
    intProduct a b = some product ↔
      product = a.toInt * b.toInt ∧ -2147483648 ≤ product ∧ product ≤ 2147483647 := by
  unfold intProduct
  split
  · rename_i fits
    rw [Option.some.injEq]
    constructor
    · intro same
      rw [← same]
      exact ⟨rfl, fits⟩
    · intro same
      exact same.1.symm
  · rename_i overflows
    constructor
    · intro found
      cases found
    · intro same
      rw [← same.1] at overflows
      exact absurd same.2 overflows

/-- A request names a thousandth of the time, up to the largest int. -/
theorem sleepMs_iff {ms : Int32} (nonnegative : 0 ≤ ms.toInt) {request : Timespec} :
    sleepMs ms = some request ↔ request = ⟨0, ms.toInt * 1000⟩ ∧ ms.toInt ≤ 2147483 := by
  have thousand : (1000 : Int32).toInt = 1000 := by decide
  unfold sleepMs
  rw [Option.map_eq_some_iff]
  constructor
  · intro found
    obtain ⟨nsec, product, same⟩ := found
    rw [intProduct_iff, thousand] at product
    rw [← same, product.1]
    exact ⟨rfl, by omega⟩
  · intro asked
    refine ⟨ms.toInt * 1000, ?_, asked.1.symm⟩
    rw [intProduct_iff, thousand]
    omega

/-- From a million milliseconds on nanosleep refuses the request. -/
theorem sleepMs_valid_iff {ms : Int32} (nonnegative : 0 ≤ ms.toInt) {request : Timespec}
    (asked : sleepMs ms = some request) :
    (0 ≤ request.tvNsec ∧ request.tvNsec < 1000000000) ↔ ms.toInt < 1000000 := by
  obtain ⟨rfl, _⟩ := (sleepMs_iff nonnegative).mp asked
  simp only
  omega

theorem sleepsFor_iff {ms : Int32} (nonnegative : 0 ≤ ms.toInt) :
    (∃ request, sleepMs ms = some request ∧ SleepsFor ms request) ↔ ms = 0 := by
  constructor
  · intro sleeps
    obtain ⟨request, asked, sleeps⟩ := sleeps
    obtain ⟨rfl, _⟩ := (sleepMs_iff nonnegative).mp asked
    have total := sleeps.total
    simp only at total
    have zero : ms.toInt = 0 := by omega
    rw [← Int32.toInt_inj, zero]
    decide
  · intro zero
    subst zero
    exact ⟨⟨0, 0⟩, by decide, by decide, by decide⟩

theorem threadfunc_iff {data : ThreadData} {run : ThreadRun} :
    threadfunc data = some run ↔ ∃ before holding,
      sleepMs data.waitToObtainMs = some before ∧ sleepMs data.waitToReleaseMs = some holding ∧
        run = ⟨[.nanosleep before, .lock data.mutex, .nanosleep holding, .unlock data.mutex],
          { data with threadCompleteSuccess := true }⟩ := by
  unfold threadfunc
  simp only [Option.bind_eq_some_iff, Option.map_eq_some_iff, eq_comm (a := run)]
  constructor
  · intro found
    obtain ⟨before, first, holding, second, same⟩ := found
    exact ⟨before, holding, first, second, same⟩
  · intro found
    obtain ⟨before, holding, first, second, same⟩ := found
    exact ⟨before, first, holding, second, same⟩

theorem start_data {allocated created flagFound : Bool} {thread mutex : Nat}
    {waitToObtainMs waitToReleaseMs : Int32} {data : ThreadData}
    (started : (startThreadObtainingMutex allocated created flagFound thread mutex waitToObtainMs
      waitToReleaseMs).started = some data) :
    data = ⟨waitToObtainMs, waitToReleaseMs, mutex, thread, flagFound⟩ := by
  unfold startThreadObtainingMutex at started
  split at started
  · cases started
  · simp only at started
    split at started
    · exact (Option.some.inj started).symm
    · cases started

/-- The started thread sleeps for the times it was given only if both are zero. -/
theorem thread_sleeps_as_asked_iff {allocated created flagFound : Bool} {thread mutex : Nat}
    {waitToObtainMs waitToReleaseMs : Int32} {data : ThreadData}
    (waits : 0 ≤ waitToObtainMs.toInt) (holds : 0 ≤ waitToReleaseMs.toInt)
    (started : (startThreadObtainingMutex allocated created flagFound thread mutex waitToObtainMs
      waitToReleaseMs).started = some data) :
    SleepsAsAsked waitToObtainMs waitToReleaseMs data ↔
      waitToObtainMs = 0 ∧ waitToReleaseMs = 0 := by
  obtain rfl := start_data started
  rw [← sleepsFor_iff waits, ← sleepsFor_iff holds]
  constructor
  · intro sleeps
    obtain ⟨before, holding, returned, run, first, second⟩ := sleeps
    obtain ⟨asked, askedHolding, one, two, same⟩ := threadfunc_iff.mp run
    simp only [ThreadRun.mk.injEq, List.cons.injEq, ThreadCall.nanosleep.injEq] at same
    obtain ⟨⟨rfl, _, rfl, _⟩, _⟩ := same
    exact ⟨⟨before, one, first⟩, ⟨holding, two, second⟩⟩
  · intro sleeps
    obtain ⟨⟨before, one, first⟩, ⟨holding, two, second⟩⟩ := sleeps
    exact ⟨before, holding, _, threadfunc_iff.mpr ⟨before, holding, one, two, rfl⟩, first, second⟩

theorem no_wait_is_no_wait :
    SleepsAsAsked 0 0 ⟨0, 0, 5, 6, false⟩ ↔ (0 : Int32) = 0 ∧ (0 : Int32) = 0 :=
  @thread_sleeps_as_asked_iff true true false 6 5 0 0 _ (by decide) (by decide) rfl

/-- One millisecond before the lock becomes a microsecond. -/
theorem one_millisecond_is_too_short :
    (startThreadObtainingMutex true true false 6 5 1 0).started = some ⟨1, 0, 5, 6, false⟩ ∧
      ¬ SleepsAsAsked 1 0 ⟨1, 0, 5, 6, false⟩ := by
  constructor
  · rfl
  · intro sleeps
    obtain ⟨before, holding, returned, run, first, _⟩ := sleeps
    obtain ⟨asked, _, one, _, same⟩ := threadfunc_iff.mp run
    simp only [ThreadRun.mk.injEq, List.cons.injEq, ThreadCall.nanosleep.injEq] at same
    rw [← same.1.1] at one
    obtain ⟨rfl, _⟩ := (sleepMs_iff (by decide)).mp one
    have total := first.total
    revert total
    decide

end ThreadSleep
