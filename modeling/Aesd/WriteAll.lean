import Mathlib.Algebra.GroupWithZero.Nat
import Mathlib.Data.List.Basic
import Mathlib.Data.List.TakeWhile

/-! write_all against any schedule of results of write. A schedule is a list of offers:
    a call for m bytes returns the offer, or m when the offer is more than that, so every
    list is possible and every sequence of results is one of them. -/
namespace WriteAll

/-- The bytes buf still points at, bytes_left being their number, and fail_count. -/
structure WriteLoop where
  rest : List UInt8
  failCount : Nat
  deriving DecidableEq, Repr

abbrev maxFailCount : Nat := 20

def writeReturns (offer : Int) (requested : Nat) : Int := min offer requested

def WriteLoop.accepted (loop : WriteLoop) (offer : Int) : List UInt8 :=
  loop.rest.take (writeReturns offer loop.rest.length).toNat

/-- The loop body after write, none being the return of -1. -/
def WriteLoop.afterWrite (loop : WriteLoop) (offer : Int) : Option WriteLoop :=
  let bytesWritten := writeReturns offer loop.rest.length
  if bytesWritten ≤ 0 then
    if maxFailCount < loop.failCount + 1 then none
    else some ⟨loop.rest, loop.failCount + 1⟩
  else some ⟨loop.rest.drop bytesWritten.toNat, loop.failCount⟩

structure WriteReturn where
  code : Int
  accepted : List UInt8
  unused : List Int
  deriving DecidableEq, Repr

/-- none while the schedule has no result for the next call. -/
def writeAllLoop : List Int → WriteLoop → Option WriteReturn
  | [], loop => if loop.rest = [] then some ⟨0, [], []⟩ else none
  | offer :: later, loop =>
      if loop.rest = [] then some ⟨0, [], offer :: later⟩
      else match loop.afterWrite offer with
        | none => some ⟨-1, [], later⟩
        | some next => (writeAllLoop later next).map fun ret =>
            ⟨ret.code, loop.accepted offer ++ ret.accepted, ret.unused⟩

def writeAll (buf : List UInt8) (schedule : List Int) : Option WriteReturn :=
  writeAllLoop schedule ⟨buf, 0⟩

/-- The number of failing results, and of bytes offered by the others. -/
def failures (offers : List Int) : Nat := (offers.filter (· ≤ 0)).length
def gained (offers : List Int) : Nat := (offers.map Int.toNat).sum

/-- The offers under which a buffer of len bytes goes through, no shorter prefix doing. -/
structure Completes (len fails : Nat) (offers : List Int) : Prop where
  few : fails + failures offers ≤ maxFailCount
  all : len ≤ gained offers
  minimal : ∀ front back, offers = front ++ back → back ≠ [] → gained front < len

structure GivesUp (len fails : Nat) (offers : List Int) : Prop where
  many : maxFailCount < fails + failures offers
  short : gained offers < len
  minimal : ∀ front back, offers = front ++ back → back ≠ [] →
    fails + failures front ≤ maxFailCount

@[simp] theorem failures_nil : failures [] = 0 := rfl
@[simp] theorem gained_nil : gained [] = 0 := rfl

theorem failures_append (front back : List Int) :
    failures (front ++ back) = failures front + failures back := by
  simp [failures]

theorem gained_append (front back : List Int) :
    gained (front ++ back) = gained front + gained back := by
  simp [gained]

theorem failures_cons (offer : Int) (later : List Int) :
    failures (offer :: later) = (if offer ≤ 0 then 1 else 0) + failures later := by
  simp only [failures, List.filter_cons, decide_eq_true_eq]
  split <;> simp [Nat.add_comm]

theorem gained_cons (offer : Int) (later : List Int) :
    gained (offer :: later) = offer.toNat + gained later := by
  simp [gained]

theorem afterWrite_fail {loop : WriteLoop} {offer : Int} (fails : offer ≤ 0) :
    loop.afterWrite offer =
      if maxFailCount < loop.failCount + 1 then none else some ⟨loop.rest, loop.failCount + 1⟩ := by
  have low : writeReturns offer loop.rest.length ≤ 0 := by
    simp only [writeReturns]
    omega
  simp only [WriteLoop.afterWrite, low, ↓reduceIte]

theorem afterWrite_gain {loop : WriteLoop} {offer : Int} (gains : 0 < offer)
    (more : loop.rest ≠ []) :
    loop.afterWrite offer = some ⟨loop.rest.drop offer.toNat, loop.failCount⟩ := by
  have positive := List.length_pos_iff.mpr more
  have high : ¬ writeReturns offer loop.rest.length ≤ 0 := by
    simp only [writeReturns]
    omega
  simp only [WriteLoop.afterWrite, high, ↓reduceIte, Option.some.injEq, WriteLoop.mk.injEq, and_true]
  by_cases within : offer ≤ loop.rest.length
  · rw [writeReturns, Int.min_eq_left within]
  · rw [writeReturns, Int.min_eq_right (by omega), Int.toNat_natCast, List.drop_length,
      List.drop_eq_nil_of_le (by omega)]

theorem accepted_fail {loop : WriteLoop} {offer : Int} (fails : offer ≤ 0) :
    loop.accepted offer = [] := by
  have low : writeReturns offer loop.rest.length ≤ 0 := by
    simp only [writeReturns]
    omega
  rw [WriteLoop.accepted, Int.toNat_of_nonpos low, List.take_zero]

theorem accepted_gain {loop : WriteLoop} {offer : Int} (gains : 0 < offer) :
    loop.accepted offer = loop.rest.take offer.toNat := by
  by_cases within : offer ≤ loop.rest.length
  · rw [WriteLoop.accepted, writeReturns, Int.min_eq_left within]
  · rw [WriteLoop.accepted, writeReturns, Int.min_eq_right (by omega), Int.toNat_natCast,
      List.take_length, List.take_of_length_le (by omega)]

theorem accepted_rest {loop next : WriteLoop} {offer : Int}
    (after : loop.afterWrite offer = some next) : loop.accepted offer ++ next.rest = loop.rest := by
  simp only [WriteLoop.afterWrite] at after
  by_cases low : writeReturns offer loop.rest.length ≤ 0
  · rw [if_pos low] at after
    split at after
    · simp at after
    · obtain rfl := Option.some.inj after
      rw [WriteLoop.accepted, Int.toNat_of_nonpos low, List.take_zero, List.nil_append]
  · rw [if_neg low] at after
    obtain rfl := Option.some.inj after
    exact List.take_append_drop _ _

theorem completes_nil (fails : Nat) (few : fails ≤ maxFailCount) : Completes 0 fails [] where
  few := by simpa using few
  all := Nat.le_refl _
  minimal := by
    intro front back eq more
    exact absurd (List.append_eq_nil_iff.mp eq.symm).2 more

theorem completes_cons {len fails : Nat} {offer : Int} {later : List Int} (positive : 0 < len)
    (tail : Completes (len - offer.toNat) (fails + if offer ≤ 0 then 1 else 0) later) :
    Completes len fails (offer :: later) where
  few := by
    have := tail.few
    rw [failures_cons]
    omega
  all := by
    have := tail.all
    rw [gained_cons]
    omega
  minimal := by
    intro front back eq more
    cases front with
    | nil => simpa using positive
    | cons first front =>
      obtain ⟨rfl, rfl⟩ := List.cons.inj eq
      have := tail.minimal front back rfl more
      rw [gained_cons]
      omega

theorem givesUp_last {len fails : Nat} {offer : Int} (positive : 0 < len) (failing : offer ≤ 0)
    (few : fails ≤ maxFailCount) (last : maxFailCount < fails + 1) : GivesUp len fails [offer] where
  many := by simpa [failures_cons, failing] using last
  short := by
    rw [gained_cons, Int.toNat_of_nonpos failing]
    simpa using positive
  minimal := by
    intro front back eq more
    cases front with
    | nil => simpa using few
    | cons first front =>
      obtain ⟨_, rest⟩ := List.cons.inj eq
      exact absurd (List.append_eq_nil_iff.mp rest.symm).2 more

theorem givesUp_cons {len fails : Nat} {offer : Int} {later : List Int} (few : fails ≤ maxFailCount)
    (tail : GivesUp (len - offer.toNat) (fails + if offer ≤ 0 then 1 else 0) later) :
    GivesUp len fails (offer :: later) where
  many := by
    have := tail.many
    rw [failures_cons]
    omega
  short := by
    have := tail.short
    rw [gained_cons]
    omega
  minimal := by
    intro front back eq more
    cases front with
    | nil => simpa using few
    | cons first front =>
      obtain ⟨rfl, rfl⟩ := List.cons.inj eq
      have := tail.minimal front back rfl more
      rw [failures_cons]
      omega

theorem givesUp_tail {len fails : Nat} {offer : Int} {later : List Int}
    (givesUp : GivesUp len fails (offer :: later)) :
    GivesUp (len - offer.toNat) (fails + if offer ≤ 0 then 1 else 0) later where
  many := by
    have := givesUp.many
    rw [failures_cons] at this
    omega
  short := by
    have := givesUp.short
    rw [gained_cons] at this
    omega
  minimal := by
    intro front back eq more
    have := givesUp.minimal (offer :: front) back (by rw [eq, List.cons_append]) more
    rw [failures_cons] at this
    omega

inductive Outcome (buf : List UInt8) (fails : Nat) (schedule : List Int) (ret : WriteReturn) : Prop where
  | whole (used : List Int) (code : ret.code = 0) (bytes : ret.accepted = buf)
      (split : schedule = used ++ ret.unused) (completes : Completes buf.length fails used)
  | partway (used : List Int) (code : ret.code = -1)
      (bytes : ret.accepted = buf.take (gained used))
      (split : schedule = used ++ ret.unused) (givesUp : GivesUp buf.length fails used)

theorem writeAllLoop_outcome {schedule : List Int} {buf : List UInt8} {fails : Nat}
    {ret : WriteReturn} (few : fails ≤ maxFailCount)
    (run : writeAllLoop schedule ⟨buf, fails⟩ = some ret) : Outcome buf fails schedule ret := by
  induction schedule generalizing buf fails ret with
  | nil =>
    simp only [writeAllLoop] at run
    split at run
    · rename_i done
      obtain rfl := Option.some.inj run
      subst done
      exact .whole [] rfl rfl rfl (completes_nil fails few)
    · simp at run
  | cons offer later ih =>
    simp only [writeAllLoop] at run
    split at run
    · rename_i done
      obtain rfl := Option.some.inj run
      subst done
      exact .whole [] rfl rfl rfl (completes_nil fails few)
    · rename_i more
      have positive := List.length_pos_iff.mpr more
      by_cases failing : offer ≤ 0
      · have nothing : offer.toNat = 0 := Int.toNat_of_nonpos failing
        rw [afterWrite_fail failing, accepted_fail failing] at run
        by_cases last : maxFailCount < fails + 1
        · simp only [last, ↓reduceIte, Option.some.injEq] at run
          subst run
          refine .partway [offer] rfl ?_ rfl (givesUp_last positive failing few last)
          simp [gained_cons, nothing]
        · simp only [last, ↓reduceIte, Option.map_eq_some_iff] at run
          obtain ⟨tail, tailRun, rfl⟩ := run
          cases ih (by omega) tailRun with
          | whole used code bytes split completes =>
            refine .whole (offer :: used) code bytes (by rw [split]; rfl)
              (completes_cons positive ?_)
            simpa [failing, nothing] using completes
          | partway used code bytes split givesUp =>
            refine .partway (offer :: used) code ?_ (by rw [split]; rfl) (givesUp_cons few ?_)
            · simpa [gained_cons, nothing] using bytes
            · simpa [failing, nothing] using givesUp
      · have gains : 0 < offer := by omega
        rw [afterWrite_gain gains more, accepted_gain gains] at run
        obtain ⟨tail, tailRun, rfl⟩ := Option.map_eq_some_iff.mp run
        cases ih few tailRun with
        | whole used code bytes split completes =>
          refine .whole (offer :: used) code ?_ (by rw [split]; rfl) (completes_cons positive ?_)
          · simp [bytes]
          · simpa [failing] using completes
        | partway used code bytes split givesUp =>
          refine .partway (offer :: used) code ?_ (by rw [split]; rfl) (givesUp_cons few ?_)
          · simp only [bytes, gained_cons, List.take_add]
          · simpa [failing] using givesUp

theorem writeAll_outcome {buf : List UInt8} {schedule : List Int} {ret : WriteReturn}
    (run : writeAll buf schedule = some ret) : Outcome buf 0 schedule ret :=
  writeAllLoop_outcome (Nat.zero_le _) run

theorem two_prefixes {first second restOne restTwo : List Int}
    (eq : first ++ restOne = second ++ restTwo) :
    (∃ more, second = first ++ more) ∨ ∃ more, first = second ++ more := by
  rcases List.append_eq_append_iff.mp eq with ⟨more, split, _⟩ | ⟨more, split, _⟩
  · exact Or.inl ⟨more, split⟩
  · exact Or.inr ⟨more, split⟩

/-- A schedule either lets a buffer through or makes write_all give up, not both. -/
theorem completes_not_givesUp {len fails : Nat} {first second restOne restTwo : List Int}
    (eq : first ++ restOne = second ++ restTwo) (completes : Completes len fails first)
    (givesUp : GivesUp len fails second) : False := by
  have few := completes.few
  have all := completes.all
  have many := givesUp.many
  have short := givesUp.short
  rcases two_prefixes eq with ⟨more, rfl⟩ | ⟨more, rfl⟩
  · rw [gained_append] at short
    omega
  · rw [failures_append] at few
    omega

theorem completes_unique {len fails : Nat} {first second restOne restTwo : List Int}
    (eq : first ++ restOne = second ++ restTwo) (one : Completes len fails first)
    (two : Completes len fails second) : first = second ∧ restOne = restTwo := by
  have same : first = second := by
    rcases two_prefixes eq with ⟨more, rfl⟩ | ⟨more, rfl⟩
    · by_contra differs
      have short := two.minimal first more rfl (by rintro rfl; simp at differs)
      have := one.all
      omega
    · by_contra differs
      have short := one.minimal second more rfl (by rintro rfl; simp at differs)
      have := two.all
      omega
  subst same
  exact ⟨rfl, List.append_cancel_left eq⟩

theorem givesUp_unique {len fails : Nat} {first second restOne restTwo : List Int}
    (eq : first ++ restOne = second ++ restTwo) (one : GivesUp len fails first)
    (two : GivesUp len fails second) : first = second ∧ restOne = restTwo := by
  have same : first = second := by
    rcases two_prefixes eq with ⟨more, rfl⟩ | ⟨more, rfl⟩
    · by_contra differs
      have few := two.minimal first more rfl (by rintro rfl; simp at differs)
      have := one.many
      omega
    · by_contra differs
      have few := one.minimal second more rfl (by rintro rfl; simp at differs)
      have := two.many
      omega
  subst same
  exact ⟨rfl, List.append_cancel_left eq⟩

end WriteAll
