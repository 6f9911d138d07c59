import Mathlib.Data.List.Induction
import Aesd.WriteAll

/-! The whole of write_all: what it has handed over at any moment, when it returns, and
    what the return code says about the bytes. -/
namespace WriteAll

def acceptedSoFar : List Int → WriteLoop → List UInt8
  | [], _ => []
  | offer :: later, loop =>
      if loop.rest = [] then []
      else match loop.afterWrite offer with
        | none => []
        | some next => loop.accepted offer ++ acceptedSoFar later next

theorem acceptedSoFar_front (schedule : List Int) (loop : WriteLoop) :
    acceptedSoFar schedule loop <+: loop.rest := by
  induction schedule generalizing loop with
  | nil => exact List.nil_prefix
  | cons offer later ih =>
    rw [acceptedSoFar]
    split
    · exact List.nil_prefix
    · cases after : loop.afterWrite offer with
      | none => exact List.nil_prefix
      | some next =>
        rw [← accepted_rest after]
        exact (List.prefix_append_right_inj _).mpr (ih next)

theorem writeAllLoop_accepted {schedule : List Int} {loop : WriteLoop} {ret : WriteReturn}
    (run : writeAllLoop schedule loop = some ret) : ret.accepted = acceptedSoFar schedule loop := by
  induction schedule generalizing loop ret with
  | nil =>
    simp only [writeAllLoop] at run
    split at run
    · obtain rfl := Option.some.inj run
      rfl
    · simp at run
  | cons offer later ih =>
    rw [writeAllLoop] at run
    rw [acceptedSoFar]
    split at run
    · rename_i done
      obtain rfl := Option.some.inj run
      rw [if_pos done]
    · rename_i more
      rw [if_neg more]
      cases after : loop.afterWrite offer with
      | none =>
        simp only [after, Option.some.injEq] at run
        rw [← run]
      | some next =>
        simp only [after, Option.map_eq_some_iff] at run
        obtain ⟨tail, tailRun, rfl⟩ := run
        simp only [ih tailRun]

/-- Every call either hands over a byte or uses up one of the failures left. -/
theorem writeAllLoop_returns {schedule : List Int} {buf : List UInt8} {fails : Nat}
    (few : fails ≤ maxFailCount)
    (enough : buf.length + (maxFailCount + 1 - fails) ≤ schedule.length) :
    ∃ ret, writeAllLoop schedule ⟨buf, fails⟩ = some ret := by
  induction schedule generalizing buf fails with
  | nil =>
    simp only [List.length_nil] at enough
    omega
  | cons offer later ih =>
    simp only [List.length_cons] at enough
    rw [writeAllLoop]
    split
    · exact ⟨_, rfl⟩
    · rename_i more
      have positive : 0 < buf.length := List.length_pos_iff.mpr more
      by_cases failing : offer ≤ 0
      · rw [afterWrite_fail failing]
        by_cases last : maxFailCount < fails + 1
        · exact ⟨_, by simp only [last, ↓reduceIte]; rfl⟩
        · obtain ⟨ret, run⟩ := @ih buf (fails + 1) (by omega) (by omega)
          simp only [last, ↓reduceIte, run]
          exact ⟨_, rfl⟩
      · rw [afterWrite_gain (by omega) more]
        obtain ⟨ret, run⟩ := @ih (buf.drop offer.toNat) fails few (by
          rw [List.length_drop]
          omega)
        simp only [run]
        exact ⟨_, rfl⟩

theorem length_le (offers : List Int) : offers.length ≤ failures offers + gained offers := by
  induction offers with
  | nil => exact Nat.zero_le _
  | cons offer later ih =>
    rw [failures_cons, gained_cons, List.length_cons]
    split <;> omega

theorem completes_length {len : Nat} {used : List Int} (completes : Completes len 0 used) :
    used.length ≤ len + maxFailCount := by
  cases used using List.reverseRecOn with
  | nil => exact Nat.zero_le _
  | append_singleton front last =>
    have short := completes.minimal front [last] rfl (by simp)
    have few := completes.few
    have bound := length_le front
    rw [failures_append] at few
    rw [List.length_append, List.length_singleton]
    omega

/-- Giving up takes exactly one failing result more than are tolerated. -/
theorem givesUp_failures {len : Nat} {used : List Int} (givesUp : GivesUp len 0 used) :
    failures used = maxFailCount + 1 := by
  have many := givesUp.many
  cases used using List.reverseRecOn with
  | nil => simp at many
  | append_singleton front last =>
    have few := givesUp.minimal front [last] rfl (by simp)
    rw [failures_append, failures_cons, failures_nil] at many ⊢
    split at many <;> split <;> omega

theorem givesUp_length {len : Nat} {used : List Int} (givesUp : GivesUp len 0 used) :
    used.length ≤ len + maxFailCount := by
  have short := givesUp.short
  have bound := length_le used
  rw [givesUp_failures givesUp] at bound
  omega

def LastByteInTime (len : Nat) (schedule : List Int) : Prop :=
  ∃ upTo, upTo <+: schedule ∧ len ≤ gained upTo ∧ failures upTo < maxFailCount + 1

theorem not_inTime_of_givesUp {len : Nat} {used unused : List Int} (givesUp : GivesUp len 0 used) :
    ¬ LastByteInTime len (used ++ unused) := by
  rintro ⟨upTo, ⟨rest, split⟩, all, few⟩
  have many := givesUp.many
  have short := givesUp.short
  rcases two_prefixes split with ⟨more, rfl⟩ | ⟨more, rfl⟩
  · rw [gained_append] at short
    omega
  · rw [failures_append] at few
    omega

/-- Whatever write answers, write_all hands over a prefix of the buffer, comes to an end
    after at most one call a byte and one a failure, and tells by its code whether all
    bytes went through. -/
theorem write_all_is_exact (buf : List UInt8) (schedule : List Int) :
    acceptedSoFar schedule ⟨buf, 0⟩ <+: buf ∧
    (buf.length + (maxFailCount + 1) ≤ schedule.length →
      ∃ ret, writeAll buf schedule = some ret) ∧
    ∀ ret, writeAll buf schedule = some ret →
      ret.accepted = acceptedSoFar schedule ⟨buf, 0⟩ ∧
      (ret.code = 0 ↔ ret.accepted = buf) ∧
      (ret.code = 0 ↔ LastByteInTime buf.length schedule) ∧
      ∃ used, schedule = used ++ ret.unused ∧ used.length ≤ buf.length + (maxFailCount + 1) ∧
        (ret.code ≠ 0 → ret.code = -1 ∧ failures used = maxFailCount + 1) := by
  refine ⟨acceptedSoFar_front schedule ⟨buf, 0⟩, writeAllLoop_returns (Nat.zero_le _), ?_⟩
  intro ret run
  refine ⟨writeAllLoop_accepted run, ?_⟩
  cases writeAll_outcome run with
  | whole used code bytes split completes =>
    have inTime : LastByteInTime buf.length schedule :=
      ⟨used, ⟨ret.unused, split.symm⟩, completes.all, by have := completes.few; omega⟩
    have calls := completes_length completes
    exact ⟨by simp [code, bytes], by simp [code, inTime], used, split, by omega,
      fun other => absurd code other⟩
  | partway used code bytes split givesUp =>
    have short : ret.accepted ≠ buf := by
      intro same
      have size := congrArg List.length (bytes.symm.trans same)
      have := givesUp.short
      rw [List.length_take] at size
      omega
    have late := @not_inTime_of_givesUp _ used ret.unused givesUp
    rw [← split] at late
    have calls := givesUp_length givesUp
    exact ⟨by simp [code, short], by simp [code, late], used, split, by omega,
      fun _ => ⟨code, givesUp_failures givesUp⟩⟩

end WriteAll
