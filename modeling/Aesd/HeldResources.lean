import Mathlib.Data.List.Perm.Basic

/-! Resources with names that are given out again after their release. used lists what is
    in use by the books of whoever gives them out, held what its users think they hold. -/
namespace HeldResources
variable {α : Type*}

/-- Each name in use is held by exactly one user, and no user holds anything else. -/
structure Accounted (used held : List α) : Prop where
  apart : held.Nodup
  same : ∀ x, x ∈ used ↔ x ∈ held

variable {used held later : List α} {x : α}

theorem accounted_passed (accounted : Accounted used held) (perm : held.Perm later) :
    Accounted used later where
  apart := perm.nodup accounted.apart
  same y := (accounted.same y).trans perm.mem_iff

theorem accounted_obtained (accounted : Accounted used held) (fresh : x ∉ used)
    (perm : later.Perm (x :: held)) : Accounted (x :: used) later where
  apart := by
    apply perm.symm.nodup
    apply List.nodup_cons.mpr
    constructor
    · exact fun member => fresh ((accounted.same x).mpr member)
    · exact accounted.apart
  same y := by
    rw [perm.mem_iff, List.mem_cons, List.mem_cons, accounted.same y]

variable [DecidableEq α]

theorem accounted_released (accounted : Accounted used held) (perm : held.Perm (x :: later)) :
    Accounted (used.filter (· ≠ x)) later := by
  obtain ⟨gone, apart⟩ := List.nodup_cons.mp (perm.nodup accounted.apart)
  constructor
  · exact apart
  · intro y
    rw [List.mem_filter, decide_eq_true_eq, accounted.same y, perm.mem_iff, List.mem_cons]
    constructor
    · intro kept
      exact kept.1.resolve_left kept.2
    · intro member
      constructor
      · exact Or.inr member
      · rintro rfl
        exact gone member

/-- A release of a name that nobody holds, such as a second one, does no harm. -/
theorem accounted_foreign (accounted : Accounted used held) (foreign : x ∉ held) :
    Accounted (used.filter (· ≠ x)) held := by
  constructor
  · exact accounted.apart
  · intro y
    rw [List.mem_filter, decide_eq_true_eq, accounted.same y]
    constructor
    · exact And.left
    · intro member
      constructor
      · exact member
      · rintro rfl
        exact foreign member

end HeldResources
