import Mathlib.Algebra.GroupWithZero.Nat
import Mathlib.Data.List.Basic

/-! Positions in a sequence of parts laid end to end. Empty parts are allowed and hold
    no position. -/
namespace ConcatenatedParts
variable {β : Type*}

/-- The part that holds a position, with the offset inside that part. -/
def locate : List Nat → Nat → Option (Nat × Nat)
  | [], _ => none
  | size :: rest, pos =>
      if pos < size then some (0, pos)
      else (locate rest (pos - size)).map fun found => (found.1 + 1, found.2)

theorem locate_isSome_iff (sizes : List Nat) (pos : Nat) :
    (locate sizes pos).isSome = true ↔ pos < sizes.sum := by
  induction sizes generalizing pos with
  | nil => simp [locate]
  | cons size rest ih =>
    simp only [locate, List.sum_cons]
    split
    · simp only [Option.isSome_some, true_iff]
      omega
    · rw [Option.isSome_map, ih]
      omega

theorem locate_spec {sizes : List Nat} {pos part off : Nat}
    (found : locate sizes pos = some (part, off)) :
    ∃ size, sizes[part]? = some size ∧ off < size ∧ (sizes.take part).sum + off = pos := by
  induction sizes generalizing pos part with
  | nil => simp [locate] at found
  | cons size rest ih =>
    simp only [locate] at found
    split at found
    · rename_i inside
      obtain ⟨rfl, rfl⟩ := Prod.mk.inj (Option.some.inj found)
      exact ⟨size, rfl, inside, by simp⟩
    · obtain ⟨⟨laterPart, laterOff⟩, later, same⟩ := Option.map_eq_some_iff.mp found
      obtain ⟨rfl, rfl⟩ := Prod.mk.inj same
      obtain ⟨partSize, at_, bound, total⟩ := ih later
      refine ⟨partSize, by simpa using at_, bound, ?_⟩
      simp only [List.take_succ_cons, List.sum_cons]
      omega

theorem locate_append {sizes : List Nat} {pos : Nat} {found : Nat × Nat}
    (here : locate sizes pos = some found) (more : List Nat) :
    locate (sizes ++ more) pos = some found := by
  induction sizes generalizing pos found with
  | nil => simp [locate] at here
  | cons size rest ih =>
    simp only [locate, List.cons_append] at here ⊢
    by_cases inside : pos < size
    · rwa [if_pos inside] at here ⊢
    · rw [if_neg inside] at here ⊢
      obtain ⟨later, at_, same⟩ := Option.map_eq_some_iff.mp here
      rw [ih at_, Option.map_some, same]

/-- Without its first parts a sequence has the same positions, counted from the first part left. -/
theorem locate_drop {sizes : List Nat} {pos part off : Nat}
    (here : locate sizes pos = some (part, off)) {gone : Nat} (kept : gone ≤ part) :
    locate (sizes.drop gone) (pos - (sizes.take gone).sum) = some (part - gone, off) := by
  induction gone generalizing sizes pos part with
  | zero => simpa using here
  | succ gone ih =>
    cases sizes with
    | nil => simp [locate] at here
    | cons size rest =>
      simp only [locate] at here
      split at here
      · obtain ⟨rfl, _⟩ := Prod.mk.inj (Option.some.inj here)
        omega
      · obtain ⟨⟨laterPart, laterOff⟩, later, same⟩ := Option.map_eq_some_iff.mp here
        obtain ⟨rfl, rfl⟩ := Prod.mk.inj same
        have moved := ih later (by omega)
        simp only [List.drop_succ_cons, List.take_succ_cons, List.sum_cons]
        rw [← Nat.sub_sub, moved, Nat.add_sub_add_right]

theorem locate_past_iff {sizes : List Nat} {pos part off : Nat}
    (here : locate sizes pos = some (part, off)) (gone : Nat) :
    (sizes.take gone).sum ≤ pos ↔ gone ≤ part := by
  induction gone generalizing sizes pos part with
  | zero => simp
  | succ gone ih =>
    cases sizes with
    | nil => simp [locate] at here
    | cons size rest =>
      simp only [locate] at here
      rw [List.take_succ_cons, List.sum_cons]
      split at here
      · obtain ⟨rfl, _⟩ := Prod.mk.inj (Option.some.inj here)
        omega
      · obtain ⟨⟨laterPart, laterOff⟩, later, same⟩ := Option.map_eq_some_iff.mp here
        obtain ⟨rfl, rfl⟩ := Prod.mk.inj same
        have earlier := ih later
        omega

theorem flatten_at {parts : List (List β)} {part off pos : Nat} {bytes : List β}
    (at_ : parts[part]? = some bytes) (bound : off < bytes.length)
    (total : ((parts.take part).map List.length).sum + off = pos) :
    parts.flatten[pos]? = bytes[off]? := by
  induction parts generalizing part pos with
  | nil => simp at at_
  | cons first rest ih =>
    cases part with
    | zero =>
      obtain rfl : first = bytes := by simpa using at_
      obtain rfl : off = pos := by simpa using total
      rw [List.flatten_cons, List.getElem?_append_left bound]
    | succ part =>
      simp only [List.take_succ_cons, List.map_cons, List.sum_cons] at total
      rw [List.flatten_cons, List.getElem?_append_right (by omega)]
      exact ih (by simpa using at_) (by omega)

end ConcatenatedParts
