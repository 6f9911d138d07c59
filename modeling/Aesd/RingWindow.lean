import Mathlib.Data.List.Basic
import Mathlib.Data.List.Induction
import Mathlib.Data.List.Rotate

/-! A ring of slots that keeps the newest part of an unbounded history. Element i of
    the history lives in slot i modulo the capacity, until a later write reuses it. -/
namespace RingWindow
variable {α : Type*}

def lastN (count : Nat) (history : List α) : List α :=
  history.drop (history.length - count)

def readFrom (slots : List α) (start count : Nat) : List α :=
  (List.range count).filterMap fun k => slots[(start + k) % slots.length]?

/-- Every element that is among the newest slots.length ones is still in its slot. -/
def Holds (slots history : List α) : Prop :=
  ∀ i, i < history.length → history.length ≤ i + slots.length →
    slots[i % slots.length]? = history[i]?

theorem lastN_length (count : Nat) (history : List α) :
    (lastN count history).length = min history.length count := by
  simp only [lastN, List.length_drop]
  omega

theorem lastN_getElem? (count : Nat) (history : List α) (k : Nat) :
    (lastN count history)[k]? = history[history.length - count + k]? := by
  simp [lastN]

theorem holds_empty (slots : List α) : Holds slots [] := by
  intro i inside
  simp at inside

theorem holds_write {slots history : List α} {x : α} (room : 0 < slots.length)
    (held : Holds slots history) :
    Holds (slots.set (history.length % slots.length) x) (history ++ [x]) := by
  intro i inside recent
  simp only [List.length_append, List.length_singleton, List.length_set] at inside recent ⊢
  rw [List.getElem?_set]
  by_cases newest : i = history.length
  · subst i
    simp [Nat.mod_lt _ room]
  · have older : i < history.length := by omega
    have elsewhere : history.length % slots.length ≠ i % slots.length := by
      intro same
      have gap : (history.length - i) % slots.length = 0 := Nat.sub_mod_eq_zero_of_mod_eq same
      rw [Nat.mod_eq_of_lt (by omega)] at gap
      omega
    rw [if_neg elsewhere, List.getElem?_append_left older]
    exact held i older (by omega)

theorem lookup_range (xs : List α) : (List.range xs.length).filterMap (xs[·]?) = xs := by
  induction xs using List.reverseRecOn with
  | nil => rfl
  | append_singleton xs x ih =>
    rw [List.length_append, List.length_singleton, List.range_succ, List.filterMap_append]
    have older : (List.range xs.length).filterMap ((xs ++ [x])[·]?) =
        (List.range xs.length).filterMap (xs[·]?) := by
      apply List.filterMap_congr
      intro k member
      exact List.getElem?_append_left (List.mem_range.mp member)
    rw [older, ih]
    simp

theorem readFrom_succ {slots : List α} {start count : Nat} {x : α}
    (next : slots[(start + count) % slots.length]? = some x) :
    readFrom slots start (count + 1) = readFrom slots start count ++ [x] := by
  rw [readFrom, List.range_succ, List.filterMap_append, readFrom]
  simp [next]

theorem ring_slot {slots : List α} (room : 0 < slots.length) (i : Nat) :
    ∃ x, slots[i % slots.length]? = some x :=
  ⟨_, List.getElem?_eq_getElem (Nat.mod_lt i room)⟩

theorem readFrom_length {slots : List α} (room : 0 < slots.length) (start count : Nat) :
    (readFrom slots start count).length = count := by
  induction count with
  | zero => rfl
  | succ count ih =>
    obtain ⟨x, next⟩ := ring_slot room (start + count)
    rw [readFrom_succ next, List.length_append, ih, List.length_singleton]

theorem readFrom_getElem? {slots : List α} (room : 0 < slots.length) (start : Nat) {k count : Nat}
    (within : k < count) :
    (readFrom slots start count)[k]? = slots[(start + k) % slots.length]? := by
  induction count with
  | zero => omega
  | succ count ih =>
    have size := readFrom_length room start count
    obtain ⟨x, next⟩ := ring_slot room (start + count)
    rw [readFrom_succ next]
    by_cases earlier : k < count
    · rw [List.getElem?_append_left (by omega), ih earlier]
    · obtain rfl : k = count := by omega
      rw [List.getElem?_append_right (by omega), size, Nat.sub_self, List.getElem?_cons_zero, next]

/-- Reading the ring from the oldest live slot on gives the newest part of the history. -/
theorem readFrom_window {slots history : List α} {start : Nat} (held : Holds slots history)
    (oldest : start % slots.length = (history.length - slots.length) % slots.length) :
    readFrom slots start (min history.length slots.length) = lastN slots.length history := by
  have pointwise : ∀ k ∈ List.range (lastN slots.length history).length,
      slots[(start + k) % slots.length]? = (lastN slots.length history)[k]? := by
    intro k member
    have bound := List.mem_range.mp member
    rw [lastN_length] at bound
    rw [lastN_getElem?, ← held (history.length - slots.length + k) (by omega) (by omega),
      Nat.add_mod, oldest, ← Nat.add_mod]
  rw [readFrom, ← lastN_length, List.filterMap_congr pointwise, lookup_range]

end RingWindow
