import Mathlib.Data.List.Basic

/-! Memory as a function of the address, and what reading it as a terminated string does.
    A string has no length of its own: a reader goes on until it meets the terminator,
    wherever the allocation that it started in ends. -/
namespace TerminatedMemory
variable {α : Type*}

def laidOut (cells : List α) (following : Nat → α) (i : Nat) : α :=
  (cells[i]?).getD (following (i - cells.length))

def cellsAt (memory : Nat → α) (start count : Nat) : List α :=
  (List.range count).map fun k => memory (start + k)

/-- A reader that stops behind the first terminator from start on gets to cell i. -/
def ScanReads (stop : α) (memory : Nat → α) (start i : Nat) : Prop :=
  start ≤ i ∧ ∀ j, start ≤ j → j < i → memory j ≠ stop

/-- strnlen, from start on. -/
def boundedLength [DecidableEq α] (stop : α) (memory : Nat → α) : Nat → Nat → Nat
  | 0, _ => 0
  | limit + 1, start =>
      if memory start = stop then 0 else boundedLength stop memory limit (start + 1) + 1

theorem laidOut_inside {cells : List α} (following : Nat → α) {i : Nat} (inside : i < cells.length) :
    laidOut cells following i = cells[i] := by
  unfold laidOut
  rw [List.getElem?_eq_getElem inside, Option.getD_some]

theorem cellsAt_length (memory : Nat → α) (start count : Nat) :
    (cellsAt memory start count).length = count := by
  unfold cellsAt
  rw [List.length_map, List.length_range]

theorem cellsAt_succ (memory : Nat → α) (start count : Nat) :
    cellsAt memory start (count + 1) = memory start :: cellsAt memory (start + 1) count := by
  unfold cellsAt
  rw [List.range_succ_eq_map, List.map_cons, List.map_map, Nat.add_zero]
  congr 1
  apply List.map_congr_left
  intro k _
  simp only [Function.comp, Nat.succ_eq_add_one, Nat.add_assoc, Nat.add_comm 1]

theorem cellsAt_laidOut {cells : List α} (following : Nat → α) {start count : Nat}
    (inside : start + count ≤ cells.length) :
    cellsAt (laidOut cells following) start count = (cells.drop start).take count := by
  apply List.ext_getElem
  · rw [cellsAt_length, List.length_take, List.length_drop]
    omega
  · intro k left right
    rw [cellsAt_length] at left
    simp only [cellsAt, List.getElem_map, List.getElem_range, List.getElem_take, List.getElem_drop]
    exact laidOut_inside following (by omega)

/-- A scan stays below a bound only if it meets its terminator there. -/
theorem scan_below_iff {stop : α} {memory : Nat → α} {start bound : Nat} :
    (∀ i, ScanReads stop memory start i → i < bound) ↔
      ∃ j, start ≤ j ∧ j < bound ∧ memory j = stop := by
  constructor
  · intro below
    by_contra none
    have start_below := below start ⟨Nat.le_refl start, by intro j; omega⟩
    have bound_below := below bound ⟨by omega, by
      intro j from_start before stops
      exact none ⟨j, from_start, before, stops⟩⟩
    omega
  · rintro ⟨j, from_start, before, stops⟩ i ⟨_, runs⟩
    by_contra beyond
    exact runs j from_start (by omega) stops

theorem scan_inside_iff {stop : α} {cells : List α} {following : Nat → α} {start : Nat} :
    (∀ i, ScanReads stop (laidOut cells following) start i → i < cells.length) ↔
      stop ∈ cells.drop start := by
  rw [scan_below_iff]
  constructor
  · rintro ⟨j, from_start, inside, stops⟩
    rw [laidOut_inside following inside] at stops
    rw [List.mem_iff_getElem]
    refine ⟨j - start, by rw [List.length_drop]; omega, ?_⟩
    rw [List.getElem_drop, ← stops]
    congr 1
    omega
  · intro member
    obtain ⟨k, inside, stops⟩ := List.mem_iff_getElem.mp member
    rw [List.length_drop] at inside
    refine ⟨start + k, Nat.le_add_right start k, by omega, ?_⟩
    rw [List.getElem_drop] at stops
    rw [laidOut_inside following (by omega), stops]

theorem boundedLength_eq [DecidableEq α] {stop : α} {memory : Nat → α} {limit start len : Nat}
    (runs : ∀ k, k < len → memory (start + k) ≠ stop) (stops : memory (start + len) = stop)
    (short : len < limit) : boundedLength stop memory limit start = len := by
  induction limit generalizing start len with
  | zero => omega
  | succ limit ih =>
    rw [boundedLength]
    cases len with
    | zero =>
      rw [Nat.add_zero] at stops
      rw [if_pos stops]
    | succ len =>
      have here := runs 0 (Nat.succ_pos len)
      rw [Nat.add_zero] at here
      have later := @ih (start + 1) len
        (by
          intro k before
          rw [Nat.add_assoc, Nat.add_comm 1]
          exact runs (k + 1) (by omega))
        (by rwa [Nat.add_assoc, Nat.add_comm 1])
        (by omega)
      rw [if_neg here, later]

/-- The length of a string that stands in memory with its terminator. -/
theorem boundedLength_string [DecidableEq α] {stop : α} {text : List α} (following : Nat → α)
    (free : stop ∉ text) {limit : Nat} (short : text.length < limit) :
    boundedLength stop (laidOut (text ++ [stop]) following) limit 0 = text.length := by
  apply boundedLength_eq _ _ short
  · intro k before same
    rw [Nat.zero_add, laidOut_inside following (by simp; omega),
      List.getElem_append_left before] at same
    exact free (same ▸ List.getElem_mem before)
  · rw [Nat.zero_add, laidOut_inside following (by simp)]
    simp

end TerminatedMemory
