import Mathlib.Algebra.GroupWithZero.Nat
import Mathlib.Data.List.Basic

/-! Separator-terminated segments of a list, and the unterminated rest after the last
    separator. Every fact about a list of segments is proved along its segments. -/
namespace SeparatedSegments
variable {α : Type*} {sep : α}

def terminatedLength (lines : List (List α)) : Nat := (lines.map fun line => line.length + 1).sum

@[simp] theorem terminatedLength_nil : terminatedLength ([] : List (List α)) = 0 := rfl

@[simp] theorem terminatedLength_cons (line : List α) (later : List (List α)) :
    terminatedLength (line :: later) = line.length + 1 + terminatedLength later := by
  simp [terminatedLength]

theorem not_mem_drop {xs : List α} {front back : List α} {count : Nat} (eq : xs = front ++ back)
    (skips : front.length ≤ count) (free : sep ∉ back) : sep ∉ xs.drop count := by
  subst eq
  rw [List.drop_append, List.drop_eq_nil_of_le skips, List.nil_append]
  exact fun member => free (List.mem_of_mem_drop member)

theorem mem_drop {xs front back : List α} {count : Nat} (eq : xs = front ++ sep :: back)
    (keeps : count ≤ front.length) : sep ∈ xs.drop count := by
  subst eq
  rw [List.drop_append_of_le_length keeps]
  exact List.mem_append_right _ List.mem_cons_self

variable [DecidableEq α]
variable (sep)

/-- The segments that end in a separator, in order and without it. -/
def segments : List α → List (List α)
  | [] => []
  | a :: rest =>
      if a = sep then [] :: segments rest
      else match segments rest with
        | [] => []
        | first :: later => (a :: first) :: later

def remainder : List α → List α
  | [] => []
  | a :: rest => if sep ∈ a :: rest then remainder rest else a :: rest

variable {sep}

theorem segments_free {xs : List α} (free : sep ∉ xs) : segments sep xs = [] := by
  induction xs with
  | nil => rfl
  | cons a rest ih =>
    have head : a ≠ sep := by
      intro same
      exact free (by simp [same])
    simp [segments, head, ih (fun member => free (List.mem_cons_of_mem a member))]

theorem remainder_free {xs : List α} (free : sep ∉ xs) : remainder sep xs = xs := by
  cases xs with
  | nil => rfl
  | cons a rest => rw [remainder, if_neg free]

theorem segments_line {line rest : List α} (free : sep ∉ line) :
    segments sep (line ++ sep :: rest) = line :: segments sep rest := by
  induction line with
  | nil => simp [segments]
  | cons a line ih =>
    have head : a ≠ sep := by
      intro same
      exact free (by simp [same])
    have tail := ih (fun member => free (List.mem_cons_of_mem a member))
    simp [segments, head, tail]

theorem remainder_line (line rest : List α) :
    remainder sep (line ++ sep :: rest) = remainder sep rest := by
  induction line with
  | nil => simp [remainder]
  | cons a line ih => simp [remainder, ih]

/-- A list is free of separators, or starts with a segment. Structural recursion over
    the remaining segments. -/
@[elab_as_elim]
theorem line_induction (sep : α) {motive : List α → Prop}
    (free : ∀ xs, sep ∉ xs → motive xs)
    (line : ∀ line rest, sep ∉ line → motive rest → motive (line ++ sep :: rest))
    (xs : List α) : motive xs := by
  induction size : xs.length using Nat.strongRecOn generalizing xs with
  | ind n ih =>
    by_cases member : sep ∈ xs
    · obtain ⟨first, rest, rfl, absent⟩ := List.eq_append_cons_of_mem member
      refine line first rest absent (ih rest.length ?_ rest rfl)
      simp only [List.length_append, List.length_cons] at size
      omega
    · exact free xs member

theorem segments_eq_nil_iff (xs : List α) : segments sep xs = [] ↔ sep ∉ xs := by
  induction xs using line_induction sep with
  | free xs free => simp [segments_free free, free]
  | line line rest free ih => simp [segments_line free]

theorem remainder_not_mem (xs : List α) : sep ∉ remainder sep xs := by
  induction xs using line_induction sep with
  | free xs free => rwa [remainder_free free]
  | line line rest free ih => rwa [remainder_line]

theorem segments_append (xs ys : List α) :
    segments sep (xs ++ ys) = segments sep xs ++ segments sep (remainder sep xs ++ ys) := by
  induction xs using line_induction sep with
  | free xs free => simp [segments_free free, remainder_free free]
  | line line rest free ih =>
    rw [List.append_assoc, List.cons_append, segments_line free, segments_line free,
      remainder_line, ih, List.cons_append]

theorem remainder_append (xs ys : List α) :
    remainder sep (xs ++ ys) = remainder sep (remainder sep xs ++ ys) := by
  induction xs using line_induction sep with
  | free xs free => rw [remainder_free free]
  | line line rest free ih =>
    rw [List.append_assoc, List.cons_append, remainder_line, remainder_line, ih]

/-- Lines that are written one after the other are read back. -/
theorem segments_lines {lines : List (List α)} (free : ∀ line ∈ lines, sep ∉ line) :
    segments sep (lines.flatMap fun line => line ++ [sep]) = lines ∧
      remainder sep (lines.flatMap fun line => line ++ [sep]) = [] := by
  induction lines with
  | nil => exact ⟨rfl, rfl⟩
  | cons line later ih =>
    obtain ⟨here, others⟩ := List.forall_mem_cons.mp free
    obtain ⟨read, rest⟩ := ih others
    rw [List.flatMap_cons, List.append_assoc, List.singleton_append]
    exact ⟨by rw [segments_line here, read], by rw [remainder_line, rest]⟩

theorem last_separator {xs : List α} (some_line : segments sep xs ≠ []) :
    ∃ before, xs = before ++ sep :: remainder sep xs ∧
      before.length + 1 = terminatedLength (segments sep xs) := by
  induction xs using line_induction sep with
  | free xs free => exact absurd (segments_free free) some_line
  | line line rest free ih =>
    rw [segments_line free, remainder_line, terminatedLength_cons]
    by_cases last : segments sep rest = []
    · have absent := (segments_eq_nil_iff rest).mp last
      exact ⟨line, by rw [remainder_free absent], by simp [last]⟩
    · obtain ⟨before, eq, size⟩ := ih last
      refine ⟨line ++ sep :: before, ?_, ?_⟩
      · rw [List.append_assoc, List.cons_append, ← eq]
      · simp only [List.length_append, List.length_cons]
        omega

end SeparatedSegments
