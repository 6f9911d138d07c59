import Aesd.SeparatedSegments

/-! A window of fixed length over terminated segments. Taking the first segment out moves
    the rest to the front, and the elements at the end of the window, as many as were taken,
    come up once more. Segments are told by their lengths without separator, and the gap
    is what follows the last separator. -/
namespace RecycledSegments
open SeparatedSegments

/-- What segments of these lengths occupy, separators included. -/
def span (lengths : List Nat) : Nat := (lengths.map (· + 1)).sum

def gap (len : Nat) (lengths : List Nat) : Nat := len - span lengths

/-- The segments that come up again when the last count elements do. The first of them
    begins with the gap. -/
def recycled (count gap : Nat) : List Nat → List Nat
  | [] => []
  | _ :: later =>
      if span later + gap < count then (count - span later - 1) :: later
      else recycled count gap later

def nextLengths (len : Nat) : List Nat → List Nat
  | [] => []
  | first :: later => later ++ recycled (first + 1) (gap len (first :: later)) later

def Clogged (len : Nat) (lengths : List Nat) : Prop :=
  2 ≤ lengths.length ∧ ∀ l ∈ lengths, gap len lengths ≤ l

instance (len : Nat) (lengths : List Nat) : Decidable (Clogged len lengths) :=
  inferInstanceAs (Decidable (2 ≤ lengths.length ∧ ∀ l ∈ lengths, gap len lengths ≤ l))

@[simp] theorem span_nil : span [] = 0 := rfl

@[simp] theorem span_cons (first : Nat) (later : List Nat) :
    span (first :: later) = first + 1 + span later := by
  simp [span]

@[simp] theorem span_append (front back : List Nat) : span (front ++ back) = span front + span back := by
  simp [span]

theorem recycled_nil_of_le {count gap : Nat} (few : count ≤ gap) (lengths : List Nat) :
    recycled count gap lengths = [] := by
  induction lengths with
  | nil => rfl
  | cons first later ih => rw [recycled, if_neg (by omega), ih]

theorem recycled_span {count gap : Nat} (many : gap < count) {lengths : List Nat}
    (more : lengths ≠ []) : span (recycled count gap lengths) = count := by
  induction lengths with
  | nil => exact absurd rfl more
  | cons first later ih =>
    rw [recycled]
    split
    · rw [span_cons]
      omega
    · rename_i behind
      apply ih
      rintro rfl
      simp only [span_nil] at behind
      omega

theorem recycled_mem {count gap : Nat} {lengths : List Nat} {l : Nat}
    (member : l ∈ recycled count gap lengths) : l ∈ lengths ∨ gap ≤ l := by
  induction lengths with
  | nil => simp [recycled] at member
  | cons first later ih =>
    rw [recycled] at member
    split at member
    · rcases List.mem_cons.mp member with rfl | member
      · exact Or.inr (by omega)
      · exact Or.inl (List.mem_cons_of_mem first member)
    · rcases ih member with member | long
      · exact Or.inl (List.mem_cons_of_mem first member)
      · exact Or.inr long

/-- A first segment shorter than the gap is gone for good, and widens the gap. -/
theorem nextLengths_short {len first : Nat} {later : List Nat}
    (short : first < gap len (first :: later)) : nextLengths len (first :: later) = later := by
  rw [nextLengths, recycled_nil_of_le short, List.append_nil]

theorem nextLengths_long_span {len first : Nat} {later : List Nat}
    (long : gap len (first :: later) ≤ first) (more : later ≠ []) :
    span (nextLengths len (first :: later)) = span (first :: later) := by
  rw [nextLengths, span_append, recycled_span (Nat.lt_succ_of_le long) more, span_cons, Nat.add_comm]

theorem clogged_next {len : Nat} {lengths : List Nat} (clogged : Clogged len lengths) :
    Clogged len (nextLengths len lengths) := by
  obtain ⟨two, long⟩ := clogged
  cases lengths with
  | nil => simp at two
  | cons first later =>
    have more : later ≠ [] := by
      rintro rfl
      simp at two
    have firstLong := long first List.mem_cons_self
    have again := recycled_span (Nat.lt_succ_of_le firstLong) more
    have same : gap len (nextLengths len (first :: later)) = gap len (first :: later) := by
      rw [gap, nextLengths_long_span firstLong more, ← gap]
    constructor
    · have one := List.length_pos_iff.mpr more
      have other : recycled (first + 1) (gap len (first :: later)) later ≠ [] := by
        intro none
        rw [none] at again
        simp at again
      have oneMore := List.length_pos_iff.mpr other
      rw [nextLengths, List.length_append]
      omega
    · intro l member
      rw [same]
      rcases List.mem_append.mp member with member | member
      · exact long l (List.mem_cons_of_mem first member)
      · rcases recycled_mem member with member | far
        · exact long l (List.mem_cons_of_mem first member)
        · exact far

def ahead (len : Nat) (lengths : List Nat) : Nat := lengths.findIdx (· < gap len lengths)

theorem findIdx_append_found {α : Type*} {p : α → Bool} {front : List α} (found : ∃ a ∈ front, p a)
    (back : List α) : (front ++ back).findIdx p = front.findIdx p := by
  rw [List.findIdx_append, if_pos (List.findIdx_lt_length.mpr found)]

/-- Unless it is clogged, a window of two or more segments loses one or comes closer to
    one that it loses. -/
theorem next_decreases {len first second : Nat} {later : List Nat}
    (free : ¬ Clogged len (first :: second :: later)) :
    Prod.Lex (· < ·) (· < ·)
      (span (nextLengths len (first :: second :: later)),
        ahead len (nextLengths len (first :: second :: later)))
      (span (first :: second :: later), ahead len (first :: second :: later)) := by
  by_cases short : first < gap len (first :: second :: later)
  · apply Prod.Lex.left
    rw [nextLengths_short short, span_cons first]
    omega
  · have long : gap len (first :: second :: later) ≤ first := by omega
    have same := nextLengths_long_span long (List.cons_ne_nil second later)
    obtain ⟨l, member, small⟩ : ∃ l ∈ second :: later, l < gap len (first :: second :: later) := by
      by_contra none
      refine free ⟨by simp, ?_⟩
      rw [List.forall_mem_cons]
      refine ⟨long, ?_⟩
      intro l member
      by_contra small
      exact none ⟨l, member, by omega⟩
    rw [same]
    apply Prod.Lex.right
    have found : ∃ l ∈ second :: later, decide (l < gap len (first :: second :: later)) = true :=
      ⟨l, member, by simpa using small⟩
    rw [ahead, gap, same, ← gap, nextLengths, findIdx_append_found found, ahead,
      List.findIdx_cons (b := first), decide_eq_false short]
    exact Nat.lt_succ_self _

/-- Whether the segments run out, decided on their lengths. They do unless the window gets
    clogged on the way. -/
def runsOut (len : Nat) : List Nat → Bool
  | [] => true
  | [_] => true
  | first :: second :: later =>
      if Clogged len (first :: second :: later) then false
      else runsOut len (nextLengths len (first :: second :: later))
termination_by lengths => (span lengths, ahead len lengths)
decreasing_by
  exact next_decreases ‹_›

theorem runsOut_next {len first : Nat} {later : List Nat} :
    runsOut len (nextLengths len (first :: later)) = runsOut len (first :: later) := by
  cases later with
  | nil => simp [nextLengths, recycled, runsOut]
  | cons second later =>
    rw [runsOut]
    split
    · rename_i clogged
      have again := clogged_next clogged
      cases next : nextLengths len (first :: second :: later) with
      | nil =>
        rw [next] at again
        simp [Clogged] at again
      | cons one more =>
        rw [next] at again
        cases more with
        | nil => simp [Clogged] at again
        | cons two more => rw [runsOut, if_pos again]
    · rfl

/-- Bounds how often the first segment can be taken out. -/
def rank (len : Nat) (lengths : List Nat) : Nat :=
  span lengths * (span lengths + 1) + ahead len lengths

theorem length_le_span (lengths : List Nat) : lengths.length ≤ span lengths := by
  induction lengths with
  | nil => simp
  | cons first later ih =>
    rw [List.length_cons, span_cons]
    omega

theorem ahead_le_span (len : Nat) (lengths : List Nat) : ahead len lengths ≤ span lengths :=
  Nat.le_trans List.findIdx_le_length (length_le_span lengths)

theorem rank_bound (len : Nat) (lengths : List Nat) :
    rank len lengths ≤ (span lengths + 1) * (span lengths + 1) := by
  have inside := ahead_le_span len lengths
  rw [rank, Nat.add_mul, Nat.one_mul]
  omega

theorem pronic_less {m n : Nat} (less : m < n) : m * (m + 1) + m < n * (n + 1) := by
  have product := Nat.mul_le_mul less (Nat.succ_le_succ less)
  simp only [Nat.succ_mul, Nat.mul_succ] at product ⊢
  omega

/-- Segments that run out do so in a number of rounds that is known beforehand. -/
theorem rank_next {len first : Nat} {later : List Nat} (out : runsOut len (first :: later) = true) :
    rank len (nextLengths len (first :: later)) < rank len (first :: later) := by
  have inside := ahead_le_span len (nextLengths len (first :: later))
  cases later with
  | nil =>
    have pronic : 0 < (first + 1) * (first + 1 + 1) := Nat.mul_pos (by omega) (by omega)
    simp only [rank, nextLengths, recycled, ahead, span]
    exact Nat.lt_add_right _ pronic
  | cons second later =>
    have free : ¬ Clogged len (first :: second :: later) := by
      intro clogged
      rw [runsOut, if_pos clogged] at out
      simp at out
    unfold rank
    rcases Prod.lex_def.mp (next_decreases free) with shorter | ⟨same, nearer⟩
    · have less := pronic_less shorter
      simp only at less
      omega
    · simp only at same nearer
      rw [same]
      omega

variable {α : Type*} [DecidableEq α] (sep : α)

def segmentLengths (xs : List α) : List Nat := (segments sep xs).map List.length

variable {sep}

theorem segmentLengths_free {xs : List α} (free : sep ∉ xs) : segmentLengths sep xs = [] := by
  rw [segmentLengths, segments_free free]
  rfl

theorem segmentLengths_line {line : List α} (free : sep ∉ line) (rest : List α) :
    segmentLengths sep (line ++ sep :: rest) = line.length :: segmentLengths sep rest := by
  rw [segmentLengths, segments_line free]
  rfl

theorem segmentLengths_append (xs ys : List α) :
    segmentLengths sep (xs ++ ys) =
      segmentLengths sep xs ++ segmentLengths sep (remainder sep xs ++ ys) := by
  rw [segmentLengths, segments_append, List.map_append]
  rfl

theorem span_segmentLengths (xs : List α) :
    span (segmentLengths sep xs) + (remainder sep xs).length = xs.length := by
  induction xs using line_induction sep with
  | free xs free => rw [segmentLengths_free free, remainder_free free, span_nil, Nat.zero_add]
  | line line rest free ih =>
    rw [segmentLengths_line free, remainder_line, span_cons, List.length_append, List.length_cons]
    omega

/-- The last count elements, seen again behind the gap, bring back the segments above. -/
theorem segmentLengths_again (rest : List α) {front : List α} {count : Nat} (free : sep ∉ front)
    (within : count ≤ front.length + rest.length) :
    segmentLengths sep (remainder sep rest ++
        (front ++ rest).drop (front.length + rest.length - count)) =
      recycled count (remainder sep rest).length (segmentLengths sep rest) := by
  induction rest using line_induction sep generalizing front with
  | free rest clean =>
    rw [segmentLengths_free clean, remainder_free clean]
    apply segmentLengths_free
    intro member
    rcases List.mem_append.mp member with member | member
    · exact clean member
    · rcases List.mem_append.mp (List.mem_of_mem_drop member) with member | member
      · exact free member
      · exact clean member
  | line line rest clean ih =>
    have total := @span_segmentLengths _ _ sep rest
    have frontFree : sep ∉ front ++ line := by simp [free, clean]
    have shape : front ++ (line ++ sep :: rest) = (front ++ line) ++ sep :: rest := by simp
    rw [segmentLengths_line clean, remainder_line, recycled]
    simp only [List.length_append, List.length_cons] at within ⊢
    split
    · rename_i reaches
      have keeps : front.length + (line.length + (rest.length + 1)) - count ≤
          (front ++ line).length := by
        rw [List.length_append]
        omega
      have lineFree : sep ∉ remainder sep rest ++
          (front ++ line).drop (front.length + (line.length + (rest.length + 1)) - count) := by
        intro member
        rcases List.mem_append.mp member with member | member
        · exact remainder_not_mem rest member
        · exact frontFree (List.mem_of_mem_drop member)
      rw [shape, List.drop_append_of_le_length keeps, ← List.append_assoc,
        segmentLengths_line lineFree]
      congr 1
      simp only [List.length_append, List.length_drop]
      omega
    · rename_i misses
      have skips : front.length + (line.length + (rest.length + 1)) - count =
          (front ++ line ++ [sep]).length + (rest.length - count) := by
        simp only [List.length_append, List.length_singleton]
        omega
      have later := @ih [] (by simp) (by simp only [List.length_nil]; omega)
      rw [List.nil_append, List.length_nil, Nat.zero_add] at later
      rw [shape, ← List.singleton_append, ← List.append_assoc, skips, ← List.drop_drop,
        List.drop_append_length]
      exact later

end RecycledSegments
