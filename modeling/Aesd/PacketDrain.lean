import Aesd.TokenExtraction

/-! The loop that drains a receive buffer. The scan always covers the whole buffer, so
    the bytes an extraction leaves behind at its end are scanned again; whether they
    contain a newline decides between the right packets and repeated ones. -/
namespace PacketDrain
open SeparatedSegments TokenExtraction

inductive DrainEnd where
  | finished (buf : List UInt8)
  | fault
  | unfinished
  deriving DecidableEq, Repr

structure Drain where
  packets : List (List UInt8)
  ending : DrainEnd
  deriving DecidableEq, Repr

/-- while (NULL != (packet = extract(buf, *len))) handle_packet(.., packet, strlen(packet)).
    alloc tells for each round whether the allocation in it succeeds. -/
def drainLoop (alloc : Nat → Bool) (len : Nat) : Nat → Nat → List UInt8 → Drain
  | 0, _, _ => ⟨[], .unfinished⟩
  | fuel + 1, round, buf =>
      match extractTokenAndConsolidateBuffer (alloc round) buf len with
      | none => ⟨[], .fault⟩
      | some ⟨none, buf⟩ => ⟨[], .finished buf⟩
      | some ⟨some token, buf⟩ =>
          let later := drainLoop alloc len fuel (round + 1) buf
          ⟨cString token :: later.packets, later.ending⟩

/-- Each complete line but the last is short enough, together with all complete lines
    from it on, for the buffer length. -/
def ResidueFree (len : Nat) : List (List UInt8) → Prop
  | line :: next :: later =>
      line.length + 1 + terminatedLength (line :: next :: later) ≤ len ∧
        ResidueFree len (next :: later)
  | _ => True

instance decidableResidueFree (len : Nat) : (lines : List (List UInt8)) →
    Decidable (ResidueFree len lines)
  | [] => inferInstanceAs (Decidable True)
  | [_] => inferInstanceAs (Decidable True)
  | line :: next :: later =>
      have := decidableResidueFree len (next :: later)
      inferInstanceAs (Decidable (line.length + 1 + terminatedLength (line :: next :: later) ≤ len ∧
        ResidueFree len (next :: later)))

def residue (line rest : List UInt8) : List UInt8 := (line ++ nul :: rest).drop rest.length

theorem residue_length (line rest : List UInt8) :
    (residue line rest).length = line.length + 1 := by
  simp only [residue, List.length_drop, List.length_append, List.length_cons]
  omega

theorem residue_clean {line data junk : List UInt8} {len : Nat} (free : newline ∉ line)
    (clean : newline ∉ junk) (size : line.length + 1 + (data.length + 1 + junk.length) = len)
    (fits : ResidueFree len (line :: segments newline data)) :
    newline ∉ residue line (data ++ nul :: junk) := by
  have tailFree : newline ∉ remainder newline data ++ nul :: junk := by
    simp [remainder_not_mem, clean]
  cases lines : segments newline data with
  | nil =>
    have absent := (segments_eq_nil_iff data).mp lines
    have whole : newline ∉ line ++ nul :: (data ++ nul :: junk) := by simp [free, absent, clean]
    exact fun member => whole (List.mem_of_mem_drop member)
  | cons next later =>
    rw [lines] at fits
    obtain ⟨before, eq, count⟩ := last_separator (by rw [lines]; exact List.cons_ne_nil next later)
    have bound := fits.1
    rw [terminatedLength_cons, ← lines, ← count] at bound
    have shape : line ++ nul :: (data ++ nul :: junk) = line ++ nul :: (before ++ [newline]) ++
        (remainder newline data ++ nul :: junk) := by
      conv => lhs; rw [eq]
      simp
    refine not_mem_drop shape ?_ tailFree
    · simp only [List.length_append, List.length_cons, List.length_nil]
      omega

theorem residue_dirty {line data junk : List UInt8} {len : Nat}
    (size : line.length + 1 + (data.length + 1 + junk.length) = len)
    (line_left : segments newline data ≠ [])
    (overlap : len < line.length + 1 + terminatedLength (line :: segments newline data)) :
    newline ∈ residue line (data ++ nul :: junk) := by
  obtain ⟨before, eq, count⟩ := last_separator line_left
  rw [terminatedLength_cons, ← count] at overlap
  have shape : line ++ nul :: (data ++ nul :: junk) =
      (line ++ nul :: before) ++ newline :: (remainder newline data ++ nul :: junk) := by
    conv => lhs; rw [eq]
    simp
  refine mem_drop shape ?_
  · simp only [List.length_append, List.length_cons]
    omega

theorem drain_line {line rest : List UInt8} (free : newline ∉ line) (noNul : nul ∉ line)
    (fuel round : Nat) (len : Nat) (size : (line ++ newline :: rest).length = len) :
    drainLoop (fun _ => true) len (fuel + 1) round (line ++ newline :: rest) =
      (let later := drainLoop (fun _ => true) len fuel (round + 1) (rest ++ residue line rest)
       ⟨line :: later.packets, later.ending⟩) := by
  subst size
  rw [drainLoop, extract_line free]
  simp only [packet_of_line, cString_free noNul]
  rfl

theorem drain_stops {buf : List UInt8} (free : newline ∉ buf) (alloc : Nat → Bool)
    (fuel round : Nat) : drainLoop alloc buf.length (fuel + 1) round buf = ⟨[], .finished buf⟩ := by
  rw [drainLoop, extract_free free]

theorem drain_more_fuel {alloc : Nat → Bool} {len fuel round : Nat} {buf rest : List UInt8}
    {packets : List (List UInt8)}
    (run : drainLoop alloc len fuel round buf = ⟨packets, .finished rest⟩) (extra : Nat) :
    drainLoop alloc len (fuel + extra) round buf = ⟨packets, .finished rest⟩ := by
  induction fuel generalizing round buf packets with
  | zero => simp [drainLoop] at run
  | succ fuel ih =>
    rw [drainLoop] at run
    rw [Nat.add_right_comm, drainLoop]
    split at run
    · simp at run
    · rename_i stop
      simpa only [stop] using run
    · rename_i token moved more
      obtain ⟨rfl, ending⟩ := Drain.mk.inj run
      have later := ih (congrArg (Drain.mk _) ending)
      simp only [later]

/-- Without overlapping lines the drain yields the lines of the data and stops. -/
theorem drain_clean (data : List UInt8) {junk : List UInt8} {len : Nat} (fuel round : Nat)
    (noNul : nul ∉ data) (clean : newline ∉ junk) (size : data.length + 1 + junk.length = len)
    (fits : ResidueFree len (segments newline data))
    (enough : (segments newline data).length < fuel) :
    ∃ buf, drainLoop (fun _ => true) len fuel round (data ++ nul :: junk) =
      ⟨segments newline data, .finished buf⟩ ∧ buf.length = len ∧ newline ∉ buf := by
  obtain ⟨fuel, rfl⟩ := Nat.exists_eq_succ_of_ne_zero (by omega : fuel ≠ 0)
  induction data using line_induction newline generalizing junk fuel round with
  | free data free =>
    have absent : newline ∉ data ++ nul :: junk := by simp [free, clean]
    have whole : (data ++ nul :: junk).length = len := by
      simp only [List.length_append, List.length_cons]
      omega
    refine ⟨data ++ nul :: junk, ?_, whole, absent⟩
    rw [segments_free free, ← whole]
    exact drain_stops absent _ _ _
  | line line data free ih =>
    rw [segments_line free] at fits enough ⊢
    simp only [List.mem_append, List.mem_cons, not_or] at noNul
    simp only [List.length_append, List.length_cons] at size enough
    obtain ⟨fuel, rfl⟩ := Nat.exists_eq_succ_of_ne_zero (by omega : fuel ≠ 0)
    have laterFits : ResidueFree len (segments newline data) := by
      cases lines : segments newline data with
      | nil => trivial
      | cons next later =>
        rw [lines] at fits
        exact fits.2
    have residueClean := residue_clean free clean (by omega) fits
    obtain ⟨buf, run, whole, absent⟩ := @ih (junk ++ residue line (data ++ nul :: junk))
      (round + 1) noNul.2.2 (by simp [clean, residueClean])
      (by simp only [List.length_append, residue_length]; omega) laterFits fuel (by omega)
    refine ⟨buf, ?_, whole, absent⟩
    rw [List.append_assoc, List.cons_append, drain_line free noNul.1 _ _ _
      (by simp only [List.length_append, List.length_cons]; omega)]
    rw [List.append_assoc, List.cons_append, run]

/-- With overlapping lines a newline survives behind the data, and once all lines are
    out the unterminated rest of the data is passed on as one more packet. -/
theorem drain_repeats (data : List UInt8) {junk : List UInt8} {len fuel round : Nat}
    (noNul : nul ∉ data) (size : data.length + 1 + junk.length = len)
    (dirty : newline ∈ junk ∨ ¬ ResidueFree len (segments newline data))
    (enough : (segments newline data).length < fuel) :
    ∃ more, (drainLoop (fun _ => true) len fuel round (data ++ nul :: junk)).packets =
      segments newline data ++ remainder newline data :: more := by
  obtain ⟨fuel, rfl⟩ := Nat.exists_eq_succ_of_ne_zero (by omega : fuel ≠ 0)
  induction data using line_induction newline generalizing junk fuel round with
  | free data free =>
    have stale : newline ∈ junk := by
      rcases dirty with stale | overlap
      · exact stale
      · exact absurd (by rw [segments_free free]; trivial) overlap
    obtain ⟨front, back, rfl, frontFree⟩ := List.eq_append_cons_of_mem stale
    have shape : data ++ nul :: (front ++ newline :: back) =
        (data ++ nul :: front) ++ newline :: back := by simp
    have lineFree : newline ∉ data ++ nul :: front := by simp [free, frontFree]
    have whole : ((data ++ nul :: front) ++ newline :: back).length = len := by
      rw [← shape, ← size]
      simp only [List.length_append, List.length_cons]
      omega
    rw [shape, ← whole, drainLoop, extract_line lineFree]
    simp only [packet_of_line, cString_terminated noNul]
    exact ⟨_, by rw [segments_free free, remainder_free free, List.nil_append]⟩
  | line line data free ih =>
    rw [segments_line free] at dirty enough ⊢
    rw [remainder_line]
    simp only [List.mem_append, List.mem_cons, not_or] at noNul
    simp only [List.length_append, List.length_cons] at size enough
    obtain ⟨fuel, rfl⟩ := Nat.exists_eq_succ_of_ne_zero (by omega : fuel ≠ 0)
    have stillDirty : newline ∈ junk ++ residue line (data ++ nul :: junk) ∨
        ¬ ResidueFree len (segments newline data) := by
      rcases dirty with stale | overlap
      · exact Or.inl (List.mem_append_left _ stale)
      · cases lines : segments newline data with
        | nil =>
          rw [lines] at overlap
          exact absurd trivial overlap
        | cons next later =>
          by_cases tooLong : len < line.length + 1 + terminatedLength (line :: segments newline data)
          · exact Or.inl (List.mem_append_right _
              (residue_dirty (by omega) (by simp [lines]) tooLong))
          · rw [lines] at overlap tooLong
            exact Or.inr fun fits => overlap ⟨by omega, fits⟩
    obtain ⟨more, eq⟩ := @ih (junk ++ residue line (data ++ nul :: junk)) (round + 1) noNul.2.2
      (by simp only [List.length_append, residue_length]; omega) stillDirty fuel (by omega)
    rw [List.append_assoc, List.cons_append, drain_line free noNul.1 _ _ _
      (by simp only [List.length_append, List.length_cons]; omega), List.append_assoc,
      List.cons_append]
    exact ⟨more, by rw [List.cons_append, ← eq]⟩

end PacketDrain
