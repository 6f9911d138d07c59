import Aesd.ReceiveLoop
import Aesd.RecycledSegments

/-! What becomes of the drain loop on a buffer of any content: the packets it makes of a
    message, and whether it comes to an end at all. -/
namespace DrainOutcome
open SeparatedSegments RecycledSegments TokenExtraction PacketDrain ReceiveLoop

theorem replicate_free {byte : UInt8} (other : newline ≠ byte) (count : Nat) :
    newline ∉ List.replicate count byte :=
  fun member => other (List.eq_of_mem_replicate member)

theorem drain_packets_grow (alloc : Nat → Bool) (len fuel round : Nat) (buf : List UInt8)
    (extra : Nat) : (drainLoop alloc len fuel round buf).packets <+:
      (drainLoop alloc len (fuel + extra) round buf).packets := by
  induction fuel generalizing round buf with
  | zero => exact List.nil_prefix
  | succ fuel ih =>
    rw [Nat.add_right_comm, drainLoop, drainLoop]
    split
    · exact List.prefix_rfl
    · exact List.prefix_rfl
    · rename_i token moved more
      exact (List.prefix_append_right_inj [cString token]).mpr (ih (round + 1) moved)

/-- After any number of extractions the packets are the first lines of the data, and all
    of them once NULL is returned. -/
def YieldsEachLineOnce (len : Nat) (data : List UInt8) : Prop :=
  ∀ fuel, (drainLoop (fun _ => true) len fuel 0 (padded len data)).packets <+: segments newline data ∧
    ∀ buf, (drainLoop (fun _ => true) len fuel 0 (padded len data)).ending = .finished buf →
      (drainLoop (fun _ => true) len fuel 0 (padded len data)).packets = segments newline data

/-- Each line comes out exactly once if and only if no line but the last is so long that
    its residue reaches back into the lines behind it. -/
theorem drain_yields_each_line_once_iff {len : Nat} {data : List UInt8} (noNul : nul ∉ data)
    (room : data.length < len) :
    YieldsEachLineOnce len data ↔ ResidueFree len (segments newline data) := by
  constructor
  · intro once
    by_contra overlap
    obtain ⟨more, repeated⟩ := drain_padded_repeats noNul room overlap (Nat.lt_succ_self _)
    have first := (once ((segments newline data).length + 1)).1.length_le
    rw [repeated, List.length_append, List.length_cons] at first
    omega
  · intro fits fuel
    obtain ⟨rest, run, _⟩ := @drain_padded_clean len (fuel + ((segments newline data).length + 1))
      data noNul room fits (by omega)
    have grows := drain_packets_grow (fun _ => true) len fuel 0 (padded len data)
      ((segments newline data).length + 1)
    rw [run] at grows
    refine ⟨grows, ?_⟩
    intro buf ended
    have same := drain_more_fuel (congrArg (Drain.mk _) ended) ((segments newline data).length + 1)
    rw [run] at same
    exact (Drain.mk.inj same).1.symm

theorem two_short_lines_come_out_once : YieldsEachLineOnce 1024 [97, 10, 98, 10] :=
  (drain_yields_each_line_once_iff (by decide) (by decide)).mpr (by decide)

def longThenShort : List UInt8 := List.replicate 600 97 ++ [10, 98, 10]

theorem longThenShort_length : longThenShort.length = 603 := by
  rw [longThenShort, List.length_append, List.length_replicate]
  rfl

theorem long_line_brings_back_the_next :
    nul ∉ longThenShort ∧ longThenShort.length < 1024 ∧ ¬ YieldsEachLineOnce 1024 longThenShort := by
  have lines : segments newline longThenShort = [List.replicate 600 97, [98]] := by
    rw [longThenShort, segments_line (replicate_free (by decide) 600)]
    rfl
  have overlap : ¬ ResidueFree 1024 (segments newline longThenShort) := by
    rw [lines]
    rintro ⟨bound, _⟩
    simp only [terminatedLength_cons, terminatedLength_nil, List.length_replicate,
      List.length_singleton] at bound
    omega
  have noNul : nul ∉ longThenShort := by
    rw [longThenShort, List.mem_append, List.mem_replicate]
    decide
  have room : longThenShort.length < 1024 := by
    rw [longThenShort_length]
    decide
  obtain ⟨more, repeated⟩ := @drain_padded_repeats 1024 3 longThenShort noNul room overlap
    (by rw [lines]; decide)
  refine ⟨noNul, room, ?_⟩
  intro once
  have first := (once 3).1.length_le
  rw [repeated, List.length_append, List.length_cons] at first
  omega

theorem extract_next {len : Nat} {buf : List UInt8} (whole : buf.length = len) {first : Nat}
    {later : List Nat} (lines : segmentLengths newline buf = first :: later) :
    (∃ token moved, extractTokenAndConsolidateBuffer true buf len = some ⟨some token, moved⟩ ∧
      moved.length = len ∧ segmentLengths newline moved = nextLengths len (first :: later)) ∧
    ∃ moved, extractTokenAndConsolidateBuffer false buf len = some ⟨none, moved⟩ := by
  have member : newline ∈ buf := by
    by_contra free
    rw [segmentLengths_free free] at lines
    simp at lines
  obtain ⟨line, rest, rfl, free⟩ := List.eq_append_cons_of_mem member
  rw [segmentLengths_line free] at lines
  obtain ⟨rfl, rfl⟩ := List.cons.inj lines
  have total := @span_segmentLengths _ _ newline rest
  subst whole
  constructor
  · refine ⟨_, _, extract_line free, ?_, ?_⟩
    · simp only [List.length_append, List.length_drop, List.length_cons]
      omega
    · have frontFree : newline ∉ line ++ [nul] := by simp [free]
      have again := @segmentLengths_again _ _ newline rest (line ++ [nul]) (line.length + 1) frontFree
        (by simp)
      have keeps : (line ++ [nul]).length + rest.length - (line.length + 1) = rest.length := by
        simp
      have gapEq : gap (line ++ newline :: rest).length
          (line.length :: segmentLengths newline rest) = (remainder newline rest).length := by
        simp only [gap, span_cons, List.length_append, List.length_cons]
        omega
      rw [keeps, List.append_assoc, List.singleton_append] at again
      rw [segmentLengths_append, again, nextLengths, gapEq]
  · rw [extractTokenAndConsolidateBuffer, findNewline_line free _ _ (Nat.zero_le _) (by simp)]
    exact ⟨_, rfl⟩

theorem no_newline_of_lengths {buf : List UInt8} (none : segmentLengths newline buf = []) :
    newline ∉ buf := by
  rw [← segments_eq_nil_iff]
  exact List.map_eq_nil_iff.mp none

def Ends (alloc : Nat → Bool) (len round : Nat) (buf : List UInt8) : Prop :=
  ∃ fuel rest, (drainLoop alloc len fuel round buf).ending = .finished rest

theorem ends_without_newline (alloc : Nat → Bool) {len : Nat} {buf : List UInt8}
    (whole : buf.length = len) (round : Nat) (none : segmentLengths newline buf = []) :
    Ends alloc len round buf := by
  subst whole
  exact ⟨1, buf, by rw [drain_stops (no_newline_of_lengths none)]⟩

theorem ends_of_next {alloc : Nat → Bool} {len : Nat} {buf : List UInt8}
    (whole : buf.length = len) {first : Nat} {later : List Nat}
    (lines : segmentLengths newline buf = first :: later) (round : Nat)
    (onward : ∀ moved : List UInt8, moved.length = len →
      segmentLengths newline moved = nextLengths len (first :: later) →
      Ends alloc len (round + 1) moved) : Ends alloc len round buf := by
  obtain ⟨⟨token, moved, taken, size, next⟩, kept, refused⟩ := extract_next whole lines
  cases succeeds : alloc round with
  | false => exact ⟨1, kept, by simp only [drainLoop, succeeds, refused]⟩
  | true =>
    obtain ⟨fuel, rest, ended⟩ := onward moved size next
    exact ⟨fuel + 1, rest, by simp only [drainLoop, succeeds, taken, ended]⟩

theorem ends_of_runsOut {len : Nat} {lengths : List Nat} (out : runsOut len lengths = true)
    (alloc : Nat → Bool) (round : Nat) {buf : List UInt8} (whole : buf.length = len)
    (lines : segmentLengths newline buf = lengths) : Ends alloc len round buf := by
  induction lengths using runsOut.induct len generalizing buf round with
  | case1 => exact ends_without_newline alloc whole round lines
  | case2 first =>
    refine ends_of_next whole lines round ?_
    intro moved size next
    exact ends_without_newline alloc size (round + 1) next
  | case3 first second later clogged =>
    rw [runsOut, if_pos clogged] at out
    simp at out
  | case4 first second later free ih =>
    rw [runsOut, if_neg free] at out
    refine ends_of_next whole lines round ?_
    intro moved size next
    exact ih out (round + 1) size next

/-- The rounds of a clogged buffer, and of one that gets clogged, never end. -/
theorem unfinished_of_next {len : Nat} {buf : List UInt8} (whole : buf.length = len) {first : Nat}
    {later : List Nat} (lines : segmentLengths newline buf = first :: later) (fuel round : Nat)
    (onward : ∀ moved : List UInt8, moved.length = len →
      segmentLengths newline moved = nextLengths len (first :: later) →
      ∀ less, less < fuel →
        (drainLoop (fun _ => true) len less (round + 1) moved).ending = .unfinished) :
    (drainLoop (fun _ => true) len fuel round buf).ending = .unfinished := by
  cases fuel with
  | zero => rfl
  | succ fuel =>
    obtain ⟨⟨token, moved, taken, size, next⟩, _⟩ := extract_next whole lines
    simp only [drainLoop, taken]
    exact onward moved size next fuel (Nat.lt_succ_self fuel)

theorem unfinished_of_clogged {len : Nat} {buf : List UInt8} (whole : buf.length = len)
    (clogged : Clogged len (segmentLengths newline buf)) (fuel round : Nat) :
    (drainLoop (fun _ => true) len fuel round buf).ending = .unfinished := by
  induction fuel using Nat.strongRecOn generalizing buf round with
  | ind fuel ih =>
    cases lines : segmentLengths newline buf with
    | nil =>
      rw [lines] at clogged
      simp [Clogged] at clogged
    | cons first later =>
      rw [lines] at clogged
      refine unfinished_of_next whole lines fuel round ?_
      intro moved size next less smaller
      exact ih less smaller size (next ▸ clogged_next clogged) (round + 1)

theorem unfinished_of_not_runsOut {len : Nat} {lengths : List Nat} (stuck : runsOut len lengths = false)
    {buf : List UInt8} (whole : buf.length = len) (lines : segmentLengths newline buf = lengths)
    (fuel round : Nat) : (drainLoop (fun _ => true) len fuel round buf).ending = .unfinished := by
  induction lengths using runsOut.induct len generalizing buf fuel round with
  | case1 => simp [runsOut] at stuck
  | case2 first => simp [runsOut] at stuck
  | case3 first second later clogged =>
    exact unfinished_of_clogged whole (lines ▸ clogged) fuel round
  | case4 first second later free ih =>
    rw [runsOut, if_neg free] at stuck
    refine unfinished_of_next whole lines fuel round ?_
    intro moved size next less _
    exact ih stuck size next less (round + 1)

theorem padded_lengths (len : Nat) (data : List UInt8) :
    segmentLengths newline (padded len data) = segmentLengths newline data := by
  have clean : newline ∉ remainder newline data ++ zeros (len - data.length) := by
    simp [remainder_not_mem, zeros_free]
  rw [padded, segmentLengths_append, segmentLengths_free clean, List.append_nil]

/-- Whatever calloc does, the drain loop ends if and only if the lines of the data run out.
    That is decided by their lengths: the loop never ends once two lines or more are left
    and none is shorter than what follows the last newline. -/
theorem drain_ends_iff {len : Nat} {data : List UInt8} (room : data.length < len) :
    (∀ alloc, Ends alloc len 0 (padded len data)) ↔
      runsOut len (segmentLengths newline data) = true := by
  constructor
  · intro ends
    obtain ⟨fuel, rest, ended⟩ := ends fun _ => true
    by_contra stuck
    rw [Bool.not_eq_true] at stuck
    have never := unfinished_of_not_runsOut stuck (padded_length room) (padded_lengths len data) fuel 0
    rw [ended] at never
    simp at never
  · intro out alloc
    exact ends_of_runsOut out alloc 0 (padded_length room) (padded_lengths len data)

theorem two_short_lines_run_out :
    Ends (fun _ => true) 1024 0 (padded 1024 [97, 10, 98, 10]) := by
  have lengths : segmentLengths newline [97, 10, 98, 10] = [1, 1] := rfl
  apply (drain_ends_iff (by decide)).mpr
  simp [lengths, runsOut, Clogged, gap, nextLengths, recycled]

def shortThenLong : List UInt8 := [97, 10] ++ (List.replicate 1020 120 ++ [10])

theorem shortThenLong_length : shortThenLong.length = 1023 := by
  rw [shortThenLong, List.length_append, List.length_append, List.length_replicate]
  rfl

theorem two_lines_keep_coming_back :
    shortThenLong.length < 1024 ∧
      ∀ fuel, (drainLoop (fun _ => true) 1024 fuel 0 (padded 1024 shortThenLong)).ending =
        .unfinished := by
  have lines : segmentLengths newline shortThenLong = [1, 1020] := by
    have short : newline ∉ [(97 : UInt8)] := by decide
    rw [shortThenLong, show ([97, 10] : List UInt8) ++ (List.replicate 1020 120 ++ [10]) =
      [97] ++ newline :: (List.replicate 1020 120 ++ newline :: []) from rfl,
      segmentLengths_line short, segmentLengths_line (replicate_free (by decide) 1020),
      List.length_replicate]
    rfl
  have room : shortThenLong.length < 1024 := by
    rw [shortThenLong_length]
    decide
  refine ⟨room, ?_⟩
  intro fuel
  apply unfinished_of_clogged (padded_length room)
  rw [padded_lengths, lines]
  decide

end DrainOutcome
