import Aesd.ExtractionSplit
import Aesd.PacketDrain

/-! What a NULL of the extraction leaves behind. It stands for a buffer without a complete
    line and for a failed calloc, and the drain loop takes either as the end. The newline
    is overwritten before calloc is asked, so the second kind costs a line. -/
namespace LostLines
open TokenExtraction PacketDrain

def NullKeepsBuffer (allocOk : Bool) (len : Nat) (buf : List UInt8) : Prop :=
  ∀ after, extractTokenAndConsolidateBuffer allocOk buf len = some ⟨none, after⟩ →
    after.take len = buf.take len

structure Call where
  allocOk : Bool
  before : List UInt8
  extraction : Extraction
  deriving DecidableEq, Repr

def drainCalls (alloc : Nat → Bool) (len : Nat) : Nat → Nat → List UInt8 → List Call
  | 0, _, _ => []
  | fuel + 1, round, buf =>
      match extractTokenAndConsolidateBuffer (alloc round) buf len with
      | none => []
      | some ⟨none, after⟩ => [⟨alloc round, buf, ⟨none, after⟩⟩]
      | some ⟨some token, after⟩ =>
          ⟨alloc round, buf, ⟨some token, after⟩⟩ :: drainCalls alloc len fuel (round + 1) after

/-- No newline of the len bytes goes with a call that delivers nothing. -/
def Call.DropsNoLine (len : Nat) (call : Call) : Prop :=
  call.extraction.token = none →
    (call.extraction.buf.take len).count newline = (call.before.take len).count newline

theorem drainCalls_packets (alloc : Nat → Bool) (len fuel round : Nat) (buf : List UInt8) :
    (drainCalls alloc len fuel round buf).filterMap (fun call => call.extraction.token.map cString) =
      (drainLoop alloc len fuel round buf).packets := by
  induction fuel generalizing round buf with
  | zero => rfl
  | succ fuel ih =>
    rw [drainCalls, drainLoop]
    rcases extractTokenAndConsolidateBuffer (alloc round) buf len with _ | ⟨_ | token, after⟩
    · rfl
    · rfl
    · rw [List.filterMap_cons]
      simp only [Option.map_some, ih]

theorem drainCalls_ran {alloc : Nat → Bool} {len fuel round : Nat} {buf : List UInt8} {call : Call}
    (member : call ∈ drainCalls alloc len fuel round buf) :
    extractTokenAndConsolidateBuffer call.allocOk call.before len = some call.extraction := by
  induction fuel generalizing round buf with
  | zero => simp [drainCalls] at member
  | succ fuel ih =>
    rw [drainCalls] at member
    split at member
    · simp at member
    · rename_i after run
      rw [List.mem_singleton.mp member]
      exact run
    · rename_i token after run
      rcases List.mem_cons.mp member with rfl | later
      · exact run
      · exact ih later

theorem found_member {buf : List UInt8} {len i : Nat}
    (found : findNewline buf len 0 = some (some i)) : newline ∈ buf.take len := by
  obtain ⟨_, bound, here⟩ := findNewline_within found
  rw [Nat.zero_add] at bound
  apply List.mem_of_getElem? (i := i)
  rw [List.getElem?_take_of_lt bound, here]

theorem null_result {allocOk : Bool} {buf after : List UInt8} {len : Nat}
    (run : extractTokenAndConsolidateBuffer allocOk buf len = some ⟨none, after⟩) :
    after = buf ∨ (newline ∈ buf.take len ∧ allocOk = false) := by
  cases scan : findNewline buf len 0 with
  | none => simp [extractTokenAndConsolidateBuffer, scan] at run
  | some position =>
    cases position with
    | none =>
      left
      simpa [extractTokenAndConsolidateBuffer, scan, eq_comm] using run
    | some i =>
      right
      constructor
      · exact found_member scan
      · cases allocOk with
        | false => rfl
        | true => simp [extractTokenAndConsolidateBuffer, scan] at run

/-- With a newline in reach and no memory for its line, NULL comes with one newline less. -/
theorem failed_calloc_chops {buf : List UInt8} {len : Nat} (member : newline ∈ buf.take len) :
    ∃ after, extractTokenAndConsolidateBuffer false buf len = some ⟨none, after⟩ ∧
      (after.take len).count newline + 1 = (buf.take len).count newline := by
  obtain ⟨line, rest, front, free⟩ := List.eq_append_cons_of_mem member
  have size : line.length < len := by
    have bound := congrArg List.length front
    rw [List.length_take, List.length_append, List.length_cons] at bound
    omega
  have whole : buf = line ++ newline :: (rest ++ buf.drop len) := by
    rw [← List.cons_append, ← List.append_assoc, ← front, List.take_append_drop]
  have scan : findNewline buf len 0 = some (some line.length) := by
    rw [whole]
    exact findNewline_line free len 0 (Nat.zero_le _) (by omega)
  have chopped : (buf.set line.length nul).take len = line ++ nul :: rest := by
    rw [List.take_set, front]
    simp
  refine ⟨buf.set line.length nul, ?_, ?_⟩
  · simp [extractTokenAndConsolidateBuffer, scan]
  · rw [chopped, front, List.count_append, List.count_append, List.count_cons_self,
      List.count_cons_of_ne (by decide), Nat.add_assoc]

theorem null_keeps_buffer_iff (allocOk : Bool) (len : Nat) (buf : List UInt8) :
    NullKeepsBuffer allocOk len buf ↔ (newline ∈ buf.take len → allocOk = true) := by
  constructor
  · intro keeps member
    cases allocOk with
    | true => rfl
    | false =>
      obtain ⟨after, run, fewer⟩ := failed_calloc_chops member
      rw [keeps after run] at fewer
      omega
  · intro guarded after run
    rcases null_result run with same | ⟨member, failed⟩
    · rw [same]
    · rw [guarded member] at failed
      contradiction

theorem drops_no_line_iff {call : Call} {len : Nat}
    (ran : extractTokenAndConsolidateBuffer call.allocOk call.before len = some call.extraction) :
    call.DropsNoLine len ↔ (newline ∈ call.before.take len → call.allocOk = true) := by
  constructor
  · intro kept member
    cases failed : call.allocOk with
    | true => rfl
    | false =>
      obtain ⟨after, run, fewer⟩ := failed_calloc_chops member
      rw [failed, run] at ran
      have result : call.extraction = ⟨none, after⟩ := (Option.some.inj ran).symm
      unfold Call.DropsNoLine at kept
      rw [result] at kept
      have count : (after.take len).count newline = (call.before.take len).count newline :=
        kept rfl
      omega
  · intro guarded nothing
    have result : call.extraction = ⟨none, call.extraction.buf⟩ := by rw [← nothing]
    rw [result] at ran
    have same := (null_keeps_buffer_iff _ len _).mpr guarded call.extraction.buf ran
    rw [same]

/-- Of a call, and of every drain: a NULL leaves the buffer alone, and no line is consumed
    without its packet, if and only if calloc succeeds wherever a newline is in reach. -/
theorem null_keeps_lines_iff (alloc : Nat → Bool) (len fuel round : Nat) (buf : List UInt8) :
    (∀ allocOk, NullKeepsBuffer allocOk len buf ↔ (newline ∈ buf.take len → allocOk = true)) ∧
    ((∀ call ∈ drainCalls alloc len fuel round buf, call.DropsNoLine len) ↔
      ∀ call ∈ drainCalls alloc len fuel round buf,
        newline ∈ call.before.take len → call.allocOk = true) := by
  constructor
  · intro allocOk
    exact null_keeps_buffer_iff allocOk len buf
  · constructor
    · intro kept call member
      exact (drops_no_line_iff (drainCalls_ran member)).mp (kept call member)
    · intro guarded call member
      exact (drops_no_line_iff (drainCalls_ran member)).mpr (guarded call member)

/-- The line is gone from the buffer, no packet was delivered, and the loop has ended. -/
theorem failed_calloc_loses_a_line :
    ¬ NullKeepsBuffer false 2 [97, 10] ∧
      drainLoop (fun _ => false) 2 1 0 [97, 10] = ⟨[], .finished [97, 0]⟩ := by
  constructor
  · rw [null_keeps_buffer_iff]
    decide
  · decide

end LostLines
