import Aesd.PacketAppend
import Aesd.TerminatedMemory

/-! What write_all reads of its caller's array. write gets a counted range of it, but the
    message of giving up takes the pointer that the loop has moved for a string. -/
namespace WriteAllReads
open WriteAll PacketAppend TerminatedMemory

/-- The bytes of a write, and those of a %s. -/
inductive BufferRead where
  | range (start count : Nat)
  | string (start : Nat)
  deriving DecidableEq, Repr

def BufferRead.Reads (memory : Nat → UInt8) : BufferRead → Nat → Prop
  | .range start count, i => start ≤ i ∧ i < start + count
  | .string start, i => ScanReads 0 memory start i

/-- The loop of write_all on a buffer of len bytes, by what it reads. The loop's pointer is
    as far in as bytes are missing from its rest. -/
def writeAllReads (len : Nat) : List Int → WriteLoop → List BufferRead
  | [], loop =>
      if loop.rest = [] then [] else [.range (len - loop.rest.length) loop.rest.length]
  | offer :: later, loop =>
      if loop.rest = [] then []
      else .range (len - loop.rest.length) loop.rest.length ::
        match loop.afterWrite offer with
        | none => [.string (len - loop.rest.length)]
        | some next => writeAllReads len later next

/-- The calls of write_all in handle_packet, on a packet with its terminator and on the
    newline, and in duplicate_data_across_fds. -/
inductive WriteCall where
  | packet (msg behind : List UInt8)
  | newline
  | chunk (buffer : Vector UInt8 maxBufSize) (numBytesRead : Nat) (within : numBytesRead ≤ maxBufSize)
  deriving DecidableEq, Repr

def WriteCall.array : WriteCall → List UInt8
  | .packet msg behind => msg ++ 0 :: behind
  | .newline => newlineArray
  | .chunk buffer _ _ => buffer.toList

def WriteCall.len : WriteCall → Nat
  | .packet msg _ => msg.length
  | .newline => 1
  | .chunk _ numBytesRead _ => numBytesRead

def WriteCall.bytes (call : WriteCall) : List UInt8 := call.array.take call.len

def WriteCall.reads (call : WriteCall) (schedule : List Int) : List BufferRead :=
  writeAllReads call.len schedule ⟨call.bytes, 0⟩

def ReadsInside (call : WriteCall) (following : Nat → UInt8) (schedule : List Int) : Prop :=
  ∀ read ∈ call.reads schedule, ∀ i,
    read.Reads (laidOut call.array following) i → i < call.array.length

theorem len_le_array (call : WriteCall) : call.len ≤ call.array.length := by
  cases call with
  | packet msg behind => simp [WriteCall.len, WriteCall.array]
  | newline => exact Nat.le_refl _
  | chunk buffer numBytesRead within => simpa [WriteCall.len, WriteCall.array] using within

theorem bytes_length (call : WriteCall) : call.bytes.length = call.len := by
  unfold WriteCall.bytes
  rw [List.length_take]
  exact Nat.min_eq_left (len_le_array call)

theorem rest_shrinks {loop next : WriteLoop} {offer : Int}
    (after : loop.afterWrite offer = some next) : next.rest.length ≤ loop.rest.length := by
  rw [← accepted_rest after, List.length_append]
  exact Nat.le_add_left _ _

/-- write itself is only ever given bytes of the buffer. -/
theorem range_inside {len start count : Nat} {schedule : List Int} {loop : WriteLoop}
    (fits : loop.rest.length ≤ len) (member : .range start count ∈ writeAllReads len schedule loop) :
    start + count = len := by
  induction schedule generalizing loop with
  | nil =>
    rw [writeAllReads] at member
    split at member
    · cases member
    · simp only [List.mem_singleton, BufferRead.range.injEq] at member
      omega
  | cons offer later ih =>
    rw [writeAllReads] at member
    split at member
    · cases member
    · rcases List.mem_cons.mp member with here | member
      · simp only [BufferRead.range.injEq] at here
        omega
      · cases after : loop.afterWrite offer with
        | none =>
          simp only [after, List.mem_singleton] at member
          cases member
        | some next =>
          simp only [after] at member
          have shrinks := rest_shrinks after
          exact ih (by omega) member

theorem givesUp_first {len fails base start : Nat} {offer : Int} {later : List Int}
    (few : fails ≤ maxFailCount) :
    (∃ used rest, offer :: later = used ++ rest ∧ GivesUp len fails used ∧
        start = base + gained used) ↔
      ∃ used rest, later = used ++ rest ∧
        GivesUp (len - offer.toNat) (fails + if offer ≤ 0 then 1 else 0) used ∧
        start = base + offer.toNat + gained used := by
  constructor
  · intro found
    obtain ⟨used, rest, split, givesUp, same⟩ := found
    cases used with
    | nil =>
      have many := givesUp.many
      rw [failures_nil] at many
      omega
    | cons first used =>
      obtain ⟨rfl, tails⟩ := List.cons.inj split
      rw [gained_cons] at same
      exact ⟨used, rest, tails, givesUp_tail givesUp, by omega⟩
  · intro found
    obtain ⟨used, rest, split, givesUp, same⟩ := found
    refine ⟨offer :: used, rest, by rw [split, List.cons_append], givesUp_cons few givesUp, ?_⟩
    rw [gained_cons]
    omega

/-- The 21st failure gives up, and the results after it are not looked at. -/
theorem gives_up_now {len fails base start : Nat} {offer : Int} {later : List Int}
    (positive : 0 < len) (failing : offer ≤ 0) (few : fails ≤ maxFailCount)
    (last : maxFailCount < fails + 1) :
    start = base ↔ ∃ used rest, offer :: later = used ++ rest ∧ GivesUp len fails used ∧
      start = base + gained used := by
  have now := givesUp_last positive failing few last
  have nothing : gained [offer] = 0 := by
    rw [gained_cons, Int.toNat_of_nonpos failing, gained_nil]
  constructor
  · intro same
    exact ⟨[offer], later, rfl, now, by rw [same, nothing, Nat.add_zero]⟩
  · intro found
    obtain ⟨used, rest, split, givesUp, same⟩ := found
    obtain ⟨only, _⟩ := @givesUp_unique _ _ [offer] used later rest split now givesUp
    rw [same, ← only, nothing, Nat.add_zero]

theorem nothing_gives_up {fails base start : Nat} {schedule : List Int} :
    ¬ ∃ used rest, schedule = used ++ rest ∧ GivesUp 0 fails used ∧ start = base + gained used := by
  intro found
  obtain ⟨used, rest, _, givesUp, _⟩ := found
  exact absurd givesUp.short (Nat.not_lt_zero _)

/-- The string read starts where the results that made write_all give up have left it. -/
theorem string_read_iff {len fails start : Nat} {schedule : List Int} {rest : List UInt8}
    (few : fails ≤ maxFailCount) (fits : rest.length ≤ len) :
    .string start ∈ writeAllReads len schedule ⟨rest, fails⟩ ↔
      ∃ used later, schedule = used ++ later ∧ GivesUp rest.length fails used ∧
        start = len - rest.length + gained used := by
  induction schedule generalizing rest fails with
  | nil =>
    constructor
    · intro member
      rw [writeAllReads] at member
      split at member
      · cases member
      · simp at member
    · intro found
      obtain ⟨used, later, split, givesUp, _⟩ := found
      have many := givesUp.many
      rw [(List.append_eq_nil_iff.mp split.symm).1, failures_nil] at many
      omega
  | cons offer later ih =>
    by_cases done : rest = []
    · subst done
      constructor
      · intro member
        simp [writeAllReads] at member
      · intro found
        exact absurd found nothing_gives_up
    · rw [writeAllReads, if_neg done, List.mem_cons]
      simp only [reduceCtorEq, false_or]
      by_cases failing : offer ≤ 0
      · have nothing : offer.toNat = 0 := Int.toNat_of_nonpos failing
        rw [afterWrite_fail failing]
        by_cases last : maxFailCount < fails + 1
        · simp only [last, ↓reduceIte, List.mem_singleton, BufferRead.string.injEq]
          exact gives_up_now (List.length_pos_iff.mpr done) failing few last
        · simp only [last, ↓reduceIte]
          rw [ih (by omega) fits, givesUp_first few, nothing]
          simp only [failing, ↓reduceIte, Nat.sub_zero, Nat.add_zero]
      · have gains : 0 < offer := by omega
        rw [afterWrite_gain gains done]
        simp only
        rw [ih few (by rw [List.length_drop]; omega), givesUp_first few]
        simp only [failing, ↓reduceIte, Nat.add_zero, List.length_drop]
        constructor
        · intro found
          obtain ⟨used, unused, split, givesUp, same⟩ := found
          have short := givesUp.short
          exact ⟨used, unused, split, givesUp, by omega⟩
        · intro found
          obtain ⟨used, unused, split, givesUp, same⟩ := found
          have short := givesUp.short
          exact ⟨used, unused, split, givesUp, by omega⟩

theorem reads_inside_of_strings {call : WriteCall} {following : Nat → UInt8} {schedule : List Int} :
    ReadsInside call following schedule ↔
      ∀ start, .string start ∈ call.reads schedule → 0 ∈ call.array.drop start := by
  constructor
  · intro inside start member
    exact scan_inside_iff.mp (inside _ member)
  · intro strings read member i reads
    cases read with
    | range start count =>
      have size := range_inside (Nat.le_of_eq (bytes_length call)) member
      have room := len_le_array call
      simp only [BufferRead.Reads] at reads
      omega
    | string start => exact scan_inside_iff.mpr (strings start member) i reads

theorem call_string_iff {call : WriteCall} {schedule : List Int} {start : Nat} :
    .string start ∈ call.reads schedule ↔
      ∃ used later, schedule = used ++ later ∧ GivesUp call.len 0 used ∧ start = gained used := by
  have size := bytes_length call
  have read := @string_read_iff call.len 0 start schedule call.bytes (Nat.zero_le _)
    (Nat.le_of_eq size)
  simp only [size, Nat.sub_self, Nat.zero_add] at read
  exact read

theorem string_read_iff_fails {call : WriteCall} {schedule : List Int} {ret : WriteReturn}
    (run : writeAll call.bytes schedule = some ret) :
    (∃ start, .string start ∈ call.reads schedule) ↔ ret.code = -1 := by
  simp only [call_string_iff]
  rw [← bytes_length call]
  cases writeAll_outcome run with
  | whole used code bytes split completes =>
    constructor
    · intro found
      obtain ⟨start, other, later, again, givesUp, _⟩ := found
      exact (completes_not_givesUp (split.symm.trans again) completes givesUp).elim
    · intro failed
      rw [code] at failed
      cases failed
  | partway used code bytes split givesUp =>
    constructor
    · intro _
      exact code
    · intro _
      exact ⟨gained used, used, ret.unused, split, givesUp, rfl⟩

/-- write_all stays inside of its caller's array only if, where it gives up, a NUL stands in
    what is left of that. -/
theorem write_all_reads_inside_iff (call : WriteCall) (following : Nat → UInt8)
    (schedule : List Int) :
    ReadsInside call following schedule ↔
      ∀ used rest, schedule = used ++ rest → GivesUp call.len 0 used →
        0 ∈ call.array.drop (gained used) := by
  rw [reads_inside_of_strings]
  constructor
  · intro inside used rest split givesUp
    exact inside _ (call_string_iff.mpr ⟨used, rest, split, givesUp, rfl⟩)
  · intro terminated start member
    obtain ⟨used, rest, split, givesUp, rfl⟩ := call_string_iff.mp member
    exact terminated used rest split givesUp

/-- A packet carries its terminator, so no schedule makes its call read past it. -/
theorem packet_reads_inside (msg behind : List UInt8) (following : Nat → UInt8)
    (schedule : List Int) : ReadsInside (.packet msg behind) following schedule := by
  rw [reads_inside_of_strings]
  intro start member
  obtain ⟨used, rest, _, givesUp, rfl⟩ := call_string_iff.mp member
  have short := givesUp.short
  simp only [WriteCall.len] at short
  simp only [WriteCall.array]
  rw [List.drop_append_of_le_length (Nat.le_of_lt short)]
  simp

/-- The newline has none, so its call must not give up at all. -/
theorem newline_reads_inside_iff (following : Nat → UInt8) (schedule : List Int) :
    ReadsInside .newline following schedule ↔
      ∀ used rest, schedule = used ++ rest → ¬ GivesUp 1 0 used := by
  have free : ∀ count, 0 ∉ newlineArray.drop count := by
    intro count member
    have byte := List.mem_of_mem_drop member
    revert byte
    decide
  rw [reads_inside_of_strings]
  constructor
  · intro inside used rest split givesUp
    exact free _ (inside _ (call_string_iff.mpr ⟨used, rest, split, givesUp, rfl⟩))
  · intro never start member
    obtain ⟨used, rest, split, givesUp, _⟩ := call_string_iff.mp member
    exact absurd givesUp (never used rest split)

theorem failing_newline_is_overrun :
    ¬ ReadsInside .newline (fun _ => 97) (List.replicate 21 (-1)) := by
  intro inside
  rw [newline_reads_inside_iff] at inside
  have failing := (@givesUp_failing_iff 1 (List.replicate 21 (-1)) (by decide)).mpr
    ⟨by decide, by decide⟩
  exact inside _ [] (List.append_nil _).symm failing.1

end WriteAllReads
