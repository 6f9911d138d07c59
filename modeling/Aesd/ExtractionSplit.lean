import Aesd.TokenExtraction

/-! What one line extraction does to the two arrays it works on. The accesses are listed
    loop by loop; a call faults exactly when one of them is outside its array. -/
namespace TokenExtraction

inductive Access where
  | readBuf (i : Nat)
  | writeBuf (i : Nat)
  | writeResult (i : Nat)
  deriving DecidableEq, Repr

def Access.Within (bufSize resultSize : Nat) : Access → Prop
  | .readBuf i => i < bufSize
  | .writeBuf i => i < bufSize
  | .writeResult i => i < resultSize

def findAccesses (buf : List UInt8) : Nat → Nat → List Access
  | 0, _ => []
  | left + 1, i =>
      .readBuf i :: match buf[i]? with
        | none => []
        | some c => if c = newline then [] else findAccesses buf left (i + 1)

def scootchAccesses : Nat → Nat → Nat → List Access
  | 0, _, _ => []
  | left + 1, j, i => .readBuf i :: .writeBuf j :: scootchAccesses left (j + 1) (i + 1)

/-- strncpy reads up to and with the terminator and pads the result to n bytes. -/
def strncpyAccesses (src : List UInt8) (n : Nat) : List Access :=
  (List.range (min n ((cString (src.take n)).length + 1))).map Access.readBuf ++
    (List.range n).map Access.writeResult

/-- The i + 1 bytes asked of calloc, if it is called at all. -/
def resultSize (buf : List UInt8) (len : Nat) : Nat :=
  match findNewline buf len 0 with
  | some (some i) => i + 1
  | _ => 0

def extractAccesses (allocOk : Bool) (buf : List UInt8) (len : Nat) : List Access :=
  findAccesses buf len 0 ++
    match findNewline buf len 0 with
    | some (some i) =>
        .writeBuf i ::
          if allocOk then
            strncpyAccesses (buf.set i nul) (i + 1) ++ scootchAccesses (len - (i + 1)) 0 (i + 1)
          else []
    | _ => []

theorem findAccesses_within (buf : List UInt8) (left i : Nat) {bufSize : Nat} (resultSize : Nat)
    (inside : i + left ≤ bufSize) :
    ∀ access ∈ findAccesses buf left i, access.Within bufSize resultSize := by
  induction left generalizing i with
  | zero => simp [findAccesses]
  | succ left ih =>
    intro access member
    rw [findAccesses, List.mem_cons] at member
    rcases member with rfl | later
    · show i < bufSize
      omega
    · split at later
      · simp at later
      · split at later
        · simp at later
        · exact ih (i + 1) (by omega) access later

theorem scootchAccesses_within (left j i : Nat) {bufSize : Nat} (resultSize : Nat)
    (behind : j ≤ i) (inside : i + left ≤ bufSize) :
    ∀ access ∈ scootchAccesses left j i, access.Within bufSize resultSize := by
  induction left generalizing j i with
  | zero => simp [scootchAccesses]
  | succ left ih =>
    intro access member
    rw [scootchAccesses, List.mem_cons, List.mem_cons] at member
    rcases member with rfl | rfl | later
    · show i < bufSize
      omega
    · show j < bufSize
      omega
    · exact ih (j + 1) (i + 1) (by omega) (by omega) access later

theorem strncpyAccesses_within (src : List UInt8) {n bufSize : Nat} (inside : n ≤ bufSize) :
    ∀ access ∈ strncpyAccesses src n, access.Within bufSize n := by
  intro access member
  rw [strncpyAccesses, List.mem_append, List.mem_map, List.mem_map] at member
  rcases member with ⟨i, bound, rfl⟩ | ⟨i, bound, rfl⟩
  · have lower := List.mem_range.mp bound
    show i < bufSize
    omega
  · exact List.mem_range.mp bound

theorem findNewline_within {buf : List UInt8} {left i found : Nat}
    (run : findNewline buf left i = some (some found)) :
    i ≤ found ∧ found < i + left ∧ buf[found]? = some newline := by
  induction left generalizing i with
  | zero => simp [findNewline] at run
  | succ left ih =>
    rw [findNewline] at run
    cases here : buf[i]? with
    | none => simp [here] at run
    | some c =>
      by_cases same : c = newline
      · have stop : i = found := by simpa [here, same] using run
        subst found
        exact ⟨Nat.le_refl i, by omega, by rw [here, same]⟩
      · obtain ⟨lower, upper, there⟩ := ih (i := i + 1) (by simpa [here, same] using run)
        exact ⟨by omega, by omega, there⟩

theorem findNewline_faults (buf : List UInt8) (left i resultSize : Nat) :
    findNewline buf left i = none ↔
      ∃ access ∈ findAccesses buf left i, ¬ access.Within buf.length resultSize := by
  induction left generalizing i with
  | zero => simp [findNewline, findAccesses]
  | succ left ih =>
    rw [findNewline, findAccesses]
    cases here : buf[i]? with
    | none => simpa [Access.Within] using here
    | some c =>
      have bound : i < buf.length := (List.getElem?_eq_some_iff.mp here).1
      by_cases same : c = newline
      · simp [same, Access.Within, bound]
      · simp [same, Access.Within, bound, ih]

theorem scootch_faults (left j i resultSize : Nat) (buf : List UInt8) :
    scootch left j i buf = none ↔
      ∃ access ∈ scootchAccesses left j i, ¬ access.Within buf.length resultSize := by
  induction left generalizing j i buf with
  | zero => simp [scootch, scootchAccesses]
  | succ left ih =>
    rw [scootch, scootchAccesses]
    cases here : buf[i]? with
    | none =>
      have outside : ¬ i < buf.length := by simpa using here
      simp [Access.Within, outside]
    | some c =>
      have bound : i < buf.length := (List.getElem?_eq_some_iff.mp here).1
      by_cases target : j < buf.length
      · simp [target, bound, Access.Within, ih]
      · simp [target, Access.Within]

/-- The model stops with none exactly where the listed accesses leave an array. -/
theorem extract_faults_iff (allocOk : Bool) (buf : List UInt8) (len : Nat) :
    extractTokenAndConsolidateBuffer allocOk buf len = none ↔
      ∃ access ∈ extractAccesses allocOk buf len,
        ¬ access.Within buf.length (resultSize buf len) := by
  have scan := findNewline_faults buf len 0 (resultSize buf len)
  cases run : findNewline buf len 0 with
  | none =>
    rw [extractTokenAndConsolidateBuffer, extractAccesses, run]
    simpa [run] using scan
  | some position =>
    have scanned : ∀ access ∈ findAccesses buf len 0,
        access.Within buf.length (resultSize buf len) := by
      simpa [run] using scan
    cases position with
    | none =>
      rw [extractTokenAndConsolidateBuffer, extractAccesses, run]
      simpa using scanned
    | some i =>
      have bound : i < buf.length :=
        (List.getElem?_eq_some_iff.mp (findNewline_within run).2.2).1
      have size : resultSize buf len = i + 1 := by rw [resultSize, run]
      have copied := strncpyAccesses_within (buf.set i nul) bound
      have moved := scootch_faults (len - (i + 1)) 0 (i + 1) (i + 1) (buf.set i nul)
      rw [List.length_set] at moved
      rw [extractTokenAndConsolidateBuffer, extractAccesses, run]
      rw [size] at scanned ⊢
      have chopped : (Access.writeBuf i).Within buf.length (i + 1) := bound
      cases allocOk with
      | false =>
        simp only [Bool.false_eq_true, ↓reduceIte, reduceCtorEq, false_iff, not_exists, not_and,
          not_not, List.mem_append, List.mem_cons, List.not_mem_nil, or_false]
        rintro access (scan | rfl)
        · exact scanned access scan
        · exact chopped
      | true =>
        simp only [↓reduceIte, Option.map_eq_none_iff]
        rw [moved]
        constructor
        · intro outside
          obtain ⟨access, member, escapes⟩ := outside
          exact ⟨access, by simp [member], escapes⟩
        · intro outside
          obtain ⟨access, member, escapes⟩ := outside
          simp only [List.mem_append, List.mem_cons] at member
          rcases member with scan | rfl | copy | move
          · exact absurd (scanned access scan) escapes
          · exact absurd chopped escapes
          · exact absurd (copied access copy) escapes
          · exact ⟨access, move, escapes⟩

/-- The buffer before one extraction, against the returned array and the buffer after it,
    for a first newline at i. -/
structure SplitsAt (buf : List UInt8) (i : Nat) (token after : List UInt8) : Prop where
  size : token.length = i + 1
  terminated : nul ∈ token
  string : cString token = cString (buf.take i)
  kept : after.length = buf.length
  moved : after.take (buf.length - i - 1) = buf.drop (i + 1)
  reassembled : nul ∉ buf.take i →
    cString token ++ newline :: after.take (buf.length - i - 1) = buf

theorem cString_length_le (bytes : List UInt8) : (cString bytes).length ≤ bytes.length :=
  (List.takeWhile_prefix _).length_le

theorem strncpy_length (src : List UInt8) {n : Nat} (enough : n ≤ src.length) :
    (strncpy src n).length = n := by
  have bound := cString_length_le (src.take n)
  rw [List.length_take, Nat.min_eq_left enough] at bound
  rw [strncpy, List.length_append, List.length_replicate]
  omega

theorem line_split (line rest behind : List UInt8) :
    SplitsAt (line ++ newline :: rest) line.length
      (strncpy (line ++ nul :: (rest ++ behind)) (line.length + 1))
      (rest ++ (line ++ nul :: rest).drop rest.length) := by
  have size : (strncpy (line ++ nul :: (rest ++ behind)) (line.length + 1)).length =
      line.length + 1 := strncpy_length _ (by simp)
  have string := packet_of_line line (rest ++ behind)
  have left : (line ++ newline :: rest).length - line.length - 1 = rest.length := by simp
  have taken : (line ++ newline :: rest).take line.length = line := List.take_left
  have moved : (rest ++ (line ++ nul :: rest).drop rest.length).take rest.length = rest :=
    List.take_left
  constructor
  · exact size
  · apply Classical.byContradiction
    intro missing
    have whole := congrArg List.length (cString_free missing)
    have bound := cString_length_le line
    rw [string, size] at whole
    omega
  · rw [string, taken]
  · simp only [List.length_append, List.length_drop, List.length_cons]
    omega
  · rw [left, moved]
    simp
  · intro noNul
    rw [taken] at noNul
    rw [string, left, moved, cString_free noNul]

theorem first_newline {line rest : List UInt8} (free : newline ∉ line) :
    (line ++ newline :: rest).idxOf newline = line.length := by
  rw [List.idxOf_append_of_notMem free, List.idxOf_cons_self, Nat.add_zero]

theorem free_accesses {buf : List UInt8} (behind : List UInt8) (free : newline ∉ buf) :
    ∀ access ∈ extractAccesses true (buf ++ behind) buf.length, access.Within buf.length 0 := by
  rw [extractAccesses, findNewline_absent behind free _ _ (by omega), List.append_nil]
  exact findAccesses_within _ _ _ 0 (by omega)

theorem line_accesses {line rest : List UInt8} (behind : List UInt8) (free : newline ∉ line) :
    ∀ access ∈ extractAccesses true (line ++ newline :: (rest ++ behind))
        (line ++ newline :: rest).length,
      access.Within (line ++ newline :: rest).length (line.length + 1) := by
  have inside : line.length + 1 ≤ (line ++ newline :: rest).length := by simp
  rw [extractAccesses, findNewline_line free _ _ (Nat.zero_le _) (by simp)]
  intro access member
  simp only [↓reduceIte, List.mem_append, List.mem_cons] at member
  rcases member with scan | rfl | copy | move
  · exact findAccesses_within _ _ _ _ (by omega) access scan
  · show line.length < (line ++ newline :: rest).length
    omega
  · exact strncpyAccesses_within _ inside access copy
  · exact scootchAccesses_within _ _ _ _ (Nat.zero_le _) (by omega) access move

/-- With memory for the result, a call on the first bytes of an array returns NULL and
    changes nothing, or cuts those bytes at their first newline. -/
theorem extraction_splits (buf behind : List UInt8) :
    (newline ∉ buf →
      extractTokenAndConsolidateBuffer true (buf ++ behind) buf.length =
        some ⟨none, buf ++ behind⟩ ∧
      ∀ access ∈ extractAccesses true (buf ++ behind) buf.length, access.Within buf.length 0) ∧
    (newline ∈ buf → ∃ token after,
      extractTokenAndConsolidateBuffer true (buf ++ behind) buf.length =
        some ⟨some token, after ++ behind⟩ ∧
      SplitsAt buf (buf.idxOf newline) token after ∧
      ∀ access ∈ extractAccesses true (buf ++ behind) buf.length,
        access.Within buf.length token.length) := by
  constructor
  · intro free
    constructor
    · rw [extractTokenAndConsolidateBuffer, findNewline_absent behind free _ _ (by omega)]
    · exact free_accesses behind free
  · intro member
    obtain ⟨line, rest, rfl, free⟩ := List.eq_append_cons_of_mem member
    have split := line_split line rest behind
    rw [first_newline free]
    refine ⟨_, _, ?_, split, ?_⟩
    · rw [List.append_assoc, List.cons_append]
      exact extract_line_before behind free
    · rw [List.append_assoc, List.cons_append, split.size]
      exact line_accesses behind free

end TokenExtraction
