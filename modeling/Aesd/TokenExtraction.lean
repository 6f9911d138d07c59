import Mathlib.Data.List.TakeWhile
import Aesd.SeparatedSegments

/-! The in-place line extraction of the server. The buffer is the list of bytes that can
    be read at the pointer, a NULL pointer having none; none as a result is an access
    outside it. -/
namespace TokenExtraction
open SeparatedSegments

abbrev newline : UInt8 := 10
abbrev nul : UInt8 := 0

@[simp] theorem newline_ne_nul : newline ≠ nul := by decide

/-- The first loop, with left = len - i iterations to go. -/
def findNewline (buf : List UInt8) : Nat → Nat → Option (Option Nat)
  | 0, _ => some none
  | left + 1, i =>
      match buf[i]? with
      | none => none
      | some c => if c = newline then some (some i) else findNewline buf left (i + 1)

/-- The second loop moves buf[i] to buf[j], both advancing, left times. -/
def scootch : Nat → Nat → Nat → List UInt8 → Option (List UInt8)
  | 0, _, _, buf => some buf
  | left + 1, j, i, buf =>
      match buf[i]? with
      | none => none
      | some c => if j < buf.length then scootch left (j + 1) (i + 1) (buf.set j c) else none

def cString (bytes : List UInt8) : List UInt8 := bytes.takeWhile (· ≠ nul)

def strncpy (src : List UInt8) (n : Nat) : List UInt8 :=
  cString (src.take n) ++ List.replicate (n - (cString (src.take n)).length) nul

/-- The returned array, none being NULL, and the buffer it leaves. -/
structure Extraction where
  token : Option (List UInt8)
  buf : List UInt8
  deriving DecidableEq, Repr

def extractTokenAndConsolidateBuffer (allocOk : Bool) (buf : List UInt8) (len : Nat) :
    Option Extraction :=
  match findNewline buf len 0 with
  | none => none
  | some none => some ⟨none, buf⟩
  | some (some i) =>
      let chopped := buf.set i nul
      if allocOk then
        (scootch (len - (i + 1)) 0 (i + 1) chopped).map
          fun moved => ⟨some (strncpy chopped (i + 1)), moved⟩
      else some ⟨none, chopped⟩

theorem findNewline_absent {buf : List UInt8} (behind : List UInt8) (free : newline ∉ buf)
    (left i : Nat) (inside : i + left ≤ buf.length) :
    findNewline (buf ++ behind) left i = some none := by
  induction left generalizing i with
  | zero => rfl
  | succ left ih =>
    have bound : i < buf.length := by omega
    have other : buf[i] ≠ newline := fun same => free (same ▸ List.getElem_mem bound)
    rw [findNewline, List.getElem?_append_left bound, List.getElem?_eq_getElem bound]
    simp only [other, ↓reduceIte]
    exact ih (i + 1) (by omega)

theorem findNewline_free {buf : List UInt8} (free : newline ∉ buf) (left i : Nat)
    (inside : i + left ≤ buf.length) : findNewline buf left i = some none := by
  simpa only [List.append_nil] using findNewline_absent [] free left i inside

theorem findNewline_line {line rest : List UInt8} (free : newline ∉ line) (left i : Nat)
    (start : i ≤ line.length) (reaches : line.length < i + left) :
    findNewline (line ++ newline :: rest) left i = some (some line.length) := by
  induction left generalizing i with
  | zero => omega
  | succ left ih =>
    by_cases here : i = line.length
    · subst i
      simp [findNewline]
    · have bound : i < line.length := by omega
      have other : (line)[i] ≠ newline := fun same => free (same ▸ List.getElem_mem bound)
      rw [findNewline, List.getElem?_append_left bound, List.getElem?_eq_getElem bound]
      simp only [other, ↓reduceIte]
      exact ih (i + 1) (by omega) (by omega)

/-- The overlapping forward move reads each source byte before it is overwritten, and
    leaves what is behind its target as it was. -/
theorem scootch_inside {buf : List UInt8} {left j i : Nat} (inside : i + left ≤ buf.length)
    (behind : j < i) : scootch left j i buf =
      some (buf.take j ++ ((buf.drop i).take left ++ buf.drop (j + left))) := by
  induction left generalizing buf j i with
  | zero =>
    rw [scootch, List.take_zero, List.nil_append, Nat.add_zero, List.take_append_drop]
  | succ left ih =>
    have bound : i < buf.length := by omega
    have target : j < buf.length := by omega
    rw [scootch, List.getElem?_eq_getElem bound]
    simp only [target, ↓reduceIte]
    rw [ih (by rw [List.length_set]; omega) (by omega)]
    rw [List.drop_set_of_lt (by omega), List.drop_set_of_lt (by omega),
      List.take_succ_eq_append_getElem (by rwa [List.length_set]), List.take_set_of_le (Nat.le_refl j),
      List.getElem_set_self, show j + 1 + left = j + (left + 1) by omega]
    conv => rhs; rw [List.drop_eq_getElem_cons bound, List.take_succ_cons]
    simp only [List.append_assoc, List.cons_append, List.nil_append]

theorem cString_free {bytes : List UInt8} (free : nul ∉ bytes) : cString bytes = bytes := by
  rw [cString, List.takeWhile_eq_self_iff]
  intro c member
  exact decide_eq_true (fun same => free (same ▸ member))

theorem cString_terminated {bytes rest : List UInt8} (free : nul ∉ bytes) :
    cString (bytes ++ nul :: rest) = bytes := by
  rw [cString, List.takeWhile_append_of_pos]
  · simp
  · intro c member
    exact decide_eq_true (fun same => free (same ▸ member))

theorem cString_free_of_nul (bytes : List UInt8) : nul ∉ cString bytes := by
  intro member
  simpa using List.mem_takeWhile_imp member

theorem cString_strncpy (src : List UInt8) (n : Nat) :
    cString (strncpy src n) = cString (src.take n) := by
  have free := cString_free_of_nul (src.take n)
  rw [strncpy]
  cases n - (cString (src.take n)).length with
  | zero => rw [List.replicate_zero, List.append_nil, cString_free free]
  | succ pad => rw [List.replicate_succ, cString_terminated free]

theorem extract_free {buf : List UInt8} (free : newline ∉ buf) (allocOk : Bool) :
    extractTokenAndConsolidateBuffer allocOk buf buf.length = some ⟨none, buf⟩ := by
  rw [extractTokenAndConsolidateBuffer, findNewline_free free _ _ (by omega)]

/-- One extraction cuts the first line off and moves the rest to the front. The vacated
    end of the buffer keeps its old bytes, but for the newline that became a terminator,
    and the memory behind the buffer is left alone. -/
theorem extract_line_before {line rest : List UInt8} (behind : List UInt8)
    (free : newline ∉ line) :
    extractTokenAndConsolidateBuffer true (line ++ newline :: (rest ++ behind))
        (line ++ newline :: rest).length =
      some ⟨some (strncpy (line ++ nul :: (rest ++ behind)) (line.length + 1)),
        rest ++ (line ++ nul :: rest).drop rest.length ++ behind⟩ := by
  have chopped : (line ++ newline :: (rest ++ behind)).set line.length nul =
      line ++ nul :: (rest ++ behind) := by simp
  have size : (line ++ newline :: rest).length - (line.length + 1) = rest.length := by
    simp only [List.length_append, List.length_cons]
    omega
  have kept : (line ++ nul :: (rest ++ behind)).drop rest.length =
      (line ++ nul :: rest).drop rest.length ++ behind := by
    rw [← List.cons_append, ← List.append_assoc, List.drop_append_of_le_length]
    simp only [List.length_append, List.length_cons]
    omega
  rw [extractTokenAndConsolidateBuffer,
    findNewline_line free _ _ (Nat.zero_le _) (by simp)]
  simp only [↓reduceIte, chopped, size]
  rw [scootch_inside (by simp only [List.length_append, List.length_cons]; omega) (by omega)]
  simp [kept]

theorem extract_line {line rest : List UInt8} (free : newline ∉ line) :
    extractTokenAndConsolidateBuffer true (line ++ newline :: rest)
        (line ++ newline :: rest).length =
      some ⟨some (strncpy (line ++ nul :: rest) (line.length + 1)),
        rest ++ (line ++ nul :: rest).drop rest.length⟩ := by
  simpa only [List.append_nil] using @extract_line_before line rest [] free

/-- On a whole buffer an extraction stays inside, whatever calloc does. -/
theorem extract_keeps_size (allocOk : Bool) (buf : List UInt8) :
    ∃ extraction, extractTokenAndConsolidateBuffer allocOk buf buf.length = some extraction ∧
      extraction.buf.length = buf.length := by
  by_cases member : newline ∈ buf
  · obtain ⟨line, rest, rfl, free⟩ := List.eq_append_cons_of_mem member
    cases allocOk with
    | true =>
      refine ⟨_, extract_line free, ?_⟩
      simp only [List.length_append, List.length_drop, List.length_cons]
      omega
    | false =>
      rw [extractTokenAndConsolidateBuffer, findNewline_line free _ _ (Nat.zero_le _) (by simp)]
      exact ⟨_, rfl, List.length_set ..⟩
  · exact ⟨_, extract_free member allocOk, rfl⟩

theorem packet_of_line (line rest : List UInt8) :
    cString (strncpy (line ++ nul :: rest) (line.length + 1)) = cString line := by
  rw [cString_strncpy]
  have cut : (line ++ nul :: rest).take (line.length + 1) = line ++ [nul] := by
    rw [← List.singleton_append, ← List.append_assoc, List.take_left' (by simp)]
  rw [cut, cString, List.takeWhile_append]
  split
  · rename_i whole
    have self : cString line = line :=
      (List.takeWhile_prefix _).eq_of_length whole
    simp [self]
  · rfl

end TokenExtraction
