import Aesd.PacketAppend

/-! What the return code of duplicate_data_across_fds says about the copy. Its read loop has
    one exit for the end of the input and for a read that fails. -/
namespace CopyCompleteness
open WriteAll PacketAppend

def inputFrom (file : OpenFile) : List UInt8 := file.content.drop file.offset

def CopiesFaithfully (file : OpenFile) (copy : CopyReturn) : Prop :=
  copy.sent <+: inputFrom file ∧ (copy.code = 0 → copy.sent = inputFrom file)

/-- How many bytes successful reads bring in while the input has more than that. -/
def readSizes (reads : List Int) : List Nat := reads.map fun offer => min offer.toNat maxBufSize

/-- Chunks of these sizes go through one after the other, each before a 21st failing write. -/
def GoThrough : List Nat → List Int → Prop
  | [], _ => True
  | size :: later, socket =>
      ∃ used rest, socket = used ++ rest ∧ Completes size 0 used ∧ GoThrough later rest

/-- A read fails with input left, all that was read before it having gone through. -/
def ReadFailsEarly (file : OpenFile) (reads socket : List Int) : Prop :=
  ∃ good bad later, reads = good ++ bad :: later ∧ (∀ offer ∈ good, 0 < offer) ∧ bad ≤ 0 ∧
    file.offset + (readSizes good).sum < file.content.length ∧ GoThrough (readSizes good) socket

def chunk (file : OpenFile) (count : Nat) : List UInt8 := (inputFrom file).take count

def advanced (file : OpenFile) (count : Nat) : OpenFile := ⟨file.content, file.offset + count⟩

theorem readReturns_pos {file : OpenFile} {offer : Int} (goes : ¬ file.readReturns offer ≤ 0) :
    0 < offer ∧ (file.readReturns offer).toNat =
      min (min offer.toNat maxBufSize) (file.content.length - file.offset) ∧
      file.offset < file.content.length := by
  rw [OpenFile.readReturns] at goes ⊢
  split at goes
  · omega
  · rename_i positive
    rw [if_neg positive]
    simp only [maxBufSize] at goes ⊢
    omega

theorem readReturns_stop {file : OpenFile} {offer : Int} (stops : file.readReturns offer ≤ 0)
    (positive : 0 < offer) : file.content.length ≤ file.offset := by
  rw [OpenFile.readReturns, if_neg (by omega)] at stops
  simp only [maxBufSize] at stops
  omega

theorem inputFrom_split (file : OpenFile) (count : Nat) :
    inputFrom file = chunk file count ++ inputFrom (advanced file count) := by
  simp only [inputFrom, chunk, advanced, ← List.drop_drop, List.take_append_drop]

theorem not_early_at_end {file : OpenFile} (atEnd : file.content.length ≤ file.offset)
    (reads socket : List Int) : ¬ ReadFailsEarly file reads socket := by
  rintro ⟨good, bad, later, _, _, _, left, _⟩
  omega

theorem early_now {file : OpenFile} {offer : Int} (fails : offer ≤ 0) (later socket : List Int) :
    ReadFailsEarly file (offer :: later) socket ↔ file.offset < file.content.length := by
  constructor
  · rintro ⟨good, bad, rest, _, _, _, left, _⟩
    omega
  · intro left
    exact ⟨[], offer, later, rfl, by simp, fails, by simpa [readSizes] using left, trivial⟩

theorem early_later {file : OpenFile} {offer : Int} (goes : ¬ file.readReturns offer ≤ 0)
    (later socket : List Int) :
    ReadFailsEarly file (offer :: later) socket ↔
      ∃ used rest, socket = used ++ rest ∧ Completes (file.readReturns offer).toNat 0 used ∧
        ReadFailsEarly (advanced file (file.readReturns offer).toNat) later rest := by
  obtain ⟨positive, size, _⟩ := readReturns_pos goes
  constructor
  · rintro ⟨good, bad, behind, split, allGood, fails, left, through⟩
    cases good with
    | nil =>
      obtain ⟨rfl, _⟩ := List.cons.inj split
      omega
    | cons first good =>
      obtain ⟨rfl, rfl⟩ := List.cons.inj split
      obtain ⟨used, rest, parts, completes, onward⟩ := through
      rw [List.forall_mem_cons] at allGood
      simp only [readSizes, List.map_cons, List.sum_cons] at left
      have whole : (file.readReturns offer).toNat = min offer.toNat maxBufSize := by omega
      rw [whole]
      refine ⟨used, rest, parts, completes, good, bad, behind, rfl, allGood.2, fails, ?_, onward⟩
      simp only [advanced, readSizes]
      omega
  · rintro ⟨used, rest, parts, completes, good, bad, behind, rfl, allGood, fails, left, onward⟩
    simp only [advanced] at left
    have whole : (file.readReturns offer).toNat = min offer.toNat maxBufSize := by omega
    rw [whole] at left completes
    refine ⟨offer :: good, bad, behind, rfl, ?_, fails, ?_, used, rest, parts, completes, onward⟩
    · rw [List.forall_mem_cons]
      exact ⟨positive, allGood⟩
    · simp only [readSizes, List.map_cons, List.sum_cons] at left ⊢
      omega

/-- One round of the loop: the read stops it, write_all gives up on the chunk, or the chunk
    goes through and the copy goes on behind it. -/
inductive Round (offer : Int) (later : List Int) (file : OpenFile) (socket : List Int)
    (copy : CopyReturn) : Prop where
  | stops (read : file.readReturns offer ≤ 0) (code : copy.code = 0) (sent : copy.sent = [])
  | givesUp (read : ¬ file.readReturns offer ≤ 0) (used unused : List Int)
      (code : copy.code = -1) (split : socket = used ++ unused)
      (sent : copy.sent = (chunk file (file.readReturns offer).toNat).take (gained used))
      (gaveUp : GivesUp (file.readReturns offer).toNat 0 used)
  | goesOn (read : ¬ file.readReturns offer ≤ 0) (used unused : List Int) (rest : CopyReturn)
      (code : copy.code = rest.code) (split : socket = used ++ unused)
      (sent : copy.sent = chunk file (file.readReturns offer).toNat ++ rest.sent)
      (completes : Completes (file.readReturns offer).toNat 0 used)
      (copied : duplicateDataAcrossFds later (advanced file (file.readReturns offer).toNat) unused =
        some rest)

theorem copy_round {offer : Int} {later : List Int} {file : OpenFile} {socket : List Int}
    {copy : CopyReturn} (copied : duplicateDataAcrossFds (offer :: later) file socket = some copy) :
    Round offer later file socket copy := by
  simp only [duplicateDataAcrossFds] at copied
  split at copied
  · rename_i stops
    obtain rfl := Option.some.inj copied
    exact .stops stops rfl rfl
  · rename_i goes
    obtain ⟨_, size, _⟩ := readReturns_pos goes
    have length : (chunk file (file.readReturns offer).toNat).length =
        (file.readReturns offer).toNat := by
      simp only [chunk, inputFrom, List.length_take, List.length_drop]
      omega
    split at copied
    · simp at copied
    · rename_i ret handed
      rw [← inputFrom, ← chunk] at handed
      split at copied
      · rename_i gaveUp
        obtain rfl := Option.some.inj copied
        cases writeAll_outcome handed with
        | whole used code => exact absurd (gaveUp.symm.trans code) (by decide)
        | partway used code bytes split givesUp =>
          exact .givesUp goes used ret.unused rfl split bytes (length ▸ givesUp)
      · rename_i went
        obtain ⟨rest, restCopied, rfl⟩ := Option.map_eq_some_iff.mp copied
        cases writeAll_outcome handed with
        | partway used code => exact absurd code went
        | whole used code bytes split completes =>
          exact .goesOn goes used ret.unused rest rfl split (by simp only [bytes])
            (length ▸ completes) restCopied

theorem copy_sends_prefix {reads : List Int} {file : OpenFile} {socket : List Int}
    {copy : CopyReturn} (copied : duplicateDataAcrossFds reads file socket = some copy) :
    copy.sent <+: inputFrom file := by
  induction reads generalizing file socket copy with
  | nil => simp [duplicateDataAcrossFds] at copied
  | cons offer later ih =>
    cases copy_round copied with
    | stops read code sent =>
      rw [sent]
      exact List.nil_prefix
    | givesUp read used unused code split sent gaveUp =>
      rw [sent]
      exact (List.take_prefix _ _).trans (List.take_prefix _ _)
    | goesOn read used unused rest code split sent completes restCopied =>
      rw [sent, inputFrom_split file (file.readReturns offer).toNat]
      exact (List.prefix_append_right_inj _).mpr (ih restCopied)

theorem success_iff {reads : List Int} {file : OpenFile} {socket : List Int} {copy : CopyReturn}
    (copied : duplicateDataAcrossFds reads file socket = some copy) :
    (copy.code = 0 → copy.sent = inputFrom file) ↔ ¬ ReadFailsEarly file reads socket := by
  induction reads generalizing file socket copy with
  | nil => simp [duplicateDataAcrossFds] at copied
  | cons offer later ih =>
    cases copy_round copied with
    | stops read code sent =>
      have nothing : ([] = inputFrom file) ↔ file.content.length ≤ file.offset := by
        rw [eq_comm, inputFrom, List.drop_eq_nil_iff]
      simp only [code, sent, true_imp_iff, nothing]
      by_cases fails : offer ≤ 0
      · rw [early_now fails, Nat.not_lt]
      · have atEnd := readReturns_stop read (by omega)
        simp [atEnd, not_early_at_end atEnd]
    | givesUp read used unused code split sent gaveUp =>
      have blocked : ¬ ReadFailsEarly file (offer :: later) socket := by
        rw [early_later read]
        rintro ⟨other, rest, parts, completes, _⟩
        exact completes_not_givesUp (parts.symm.trans split) completes gaveUp
      simp [blocked, code]
    | goesOn read used unused rest code split sent completes restCopied =>
      have onward : ReadFailsEarly file (offer :: later) socket ↔
          ReadFailsEarly (advanced file (file.readReturns offer).toNat) later unused := by
        rw [early_later read]
        constructor
        · rintro ⟨other, behind, parts, otherCompletes, early⟩
          obtain ⟨_, rfl⟩ := completes_unique (parts.symm.trans split) otherCompletes completes
          exact early
        · intro early
          exact ⟨used, unused, split, completes, early⟩
      rw [onward, ← ih restCopied, code, sent, inputFrom_split file (file.readReturns offer).toNat,
        List.append_cancel_left_eq]

/-- Every copy is a prefix of the input, and a successful one is complete exactly when no
    read fails before the end of the input, or write_all has given up before it does. -/
theorem copy_is_faithful_iff {reads : List Int} {file : OpenFile} {socket : List Int}
    {copy : CopyReturn} (copied : duplicateDataAcrossFds reads file socket = some copy) :
    copy.sent <+: inputFrom file ∧
      (CopiesFaithfully file copy ↔ ¬ ReadFailsEarly file reads socket) := by
  have sends := copy_sends_prefix copied
  refine ⟨sends, ?_⟩
  rw [← success_iff copied]
  exact and_iff_right sends

theorem short_reads_copy_everything :
    CopiesFaithfully ⟨[120, 121, 122], 1⟩ ⟨0, [121, 122], ⟨[120, 121, 122], 3⟩, []⟩ := by
  have copied : duplicateDataAcrossFds [1, 5, 1] ⟨[120, 121, 122], 1⟩ [1, -1, 1] =
      some ⟨0, [121, 122], ⟨[120, 121, 122], 3⟩, []⟩ := rfl
  refine (copy_is_faithful_iff copied).2.mpr ?_
  rintro ⟨good, bad, later, split, _, fails, _⟩
  have member : bad ∈ ([1, 5, 1] : List Int) := by simp [split]
  simp only [List.mem_cons, List.not_mem_nil, or_false] at member
  omega

theorem failed_read_looks_like_the_end :
    duplicateDataAcrossFds [1, -1] ⟨[120, 121, 122], 0⟩ [1] =
        some ⟨0, [120], ⟨[120, 121, 122], 1⟩, []⟩ ∧
      ¬ CopiesFaithfully ⟨[120, 121, 122], 0⟩ ⟨0, [120], ⟨[120, 121, 122], 1⟩, []⟩ := by
  refine ⟨rfl, ?_⟩
  rintro ⟨_, complete⟩
  exact absurd (complete rfl) (by decide)

end CopyCompleteness
