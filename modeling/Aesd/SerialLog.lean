import Mathlib.Data.List.Basic

/-! An append-only log seen by its writers. Each append names its owner, and an owner
    that reads the log right after an append of its own reads a snapshot. -/
namespace SerialLog
variable {Owner α : Type*}

def contents (base : List α) (appends : List (Owner × List α)) : List α :=
  base ++ (appends.map Prod.snd).flatten

theorem contents_nil (base : List α) : contents base ([] : List (Owner × List α)) = base := by
  simp [contents]

theorem contents_cons (base : List α) (first : Owner × List α) (later : List (Owner × List α)) :
    contents base (first :: later) = contents (base ++ first.2) later := by
  simp [contents]

theorem contents_snoc (base : List α) (appends : List (Owner × List α)) (last : Owner × List α) :
    contents base (appends ++ [last]) = contents base appends ++ last.2 := by
  simp [contents]

variable [DecidableEq Owner]

def recordsOf (owner : Owner) (appends : List (Owner × List α)) : List (List α) :=
  (appends.filter fun append => append.1 = owner).map Prod.snd

def snapshotsOf (owner : Owner) : List α → List (Owner × List α) → List (List α)
  | _, [] => []
  | base, (writer, record) :: later =>
      if writer = owner then
        (base ++ record) :: snapshotsOf owner (base ++ record) later
      else snapshotsOf owner (base ++ record) later

theorem recordsOf_own (owner : Owner) (appends : List (Owner × List α)) (record : List α) :
    recordsOf owner (appends ++ [(owner, record)]) = recordsOf owner appends ++ [record] := by
  simp [recordsOf]

theorem recordsOf_other {owner writer : Owner} (other : writer ≠ owner)
    (appends : List (Owner × List α)) (record : List α) :
    recordsOf owner (appends ++ [(writer, record)]) = recordsOf owner appends := by
  simp [recordsOf, other]

theorem snapshotsOf_own (owner : Owner) (base : List α) (appends : List (Owner × List α))
    (record : List α) :
    snapshotsOf owner base (appends ++ [(owner, record)]) =
      snapshotsOf owner base appends ++ [contents base (appends ++ [(owner, record)])] := by
  induction appends generalizing base with
  | nil => simp [snapshotsOf, contents]
  | cons first later ih =>
    simp only [List.cons_append, snapshotsOf, ih, contents_cons]
    split <;> simp

theorem snapshotsOf_other {owner writer : Owner} (other : writer ≠ owner) (base : List α)
    (appends : List (Owner × List α)) (record : List α) :
    snapshotsOf owner base (appends ++ [(writer, record)]) = snapshotsOf owner base appends := by
  induction appends generalizing base with
  | nil => simp [snapshotsOf, other]
  | cons first later ih => simp only [List.cons_append, snapshotsOf, ih]

theorem snapshot_front {owner : Owner} {base : List α} {appends : List (Owner × List α)}
    {snapshot : List α} (member : snapshot ∈ snapshotsOf owner base appends) :
    ∃ front, front <+: appends ∧ snapshot = contents base front := by
  induction appends generalizing base with
  | nil => simp [snapshotsOf] at member
  | cons first later ih =>
    have further (inside : snapshot ∈ snapshotsOf owner (base ++ first.2) later) :
        ∃ front, front <+: first :: later ∧ snapshot = contents base front := by
      obtain ⟨front, prefixed, same⟩ := ih inside
      exact ⟨first :: front, List.cons_prefix_cons.mpr ⟨rfl, prefixed⟩,
        same.trans (contents_cons base first front).symm⟩
    simp only [snapshotsOf] at member
    split at member
    · rcases List.mem_cons.mp member with rfl | inside
      · exact ⟨[first], ⟨later, rfl⟩, by simp [contents]⟩
      · exact further inside
    · exact further member

theorem records_of_member {owner : Owner} {record : List α} {appends : List (Owner × List α)} :
    record ∈ recordsOf owner appends ↔ (owner, record) ∈ appends := by
  simp [recordsOf, eq_comm]

theorem recordsOf_map {β : Type*} (f : List α → List β) (owner : Owner)
    (appends : List (Owner × List α)) :
    recordsOf owner (appends.map fun append => (append.1, f append.2)) =
      (recordsOf owner appends).map f := by
  simp only [recordsOf, List.filter_map, List.map_map]
  rfl

end SerialLog
