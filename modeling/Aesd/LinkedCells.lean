import Mathlib.Data.List.Basic

/-! An intrusive singly linked list: cells in a heap, each with the address of the next.
    Cells are never reused, and an access to a freed one has no result. -/
namespace LinkedCells
variable {α : Type*}

structure Cell (α : Type*) where
  value : α
  next : Option Nat
  freed : Bool
  deriving DecidableEq, Repr

/-- The head and the heap. The address of a cell is its index. -/
structure LinkedList (α : Type*) where
  first : Option Nat
  cells : List (Cell α)
  deriving DecidableEq, Repr

def read (cells : List (Cell α)) (p : Nat) : Option (Cell α) :=
  match cells[p]? with
  | some cell => if cell.freed then none else some cell
  | none => none

def insertHead (list : LinkedList α) (value : α) : LinkedList α :=
  ⟨some list.cells.length, list.cells ++ [⟨value, list.first, false⟩]⟩

/-- Walks from the cell at cur to the one before target and unlinks target there. -/
def unlinkAfter (target : Nat) : Nat → List (Cell α) → Nat → Option (List (Cell α))
  | 0, _, _ => none
  | fuel + 1, cells, cur =>
      match read cells cur with
      | none => none
      | some cell =>
          match cell.next with
          | none => none
          | some next =>
              if next = target then
                (read cells target).map fun removed =>
                  cells.set cur { cell with next := removed.next }
              else unlinkAfter target fuel cells next

def remove (list : LinkedList α) (target : Nat) : Option (LinkedList α) :=
  match list.first with
  | none => none
  | some p =>
      if p = target then
        (read list.cells target).map fun removed => ⟨removed.next, list.cells⟩
      else (unlinkAfter target list.cells.length list.cells p).map fun cells => ⟨some p, cells⟩

def free (list : LinkedList α) (p : Nat) : Option (LinkedList α) :=
  (read list.cells p).map fun cell => ⟨list.first, list.cells.set p { cell with freed := true }⟩

/-- Following the pointers from start visits exactly the cells of path, none of them freed. -/
def Chain (cells : List (Cell α)) : Option Nat → List Nat → Prop
  | start, [] => start = none
  | start, p :: rest => start = some p ∧ ∃ cell, read cells p = some cell ∧ Chain cells cell.next rest

theorem read_eq_some_iff {cells : List (Cell α)} {p : Nat} {cell : Cell α} :
    read cells p = some cell ↔ cells[p]? = some cell ∧ cell.freed = false := by
  unfold read
  split
  · rename_i found at_p
    rw [at_p, Option.some.injEq]
    by_cases gone : found.freed
    · simp only [gone, ↓reduceIte, reduceCtorEq, false_iff]
      rintro ⟨rfl, live⟩
      simp [gone] at live
    · simp only [gone, Bool.false_eq_true, ↓reduceIte, Option.some.injEq, iff_self_and]
      rintro rfl
      simpa using gone
  · rename_i absent
    simp [absent]

theorem read_append {cells : List (Cell α)} {p : Nat} {cell : Cell α}
    (here : read cells p = some cell) (more : List (Cell α)) :
    read (cells ++ more) p = some cell := by
  obtain ⟨at_p, live⟩ := read_eq_some_iff.mp here
  obtain ⟨inside, _⟩ := List.getElem?_eq_some_iff.mp at_p
  exact read_eq_some_iff.mpr ⟨by rw [List.getElem?_append_left inside, at_p], live⟩

theorem read_set_other {cells : List (Cell α)} {p q : Nat} (other : p ≠ q) (cell : Cell α) :
    read (cells.set p cell) q = read cells q := by
  simp only [read, List.getElem?_set_ne other]

theorem chain_append {cells : List (Cell α)} {start : Option Nat} {path : List Nat}
    (chain : Chain cells start path) (more : List (Cell α)) : Chain (cells ++ more) start path := by
  induction path generalizing start with
  | nil => exact chain
  | cons p rest ih =>
    obtain ⟨here, cell, found, tail⟩ := chain
    exact ⟨here, cell, read_append found more, ih tail⟩

theorem chain_insertHead {list : LinkedList α} {path : List Nat}
    (chain : Chain list.cells list.first path) (value : α) :
    Chain (insertHead list value).cells (insertHead list value).first
      (list.cells.length :: path) := by
  refine ⟨rfl, ⟨value, list.first, false⟩, read_eq_some_iff.mpr ⟨?_, rfl⟩, ?_⟩
  · simp [insertHead]
  · exact chain_append chain _

/-- Removing the first cell needs no search and leaves every cell as it is. -/
theorem remove_first {list : LinkedList α} {p : Nat} {rest : List Nat}
    (chain : Chain list.cells list.first (p :: rest)) :
    ∃ cell, read list.cells p = some cell ∧ remove list p = some ⟨cell.next, list.cells⟩ ∧
      Chain list.cells cell.next rest := by
  obtain ⟨here, cell, found, tail⟩ := chain
  exact ⟨cell, found, by simp [remove, here, found], tail⟩

theorem chain_free {list after : LinkedList α} {p : Nat} {start : Option Nat} {path : List Nat}
    (chain : Chain list.cells start path) (apart : p ∉ path) (freed : free list p = some after) :
    Chain after.cells start path := by
  obtain ⟨cell, _, rfl⟩ := Option.map_eq_some_iff.mp freed
  induction path generalizing start with
  | nil => exact chain
  | cons q rest ih =>
    obtain ⟨here, found, at_q, tail⟩ := chain
    simp only [List.mem_cons, not_or] at apart
    exact ⟨here, found, by rw [read_set_other apart.1, at_q], ih tail apart.2⟩

theorem free_lookup {list after : LinkedList α} {p q : Nat} {cell : Cell α}
    (freed : free list p = some after) (found : after.cells[q]? = some cell) :
    ∃ old, list.cells[q]? = some old ∧ cell.value = old.value ∧
      (cell.freed = true ↔ q = p ∨ old.freed = true) := by
  obtain ⟨gone, here, rfl⟩ := Option.map_eq_some_iff.mp freed
  have at_p := (read_eq_some_iff.mp here).1
  by_cases same : p = q
  · subst same
    obtain ⟨inside, _⟩ := List.getElem?_eq_some_iff.mp at_p
    simp only [List.getElem?_set_self inside, Option.some.injEq] at found
    subst found
    exact ⟨gone, at_p, rfl, by simp⟩
  · simp only [List.getElem?_set_ne same] at found
    exact ⟨cell, found, rfl, by simp [Ne.symm same]⟩

def walk (cells : List (Cell α)) : Nat → Option Nat → List α
  | 0, _ => []
  | _ + 1, none => []
  | fuel + 1, some p =>
      match read cells p with
      | none => []
      | some cell => cell.value :: walk cells fuel cell.next

def LinkedList.values (list : LinkedList α) : List α :=
  walk list.cells list.cells.length list.first

theorem chain_walk {cells : List (Cell α)} {value : Nat → α}
    (valued : ∀ p cell, cells[p]? = some cell → cell.value = value p) {start : Option Nat}
    {path : List Nat} (chain : Chain cells start path) {fuel : Nat} (enough : path.length ≤ fuel) :
    walk cells fuel start = path.map value := by
  induction path generalizing start fuel with
  | nil =>
    obtain rfl : start = none := chain
    cases fuel <;> rfl
  | cons p rest ih =>
    obtain ⟨rfl, cell, found, tail⟩ := chain
    obtain ⟨fuel, rfl⟩ := Nat.exists_eq_succ_of_ne_zero (by simp at enough; omega : fuel ≠ 0)
    have here := valued p cell (read_eq_some_iff.mp found).1
    simp only [walk, found, here, List.map_cons]
    rw [ih tail (by simpa using enough)]

end LinkedCells
