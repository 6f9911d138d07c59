import Mathlib.Logic.Function.Basic

/-! Descriptor tables of a process, from each descriptor to the open file it refers to. -/
namespace DescriptorTable

abbrev Table (File : Type*) := Nat → Option File

variable {File : Type*}

def put (table : Table File) (fd : Nat) (file : File) : Table File :=
  Function.update table fd (some file)

def close (table : Table File) (fd : Nat) : Table File := Function.update table fd none

/-- dup2, where it succeeds. It closes the target first, unless that is the source. -/
def dup2 (table : Table File) (source target : Nat) : Table File :=
  Function.update table target (table source)

def LowestFree (table : Table File) (fd : Nat) : Prop :=
  table fd = none ∧ ∀ below, below < fd → table below ≠ none

theorem put_lookup (table : Table File) (fd : Nat) (file : File) (at_fd : Nat) :
    put table fd file at_fd = if at_fd = fd then some file else table at_fd := by
  unfold put
  rw [Function.update_apply]

theorem close_lookup (table : Table File) (fd at_fd : Nat) :
    close table fd at_fd = if at_fd = fd then none else table at_fd := by
  unfold close
  rw [Function.update_apply]

theorem dup2_lookup (table : Table File) (source target at_fd : Nat) :
    dup2 table source target at_fd = if at_fd = target then table source else table at_fd := by
  unfold dup2
  rw [Function.update_apply]

end DescriptorTable
