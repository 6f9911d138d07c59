import Aesd.DescriptorUse
import Aesd.PaddedDecimals

/-! The names that listen_loop gives to its handler threads. The connection number is the
    number of the handler, and the array has sixteen bytes and the NUL. -/
namespace ThreadNames
open TransitionRuns PaddedDecimals PacketAppend ReceiveLoop ServerState ServerSteps
  HandlerDispatch DescriptorUse

/-- %3s -/
def alignedRight (text : List Char) : List Char := List.replicate (3 - text.length) ' ' ++ text

def tag (number : Int) : List Char :=
  if 0 ≤ number ∧ number < 999 then padded 3 number.toNat else alignedRight ['x', 'x', 'x']

/-- snprintf stores fifteen characters at most. -/
def getThreadName (connectionSocketFd connectionNumber : Int) : List Char :=
  (['C', 'N', 'C', 'T', 'N', '-'] ++ alignedRight (tag connectionSocketFd) ++
    '-' :: alignedRight (tag connectionNumber)).take 15

/-- A number that has a tag of its own. -/
def Told (number : Int) : Prop := 0 ≤ number ∧ number < 999

theorem tag_length (number : Int) : (tag number).length = 3 := by
  unfold tag
  split
  · exact padded_length (by omega) (by omega)
  · rfl

theorem alignedRight_tag (number : Int) : alignedRight (tag number) = tag number := by
  rw [alignedRight, tag_length]
  rfl

theorem getThreadName_eq (fd number : Int) :
    getThreadName fd number = ['C', 'N', 'C', 'T', 'N', '-'] ++ (tag fd ++ '-' :: tag number) := by
  rw [getThreadName, alignedRight_tag, alignedRight_tag, List.append_assoc]
  apply List.take_of_length_le
  simp [tag_length]

theorem getThreadName_length (fd number : Int) : (getThreadName fd number).length = 13 := by
  rw [getThreadName_eq]
  simp [tag_length]

theorem padded_not_untold (n : Nat) : padded 3 n ≠ alignedRight ['x', 'x', 'x'] := by
  intro same
  have digits := padded_digits 3 n 'x' (by rw [same]; decide)
  revert digits
  decide

theorem tag_eq {first second : Int} (same : tag first = tag second) :
    first = second ∨ ¬ Told first ∧ ¬ Told second := by
  unfold tag at same
  unfold Told
  split at same
  · rename_i told
    split at same
    · have values := padded_injective same
      omega
    · exact absurd same (padded_not_untold _)
  · rename_i untold
    split at same
    · exact absurd same.symm (padded_not_untold _)
    · rename_i alike
      exact Or.inr ⟨untold, alike⟩

theorem name_eq {fd number otherFd otherNumber : Int}
    (same : getThreadName fd number = getThreadName otherFd otherNumber) :
    (fd = otherFd ∨ ¬ Told fd ∧ ¬ Told otherFd) ∧
      (number = otherNumber ∨ ¬ Told number ∧ ¬ Told otherNumber) := by
  rw [getThreadName_eq, getThreadName_eq] at same
  have tags := List.append_cancel_left same
  obtain ⟨fds, numbers⟩ := List.append_inj tags (by rw [tag_length, tag_length])
  exact ⟨tag_eq fds, tag_eq (List.cons.inj numbers).2⟩

/-- Two connections that are open have descriptors of their own. -/
theorem open_apart {s : Server} {i j : Nat} {first second : HandlerThread}
    (apart : (openFds s).Nodup) (less : i < j) (found : s.handlers[i]? = some first)
    (other : s.handlers[j]? = some second) (live : first.phase ≠ .finished)
    (alive : second.phase ≠ .finished) : first.sockfd ≠ second.sockfd := by
  unfold openFds List.reduceOption at apart
  rw [List.filterMap_map, List.Nodup, List.pairwise_filterMap, List.pairwise_iff_getElem] at apart
  obtain ⟨inside, rfl⟩ := List.getElem?_eq_some_iff.mp found
  obtain ⟨within, rfl⟩ := List.getElem?_eq_some_iff.mp other
  apply apart i j inside within less
  · simp [openFd, live]
  · simp [openFd, alive]

/-- In every run two handlers bear different names if one of them is among the first 999, or
    if both are at work and one of the descriptors is below 999. -/
theorem thread_names_tell_apart {daemonMode : Bool} {file : OpenFile} {actions : List Action}
    {s : Server} (run : machine.run (boot daemonMode file) actions = some s) {i j : Nat}
    {first second : HandlerThread} (less : i < j) (found : s.handlers[i]? = some first)
    (other : s.handlers[j]? = some second)
    (told : i < 999 ∨ first.phase ≠ .finished ∧ second.phase ≠ .finished ∧
      (Told first.sockfd ∨ Told second.sockfd)) :
    getThreadName first.sockfd i ≠ getThreadName second.sockfd j := by
  intro same
  obtain ⟨fds, numbers⟩ := name_eq same
  rcases told with early | ⟨live, alive, told⟩
  · unfold Told at numbers
    omega
  · obtain ⟨_, held⟩ := descriptors_run run
    have mine := held.books.apart
    simp only [heldFds, owned, List.nodup_append] at mine
    rcases fds with alike | untold
    · exact absurd alike (open_apart (by tauto) less found other live alive)
    · tauto

def twoConnections : List Action :=
  startup ++ oneClient ++ [.listen .ok, .listen .ok, .listen .ok, .listen .ok,
    .listen (.accepted ⟨6, ⟨[], false, false, 0⟩⟩), .listen .ok, .listen .ok, .listen .ok, .listen .ok]

theorem two_connections_are_told_apart :
    getThreadName 5 (0 : Nat) ≠ getThreadName 6 (1 : Nat) := by
  obtain ⟨s, run, found, other⟩ : ∃ s, machine.run (boot false ⟨[], 0⟩) twoConnections = some s ∧
      s.handlers[0]? = some ⟨5, ⟨[], false, false, 0⟩, .recv startReceiving, false⟩ ∧
        s.handlers[1]? = some ⟨6, ⟨[], false, false, 0⟩, .begin, false⟩ := ⟨_, rfl, rfl, rfl⟩
  have apart := thread_names_tell_apart run Nat.zero_lt_one found other (Or.inl (by omega))
  exact apart

end ThreadNames
