import Aesd.SectionBounds

/-! The system calls that a handler makes in a whole run. Each packet that it passes on pays
    for those of its own critical section, and no others are made. -/
namespace SectionTotals
open TransitionRuns PacketAppend PacketSteps PacketSchedules ServerState ServerSteps ServerMoves
  HandlerTransitions LogRefinement ConnectionRefinement SectionBounds

variable {s t : Server}

theorem onAnswer_grows {call next : PacketCall} {file after : OpenFile} {answer : PacketAnswer}
    (gives : call.onAnswer file answer = some (.goes after next)) :
    file.content.length ≤ after.content.length := by
  unfold PacketCall.onAnswer at gives
  split at gives
  · cases gives
    simp
  · cases gives
    simp
  · split at gives
    · cases gives
      exact Nat.le_refl _
    · cases gives
  · simp only at gives
    split at gives
    · cases gives
      exact Nat.le_refl _
    · cases gives
      exact Nat.le_refl _
  · cases gives
    exact Nat.le_refl _
  · split at gives
    · cases gives
      exact Nat.le_refl _
    · cases gives
  · cases gives

theorem stamp_grows {answer : StampAnswer} (taken : stampStep s answer = some t) :
    s.file.content.length ≤ t.file.content.length := by
  unfold stampStep at taken
  split at taken
  case h_6 =>
    cases taken
    simp
  case h_4 =>
    split at taken
    · cases taken
      exact Nat.le_refl _
    · cases taken
  all_goals
    first
    | rcases withFlag_cases (Option.some.inj taken) with ⟨_, _, rfl⟩ | ⟨_, rfl⟩ <;> exact Nat.le_refl _
    | cases taken <;> exact Nat.le_refl _

theorem file_grows {action : Action} (taken : step s action = some t) :
    s.file.content.length ≤ t.file.content.length := by
  cases step_moves taken with
  | main _ moves => cases moves <;> exact Nat.le_refl _
  | listen moves => cases moves <;> exact Nat.le_refl _
  | stamp moves =>
    have running := step_running taken
    unfold step at taken
    rw [if_pos running] at taken
    exact stamp_grows taken
  | handler handled _ =>
    obtain ⟨handler, _, transition⟩ := handlerStep_transition handled
    cases transition with
    | answers _ _ gives => exact onAnswer_grows gives
    | _ => exact Nat.le_refl _
  | client _ => exact Nat.le_refl _
  | signal moves => cases moves <;> exact Nat.le_refl _

def pendingCalls (s : Server) (conn : Nat) : Nat :=
  if s.status = .running then
    ((callOf s conn).map fun call => packetRank ⟨s.file, call⟩).getD 0
  else 0

def callBudget (size : Nat) (packets : List (List UInt8)) : Nat :=
  (packets.map fun msg => 24 * msg.length + 23 * size + 69).sum

theorem budget_grows {size larger : Nat} (grows : size ≤ larger) (packets more : List (List UInt8)) :
    callBudget size packets + callBudget larger more ≤ callBudget larger (packets ++ more) := by
  induction packets with
  | nil => simp [callBudget]
  | cons msg rest ih =>
    simp only [callBudget, List.cons_append, List.map_cons, List.sum_cons] at ih ⊢
    omega

theorem transition_apart {index conn : Nat} {handler : HandlerThread} {answer : HandlerAnswer}
    (found : s.handlers[index]? = some handler) (transition : Transition s index handler answer t)
    (apart : index ≠ conn) : callOf t conn = callOf s conn := by
  cases transition with
  | exits => rfl
  | ends => rfl
  | _ => exact (callOf_set found _ conn).trans (if_neg apart)

theorem systemCall_apart {conn : Nat} {action : Action}
    (apart : ∀ result, action ≠ .handler conn (.system result)) : systemCall conn action = false := by
  cases action with
  | handler index answer =>
    cases answer with
    | system result =>
      have other : index ≠ conn := by
        rintro rfl
        exact apart result rfl
      simp [systemCall, other]
    | _ => rfl
  | _ => rfl

/-- A handler outside its critical section makes no system call, and begins with its packet
    once it gets the mutex. -/
theorem idle_step {conn : Nat} {action : Action} (idle : callOf s conn = none)
    (taken : step s action = some t) :
    (systemCall conn action = false ∧ callOf t conn = none) ∨
      ∃ msg, systemCall conn action = false ∧ callOf t conn = some (beginPacket msg) ∧
        t.file = s.file ∧ packetsOf conn (logEvents s action) = [msg] := by
  rcases step_transition taken with ⟨index, answer, handler, rfl, found, transition⟩ | ⟨other, kept⟩
  · by_cases same : index = conn
    · subst same
      have outside : phaseCall handler.phase = none := by simpa [callOf, found] using idle
      cases transition with
      | locks here free =>
        rename_i state msg
        right
        refine ⟨msg, rfl, critical_call found, rfl, ?_⟩
        simp [logEvents, found, handlerEvents, here]
      | answers here _ _ => simp [here, phaseCall] at outside
      | exits here _ _ => simp [here, phaseCall] at outside
      | unlocks here => simp [here, phaseCall] at outside
      | ends live called receiving raises stops =>
        left
        refine ⟨systemCall_apart ?_, idle⟩
        rintro result ⟨⟩
        obtain ⟨state, call, here, _⟩ := raises result rfl
        simp [here, phaseCall] at outside
      | _ => exact Or.inl ⟨rfl, (callOf_set found _ index).trans (by rw [if_pos rfl]; rfl)⟩
    · left
      refine ⟨systemCall_apart (by simp [same]), ?_⟩
      rw [transition_apart found transition same, idle]
  · left
    refine ⟨systemCall_apart (fun result => other conn (.system result)), ?_⟩
    rw [callOf_kept kept, idle]

structure Credited (daemonMode : Bool) (file : OpenFile) (conn : Nat) (past : List Action)
    (s : Server) : Prop where
  busy : s.status = .running → ∀ call, callOf s conn = some call → Busy call
  paid : past.countP (systemCall conn) + pendingCalls s conn ≤
    callBudget s.file.content.length (packetsOf conn (logTrace daemonMode file past))

theorem pendingCalls_idle {conn : Nat} (idle : callOf s conn = none) : pendingCalls s conn = 0 := by
  simp [pendingCalls, idle]

theorem pendingCalls_le {conn : Nat} {call : PacketCall} (here : callOf s conn = some call) :
    pendingCalls s conn ≤ packetRank ⟨s.file, call⟩ := by
  unfold pendingCalls
  rw [here]
  split
  · exact Nat.le_refl _
  · exact Nat.zero_le _

theorem unlock_idle {conn : Nat} {call : PacketCall} (inside : callOf s conn = some call)
    (taken : step s (.handler conn .ok) = some t) : callOf t conn = none := by
  rcases step_transition taken with ⟨index, answer, handler, same, found, transition⟩ | ⟨other, _⟩
  · cases same
    have here : phaseCall handler.phase = some call := by simpa [callOf, found] using inside
    cases transition with
    | locks locking _ => simp [locking, phaseCall] at here
    | unlocks _ => exact (callOf_set found _ conn).trans (by rw [if_pos rfl]; rfl)
    | closes closing => simp [closing, phaseCall] at here
    | ends _ called _ _ _ => exact absurd rfl called
  · exact absurd rfl (other conn .ok)

variable {daemonMode : Bool} {file : OpenFile} {past : List Action} {conn : Nat}

theorem credited_step {action : Action} (held : Credited daemonMode file conn past s)
    (run : machine.run (boot daemonMode file) past = some s) (taken : step s action = some t) :
    Credited daemonMode file conn (past ++ [action]) t := by
  have running := step_running taken
  have events := logTrace_snoc run taken
  have paid := held.paid
  have grows := budget_grows (file_grows taken) (packetsOf conn (logTrace daemonMode file past))
    (packetsOf conn (logEvents s action))
  cases here : callOf s conn with
  | none =>
    have idle := pendingCalls_idle here
    rcases idle_step here taken with ⟨quiet, after⟩ | ⟨msg, quiet, after, same, packet⟩
    · constructor
      · simp [after]
      · rw [List.countP_append, List.countP_singleton, quiet, pendingCalls_idle after, events,
          packetsOf_append]
        simp only [Bool.false_eq_true, ↓reduceIte]
        omega
    · have rank := begin_rank msg s.file
      have pending := pendingCalls_le after
      constructor
      · rintro _ call same
        rw [after] at same
        cases same
        exact begin_busy msg
      · rw [packet] at grows
        rw [List.countP_append, List.countP_singleton, quiet, events, packetsOf_append, packet]
        simp only [callBudget, List.map_cons, List.map_nil, List.sum_cons, List.sum_nil,
          Bool.false_eq_true, ↓reduceIte, same] at grows pending paid ⊢
        omega
  | some call =>
    have inside : Inside conn s call := ⟨held.busy running call here, here⟩
    have pending : pendingCalls s conn = packetRank ⟨s.file, call⟩ := by
      simp [pendingCalls, running, here]
    by_cases keeps : action = .handler conn .ok
    · subst keeps
      have after := unlock_idle here taken
      constructor
      · simp [after]
      · rw [List.countP_append, List.countP_singleton, pendingCalls_idle after, events,
          packetsOf_append]
        simp only [systemCall, Bool.false_eq_true, ↓reduceIte]
        omega
    · rw [pending] at paid
      cases inside_step run inside taken keeps with
      | waits quiet next same =>
        have later := pendingCalls_le next.here
        rw [same] at later
        constructor
        · rintro _ call again
          rw [next.here] at again
          cases again
          exact next.busy
        · rw [List.countP_append, List.countP_singleton, quiet, events, packetsOf_append]
          simp only [Bool.false_eq_true, ↓reduceIte]
          omega
      | calls next less =>
        have later := pendingCalls_le next.here
        constructor
        · rintro _ call again
          rw [next.here] at again
          cases again
          exact next.busy
        · rw [List.countP_append, List.countP_singleton, events, packetsOf_append]
          split <;> omega
      | ends positive stops =>
        have ended : pendingCalls t conn = 0 := by simp [pendingCalls, stops]
        constructor
        · intro goes
          exact absurd goes stops
        · rw [List.countP_append, List.countP_singleton, ended, events, packetsOf_append]
          split <;> omega

theorem credited_run (run : machine.run (boot daemonMode file) past = some s) (conn : Nat) :
    Credited daemonMode file conn past s := by
  have keeps (before : List Action) (mid : Server) (action : Action) (t : Server)
      (_ : before ++ [action] <+: past) (reached : machine.run (boot daemonMode file) before = some mid)
      (held : Credited daemonMode file conn before mid) (taken : machine.step mid action = some t) :
      Credited daemonMode file conn (before ++ [action]) t :=
    credited_step held reached taken
  have start : Credited daemonMode file conn [] (boot daemonMode file) := by
    constructor
    · intro _ call here
      simp [callOf, boot] at here
    · simp [pendingCalls_idle, callOf, boot]
  exact history_front start keeps List.prefix_rfl run

theorem budget_bound {longest : Nat} (size : Nat) {packets : List (List UInt8)}
    (fits : ∀ msg ∈ packets, msg.length ≤ longest) :
    callBudget size packets ≤ packets.length * (24 * longest + 23 * size + 69) := by
  induction packets with
  | nil => simp [callBudget]
  | cons msg rest ih =>
    rw [List.forall_mem_cons] at fits
    have tail := ih fits.2
    have head := fits.1
    rw [List.length_cons, Nat.succ_mul]
    simp only [callBudget, List.map_cons, List.sum_cons] at tail ⊢
    omega

end SectionTotals
