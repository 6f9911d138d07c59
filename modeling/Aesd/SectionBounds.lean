import Aesd.ConnectionRefinement
import Aesd.SerialCommits

/-! How long a handler can keep the file mutex. Neither errors nor short writes, nor what
    other threads do meanwhile, make handle_packet go on for ever: the number of its system
    calls is bounded by the sizes of the packet and of the file when it got the mutex. -/
namespace SectionBounds
open TransitionRuns WriteAll PacketAppend PacketSteps PacketSchedules ServerState ServerSteps
  ServerMoves HandlerTransitions LogRefinement SerialCommits

/-- What a loop of write_all can still call write, all failures included. -/
def loopRank (loop : WriteLoop) : Nat := loop.rest.length + (maxFailCount + 1 - loop.failCount)

/-- The copy of count bytes to the socket. Each chunk of at least one byte costs its read,
    a write for each byte and the failures of one write_all. -/
def copyRank (count : Nat) : Nat := 23 * count + 2

def newlineRank (size : Nat) : Nat := maxFailCount + 3 + copyRank (size + 1)

def packetRank (s : PacketState) : Nat :=
  match s.call.phase with
  | .writeMsg loop => loopRank loop + newlineRank (s.file.content.length + loop.rest.length)
  | .writeNewline loop => loopRank loop + 1 + copyRank (s.file.content.length + loop.rest.length)
  | .rewind => 1 + copyRank s.file.content.length
  | .read => copyRank (s.file.content.length - s.file.offset)
  | .echo loop => loopRank loop + copyRank (s.file.content.length - s.file.offset)
  | .seekEnd => 1
  | .unlock => 0

theorem begin_rank (msg : List UInt8) (file : OpenFile) :
    packetRank ⟨file, beginPacket msg⟩ ≤ 24 * msg.length + 23 * file.content.length + 69 := by
  unfold packetRank beginPacket
  by_cases empty : msg = []
  · simp only [empty, ↓reduceIte, beginNewline, loopRank, copyRank, newlineArray, maxFailCount]
    simp only [List.length_cons, List.length_nil]
    omega
  · simp only [empty, ↓reduceIte, loopRank, newlineRank, copyRank, maxFailCount]
    omega

/-- One write: the loop is done, gives up or goes on with less to do. -/
theorem writeOn_rank {loop : WriteLoop} (busy : loop.rest ≠ []) (offer : Int)
    (more : WriteLoop → PacketPhase) (done failed : PacketPhase) :
    ((loop.accepted offer).length ≤ loop.rest.length ∧ 0 < loopRank loop) ∧
      (writeOn loop offer more done failed = done ∨ writeOn loop offer more done failed = failed ∨
        ∃ next, next.rest ≠ [] ∧ loopRank next < loopRank loop ∧
          (loop.accepted offer).length + next.rest.length = loop.rest.length ∧
          writeOn loop offer more done failed = more next) := by
  have positive := List.length_pos_iff.mpr busy
  have within : (loop.accepted offer).length ≤ loop.rest.length := by
    simp only [WriteLoop.accepted, List.length_take]
    omega
  refine ⟨⟨within, by unfold loopRank; omega⟩, ?_⟩
  unfold writeOn
  cases after : loop.afterWrite offer with
  | none => exact Or.inr (Or.inl rfl)
  | some next =>
    by_cases whole : next.rest = []
    · simp [whole]
    · right
      right
      have parts := congrArg List.length (accepted_rest after)
      rw [List.length_append] at parts
      refine ⟨next, whole, ?_, parts, by simp [whole]⟩
      by_cases fails : offer ≤ 0
      · rw [afterWrite_fail fails] at after
        split at after
        · simp at after
        · cases after
          simp only [loopRank]
          omega
      · rw [afterWrite_gain (by omega) busy] at after
        cases after
        simp only [loopRank, List.length_drop]
        omega

theorem read_within {file : OpenFile} {offer : Int} (reads : ¬ file.readReturns offer ≤ 0) :
    0 < (file.readReturns offer).toNat ∧
      (file.readReturns offer).toNat ≤ file.content.length - file.offset := by
  unfold OpenFile.readReturns at reads ⊢
  split at reads
  · simp at reads
  · rw [if_neg ‹_›]
    omega

theorem packetStep_rank {s t : PacketState} {answer : PacketAnswer} (busy : Busy s.call)
    (taken : packetStep s answer = some t) : packetRank t < packetRank s := by
  obtain ⟨file, phase, sent⟩ := s
  obtain ⟨after, next⟩ := t
  have goes := packetStep_iff.mp taken
  unfold PacketCall.onAnswer at goes
  split at goes
  · rename_i loop offer here
    obtain rfl : phase = .writeMsg loop := here
    obtain ⟨rfl, rfl⟩ := PacketNext.goes.inj (Option.some.inj goes)
    obtain ⟨⟨within, positive⟩, done | failed | ⟨rest, _, less, parts, more⟩⟩ :=
      @writeOn_rank loop busy offer .writeMsg beginNewline beginNewline
    · rw [done]
      simp only [packetRank, beginNewline, loopRank, newlineRank, copyRank, newlineArray, append_content,
        List.length_append, List.length_cons, List.length_nil] at positive ⊢
      omega
    · rw [failed]
      simp only [packetRank, beginNewline, loopRank, newlineRank, copyRank, newlineArray, append_content,
        List.length_append, List.length_cons, List.length_nil] at positive ⊢
      omega
    · rw [more]
      simp only [packetRank, newlineRank, copyRank, append_content, List.length_append]
      omega
  · rename_i loop offer here
    obtain rfl : phase = .writeNewline loop := here
    obtain ⟨rfl, rfl⟩ := PacketNext.goes.inj (Option.some.inj goes)
    obtain ⟨⟨within, positive⟩, done | failed | ⟨rest, _, less, parts, more⟩⟩ :=
      @writeOn_rank loop busy offer .writeNewline .rewind .rewind
    · rw [done]
      simp only [packetRank, copyRank, append_content, List.length_append]
      omega
    · rw [failed]
      simp only [packetRank, copyRank, append_content, List.length_append]
      omega
    · rw [more]
      simp only [packetRank, copyRank, append_content, List.length_append]
      omega
  · rename_i ok here
    obtain rfl : phase = .rewind := here
    split at goes
    · obtain ⟨rfl, rfl⟩ := PacketNext.goes.inj (Option.some.inj goes)
      simp only [packetRank, copyRank]
      omega
    · simp at goes
  · rename_i offer here
    obtain rfl : phase = .read := here
    simp only at goes
    split at goes
    · obtain ⟨rfl, rfl⟩ := PacketNext.goes.inj (Option.some.inj goes)
      simp only [packetRank, copyRank]
      omega
    · rename_i reads
      obtain ⟨rfl, rfl⟩ := PacketNext.goes.inj (Option.some.inj goes)
      have inside := read_within reads
      simp only [packetRank, loopRank, copyRank, maxFailCount, List.length_take, List.length_drop]
      omega
  · rename_i loop offer here
    obtain rfl : phase = .echo loop := here
    obtain ⟨rfl, rfl⟩ := PacketNext.goes.inj (Option.some.inj goes)
    obtain ⟨⟨_, positive⟩, done | failed | ⟨rest, _, less, _, more⟩⟩ :=
      @writeOn_rank loop busy offer .echo .read .seekEnd
    · rw [done]
      simp only [packetRank]
      omega
    · rw [failed]
      simp only [packetRank, copyRank]
      omega
    · rw [more]
      simp only [packetRank]
      omega
  · rename_i ok here
    obtain rfl : phase = .seekEnd := here
    split at goes
    · obtain ⟨rfl, rfl⟩ := PacketNext.goes.inj (Option.some.inj goes)
      simp [packetRank]
    · simp at goes
  · simp at goes

theorem rank_positive {s : PacketState} (inside : s.call.phase ≠ .unlock) :
    0 < packetRank s := by
  unfold packetRank
  split
  · unfold newlineRank
    omega
  · omega
  · omega
  · unfold copyRank
    omega
  · unfold copyRank
    omega
  · omega
  · rename_i here
    exact absurd here inside

section Server
variable {daemonMode : Bool} {file : OpenFile} {s t : Server} {past : List Action}

theorem owner_of_call (run : machine.run (boot daemonMode file) past = some s) {index : Nat}
    {call : PacketCall} (busy : callOf s index = some call) : s.mutex = some (.handler index) := by
  obtain ⟨x, commits, done, held, shown⟩ := server_committed run
  obtain ⟨now, _, ahead⟩ := held.handlers index
  obtain ⟨owns, _⟩ := ahead_busy ahead (by rw [shown.call, busy])
  rw [shown.mutex] at owns
  cases mutex : s.mutex with
  | none => simp [mutex] at owns
  | some owner => cases owner <;> simp_all [ownerThread]

theorem owner_of_stamp (run : machine.run (boot daemonMode file) past = some s)
    (inside : Stamping s.stamp) : s.mutex = some .timestamp := by
  obtain ⟨x, commits, done, held, shown⟩ := server_committed run
  have stamping : x.stamp ≠ .waiting := by
    rw [shown.stamp]
    unfold Stamping at inside
    unfold logStamp
    split at inside <;> simp_all
  by_contra other
  apply stamping
  apply stamp_idle held.stamp
  rw [shown.mutex]
  cases mutex : s.mutex with
  | none => simp
  | some owner => cases owner <;> simp_all [ownerThread]

theorem callOf_kept (kept : PhasesKept s t) (index : Nat) : callOf t index = callOf s index := by
  rcases kept with same | added
  · exact callOf_phases same index
  · have here := congrArg (fun phases : List HandlerPhase => (phases[index]?).bind phaseCall) added
    have last (phases : List HandlerPhase) :
        ((phases ++ [.begin])[index]?).bind phaseCall = (phases[index]?).bind phaseCall := by
      rw [List.getElem?_append]
      split
      · rfl
      · rename_i outside
        have absent : phases[index]? = none := List.getElem?_eq_none (by omega)
        rw [absent]
        cases index - phases.length <;> rfl
    rw [last] at here
    simpa only [callOf, List.getElem?_map, Option.bind_map, Function.comp_def] using here

/-- Only the timestamp thread and the handlers change the file, in their critical sections. -/
theorem file_kept {action : Action} (taken : step s action = some t)
    (other : ∀ index answer, action ≠ .handler index answer) (outside : ¬ Stamping s.stamp) :
    t.file = s.file := by
  cases step_moves taken with
  | main _ moves => cases moves <;> rfl
  | listen moves => cases moves <;> rfl
  | stamp moves =>
    cases moves with
    | prints here _ => simp [here, Stamping] at outside
    | _ => rfl
  | handler _ _ => exact absurd rfl (other _ _)
  | client _ => rfl
  | signal moves => cases moves <;> rfl

structure Inside (index : Nat) (s : Server) (call : PacketCall) : Prop where
  busy : Busy call
  here : callOf s index = some call

def systemCall (index : Nat) : Action → Bool
  | .handler other (.system _) => other = index
  | _ => false

inductive InsideStep (index : Nat) (s : Server) (call : PacketCall) (action : Action)
    (t : Server) : Prop where
  | waits (quiet : systemCall index action = false) (inside : Inside index t call)
      (file : t.file = s.file)
  | calls {next : PacketCall} (inside : Inside index t next)
      (less : packetRank ⟨t.file, next⟩ < packetRank ⟨s.file, call⟩)
  | ends (positive : 0 < packetRank ⟨s.file, call⟩) (stops : t.status ≠ .running)

theorem handler_apart {index other : Nat} {handler : HandlerThread} {answer : HandlerAnswer}
    (found : s.handlers[other]? = some handler) (transition : Transition s other handler answer t)
    (apart : other ≠ index) (outside : phaseCall handler.phase = none) :
    callOf t index = callOf s index ∧ t.file = s.file := by
  cases transition with
  | answers here _ _ => simp [here, phaseCall] at outside
  | exits => exact ⟨rfl, rfl⟩
  | ends => exact ⟨rfl, rfl⟩
  | _ => exact ⟨(callOf_set found _ index).trans (if_neg apart), rfl⟩

theorem critical_call {index : Nat} {handler : HandlerThread} {peer : Peer}
    {state : ReceiveLoop.Receiving} {call : PacketCall} (found : s.handlers[index]? = some handler) :
    callOf (s.setHandler index { handler with peer := peer, phase := .critical state call }) index =
      some call := by
  rw [callOf_set found, if_pos rfl]
  rfl

theorem lock_inside {index : Nat} {handler : HandlerThread} {state : ReceiveLoop.Receiving}
    {msg : List UInt8} (found : s.handlers[index]? = some handler)
    (here : handler.phase = .lock state msg) (transition : Transition s index handler .ok t) :
    Inside index t (beginPacket msg) ∧ t.file = s.file := by
  cases transition with
  | locks locking free =>
    obtain ⟨_, rfl⟩ := HandlerPhase.lock.inj (here.symm.trans locking)
    refine ⟨⟨begin_busy msg, ?_⟩, rfl⟩
    exact critical_call found
  | unlocks unlocking => simp [here] at unlocking
  | closes closing => simp [here] at closing
  | ends _ called => exact absurd rfl called

theorem own_step {index : Nat} {call : PacketCall} {handler : HandlerThread}
    {answer : HandlerAnswer} (inside : Inside index s call)
    (found : s.handlers[index]? = some handler) (transition : Transition s index handler answer t)
    (keeps : answer ≠ .ok) : InsideStep index s call (.handler index answer) t := by
  have here : phaseCall handler.phase = some call := by
    simpa [callOf, found] using inside.here
  cases transition with
  | answers critical granted gives =>
    rw [critical] at here
    obtain rfl := Option.some.inj here
    exact .calls ⟨goes_busy inside.busy gives, critical_call found⟩
      (packetStep_rank inside.busy (packetStep_iff.mpr gives))
  | exits critical granted gives =>
    rename_i state other result peer code
    rw [critical] at here
    obtain rfl := Option.some.inj here
    have calling : other.phase ≠ .unlock := by
      intro unlocking
      simp [PacketCall.onAnswer, unlocking] at gives
    exact .ends (rank_positive calling) (by simp [Server.ends])
  | ends live called receiving raises stops =>
    cases answer with
    | system result =>
      obtain ⟨state, other, critical, raised⟩ := raises result rfl
      rw [critical] at here
      obtain rfl := Option.some.inj here
      have calling : other.phase ≠ .unlock := by
        intro unlocking
        simp [Peer.grants, unlocking] at raised
      exact .ends (rank_positive calling) stops
    | _ => exact .waits rfl ⟨inside.busy, inside.here⟩ rfl
  | locks => exact absurd rfl keeps
  | unlocks => exact absurd rfl keeps
  | closes => exact absurd rfl keeps
  | _ => simp_all [phaseCall]

theorem inside_step {index : Nat} {call : PacketCall} {action : Action}
    (run : machine.run (boot daemonMode file) past = some s) (inside : Inside index s call)
    (taken : step s action = some t) (keeps : action ≠ .handler index .ok) :
    InsideStep index s call action t := by
  have owns := owner_of_call run inside.here
  rcases step_transition taken with ⟨other, answer, handler, rfl, found, transition⟩ | ⟨other, kept⟩
  · by_cases same : other = index
    · subst same
      exact own_step inside found transition (by simpa using keeps)
    · have outside : phaseCall handler.phase = none := by
        by_contra busy
        obtain ⟨call, here⟩ := Option.ne_none_iff_exists'.mp busy
        have elsewhere := owner_of_call run (show callOf s other = some call by simp [callOf, found, here])
        rw [owns] at elsewhere
        exact same (Owner.handler.inj (Option.some.inj elsewhere)).symm
      obtain ⟨calls, sameFile⟩ := handler_apart found transition same outside
      refine .waits ?_ ⟨inside.busy, calls.trans inside.here⟩ sameFile
      cases answer <;> simp [systemCall, same]
  · have outside : ¬ Stamping s.stamp := by
      intro stamping
      rw [owner_of_stamp run stamping] at owns
      simp at owns
    refine .waits ?_ ⟨inside.busy, (callOf_kept kept index).trans inside.here⟩
      (file_kept taken other outside)
    cases action with
    | handler i answer => exact absurd rfl (other i answer)
    | _ => rfl

theorem inside_run {index : Nat} {call : PacketCall} {later : List Action}
    (run : machine.run (boot daemonMode file) past = some s) (inside : Inside index s call)
    (further : machine.run s later = some t) (keeps : ∀ action ∈ later, action ≠ .handler index .ok) :
    later.countP (systemCall index) ≤ packetRank ⟨s.file, call⟩ := by
  induction later generalizing past s call with
  | nil => simp
  | cons action rest ih =>
    obtain ⟨mid, taken, after⟩ := run_cons_iff.mp further
    rw [List.forall_mem_cons] at keeps
    have reached := run_snoc_iff.mpr ⟨s, run, taken⟩
    rw [List.countP_cons]
    cases inside_step run inside taken keeps.1 with
    | waits quiet next sameFile =>
      have bound := ih reached next after keeps.2
      rw [sameFile] at bound
      simpa [quiet] using bound
    | calls next less =>
      have bound := ih reached next after keeps.2
      split <;> omega
    | ends positive stops =>
      cases rest with
      | nil =>
        rw [List.countP_nil]
        split <;> omega
      | cons second rest =>
        obtain ⟨_, goes, _⟩ := run_cons_iff.mp after
        exact absurd (step_running goes) stops

/-- From the step in which a handler takes the mutex until the one in which it gives it back,
    whatever write, read and lseek return and whatever the other threads do meanwhile, it
    makes at most this many system calls. -/
theorem critical_section_is_bounded {index : Nat} {handler : HandlerThread}
    {state : ReceiveLoop.Receiving} {msg : List UInt8} {later : List Action}
    (run : machine.run (boot daemonMode file) past = some s)
    (found : s.handlers[index]? = some handler) (here : handler.phase = .lock state msg)
    (further : machine.run s (.handler index .ok :: later) = some t)
    (keeps : ∀ action ∈ later, action ≠ .handler index .ok) :
    later.countP (systemCall index) ≤ 24 * msg.length + 23 * s.file.content.length + 69 := by
  obtain ⟨mid, taken, after⟩ := run_cons_iff.mp further
  have reached := run_snoc_iff.mpr ⟨s, run, taken⟩
  have locked : step s (.handler index .ok) = some mid := taken
  rcases step_transition locked with ⟨other, answer, same, action, foundToo, transition⟩ | ⟨other, _⟩
  · cases action
    obtain rfl := Option.some.inj (found.symm.trans foundToo)
    obtain ⟨inside, sameFile⟩ := lock_inside found here transition
    have bound := inside_run reached inside after keeps
    rw [sameFile] at bound
    exact bound.trans (begin_rank msg s.file)
  · exact absurd rfl (other index .ok)

end Server

/-- A failing write counts too. -/
theorem spoken_line_is_bounded :
    [Action.handler 0 (.system (.diskWrite (-1)))].countP (systemCall 0) ≤
      24 * [(97 : UInt8)].length + 23 * ([] : List UInt8).length + 69 := by
  obtain ⟨t, further⟩ : ∃ t,
      machine.run (ConnectionRefinement.speakingAt [] (.lock ConnectionRefinement.spokenRest [97]))
        [.handler 0 .ok, .handler 0 (.system (.diskWrite (-1)))] = some t := ⟨_, rfl⟩
  exact critical_section_is_bounded ConnectionRefinement.speaking_client_run rfl rfl further (by simp)

end SectionBounds
