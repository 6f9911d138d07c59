import Aesd.ServerMoves

/-! The receive buffers of the handlers: in every phase the buffer is as long as the length
    that goes with it, so no handler reads or writes outside it. -/
namespace HandlerSoundness
open TransitionRuns PacketAppend PacketSteps TokenExtraction ReceiveLoop ServerState ServerSteps
  ServerMoves

/-- Only a recv that failed leaves no buffer behind, but its length all the same. -/
def Sound : HandlerPhase → Prop
  | .recv state => ∃ data, Received data state
  | .extract state => state.buf.length = state.len
  | .lock state _ => state.buf.length = state.len
  | .critical state _ => state.buf.length = state.len
  | .lastExtract (some buf) bufSize => buf.length = bufSize
  | .lastExtract none bufSize => 0 < bufSize
  | _ => True

def SoundNext : ReceiveNext → Prop
  | .again state => ∃ data, Received data state
  | .drain state => state.buf.length = state.len
  | .returned (some buf) len => buf.length = len
  | .returned none len => 0 < len
  | .exited => True
  | .fault => False

theorem receive_bounded {peer after : Peer} {bytes : List UInt8}
    (received : peer.receive (.data bytes) = some after) : bytes.length ≤ bufChunkSize := by
  cases bytes with
  | nil => simp
  | cons byte rest =>
    simp only [Peer.receive] at received
    split at received
    · rename_i fits
      exact fits.2
    · simp at received

theorem onRecv_sound {junk : Nat → UInt8} {grows : Bool} {data : List UInt8} {state : Receiving}
    (held : Received data state) {result : RecvResult}
    (bounded : ∀ bytes, result = .data bytes → bytes.length ≤ bufChunkSize) :
    SoundNext (onRecv junk grows state result) := by
  cases result with
  | error =>
    have len := held.len_eq
    simp only [bufChunkSize] at len
    simp only [onRecv, SoundNext]
    omega
  | data bytes =>
    rcases Nat.lt_or_eq_of_le (bounded bytes rfl) with short | full
    · by_cases empty : bytes = []
      · subst empty
        rw [onRecv_shutdown held]
        simp [SoundNext, held.len_eq]
      · rw [onRecv_short junk grows held short empty]
        simp only [SoundNext, List.length_append, zeros_length, held.len_eq]
        omega
    · cases grows with
      | true =>
        obtain ⟨next, again, heldNext⟩ := onRecv_full junk held full
        rw [again]
        exact ⟨_, heldNext⟩
      | false =>
        rw [onRecv_no_memory held full]
        trivial

def HandlersSound (s : Server) : Prop := ∀ handler ∈ s.handlers, Sound handler.phase

variable {s t : Server}

theorem sound_set (held : HandlersSound s) {index : Nat} {handler : HandlerThread}
    (sound : Sound handler.phase) : HandlersSound (s.setHandler index handler) := by
  intro other member
  rcases List.mem_or_eq_of_mem_set member with old | new
  · exact held other old
  · rw [new]
    exact sound

theorem extract_sound {succeeds : Bool} {state : Receiving} (sized : state.buf.length = state.len) :
    ∃ extraction, extractTokenAndConsolidateBuffer succeeds state.buf state.len = some extraction ∧
      extraction.buf.length = state.len := by
  rw [← sized]
  exact extract_keeps_size succeeds state.buf

/-- The steps of a handler that end the whole process: out of memory, a seek that fails, an
    echo to a connection that the client has reset, and what follows on a failed recv. -/
def EndsProcess (handler : HandlerThread) (answer : HandlerAnswer) : Prop :=
  match handler.phase, answer with
  | .begin, .alloc succeeds => succeeds = false
  | .recv _, .recv (.data bytes) grows _ =>
      bytes.length = bufChunkSize ∧ grows = false ∧ (handler.peer.receive (.data bytes)).isSome
  | .critical _ ⟨.rewind, _⟩, .system (.seek ok) => ok = false
  | .critical _ ⟨.seekEnd, _⟩, .system (.seek ok) => ok = false
  | .critical _ ⟨.echo _, _⟩, .system (.socketWrite _) => handler.peer.reset = true
  | .lastExtract none _, .alloc _ => True
  | _, _ => False

theorem onRecv_exited {junk : Nat → UInt8} {grows : Bool} {data : List UInt8} {state : Receiving}
    (held : Received data state) {result : RecvResult}
    (bounded : ∀ bytes, result = .data bytes → bytes.length ≤ bufChunkSize)
    (exited : onRecv junk grows state result = .exited) :
    ∃ bytes, result = .data bytes ∧ bytes.length = bufChunkSize ∧ grows = false := by
  cases result with
  | error => simp [onRecv] at exited
  | data bytes =>
    refine ⟨bytes, rfl, ?_⟩
    rcases Nat.lt_or_eq_of_le (bounded bytes rfl) with short | full
    · by_cases empty : bytes = []
      · subst empty
        rw [onRecv_shutdown held] at exited
        simp at exited
      · rw [onRecv_short junk grows held short empty] at exited
        simp at exited
    · cases grows with
      | true =>
        obtain ⟨next, again, _⟩ := onRecv_full junk held full
        rw [again] at exited
        simp at exited
      | false => exact ⟨full, rfl⟩

theorem onAnswer_exits {call : PacketCall} {file : OpenFile} {answer : PacketAnswer} {code : Int}
    (exits : call.onAnswer file answer = some (.exits code)) :
    (call.phase = .rewind ∨ call.phase = .seekEnd) ∧ answer = .seek false := by
  unfold PacketCall.onAnswer at exits
  split at exits
  · simp at exits
  · simp at exits
  · rename_i ok here
    cases ok <;> simp_all
  · simp only at exits
    split at exits <;> simp at exits
  · simp at exits
  · rename_i ok here
    cases ok <;> simp_all
  · simp at exits

theorem grants_sigpipe {peer : Peer} {call : PacketCall} {answer : PacketAnswer}
    (raised : peer.grants call answer = .raisesSigpipe) :
    peer.reset = true ∧ (∃ loop, call.phase = .echo loop) ∧ ∃ offer, answer = .socketWrite offer := by
  unfold Peer.grants at raised
  split at raised
  · rename_i loop offer here
    split at raised
    · rename_i reset
      exact ⟨reset, ⟨loop, here⟩, ⟨offer, rfl⟩⟩
    · split at raised <;> simp at raised
  · simp at raised

def StaysSound (s : Server) (index : Nat) (answer : HandlerAnswer) (t : Server) : Prop :=
  HandlersSound t ∧ t.status ≠ .undefined ∧
    (t.status = .running ∨
      ∃ handler, s.handlers[index]? = some handler ∧ EndsProcess handler answer)

section HandlerSteps
variable {index : Nat} {answer : HandlerAnswer} {handler : HandlerThread}

theorem staysSound_goes (running : s.status = .running) (sound : HandlersSound t)
    (same : t.status = s.status) : StaysSound s index answer t :=
  ⟨sound, by simp [same, running], Or.inl (same.trans running)⟩

theorem staysSound_ends (held : HandlersSound s) (found : s.handlers[index]? = some handler)
    (ends : EndsProcess handler answer) {status : Status} (defined : status ≠ .undefined) :
    StaysSound s index answer (s.ends status) :=
  ⟨held, defined, Or.inr ⟨handler, found, ends⟩⟩

theorem sound_recv {state : Receiving} {result : RecvResult} {grows : Bool} {junk : Nat → UInt8}
    (held : HandlersSound s) (running : s.status = .running)
    (found : s.handlers[index]? = some handler) (here : handler.phase = .recv state)
    (taken : handlerStep s index (.recv result grows junk) = some t) :
    StaysSound s index (.recv result grows junk) t := by
  have sound := held handler (List.mem_of_getElem? found)
  rw [here] at sound
  obtain ⟨data, received⟩ := sound
  simp only [handlerStep, found, here] at taken
  split at taken
  · simp at taken
  · rename_i peer admitted
    have bounded : ∀ bytes, result = .data bytes → bytes.length ≤ bufChunkSize := by
      intro bytes same
      exact receive_bounded (same ▸ admitted)
    have next := @onRecv_sound junk grows data state received result bounded
    split at taken <;> rename_i outcome <;> rw [outcome] at next
    · cases taken
      exact staysSound_goes running (sound_set held next) rfl
    · cases taken
      exact staysSound_goes running (sound_set held next) rfl
    · rename_i buf len
      cases taken
      apply staysSound_goes running (sound_set held _) rfl
      cases buf with
      | none => exact next
      | some buf => exact next
    · cases taken
      obtain ⟨bytes, rfl, full, grown⟩ := onRecv_exited received bounded outcome
      exact staysSound_ends held found (by simp [EndsProcess, here, full, grown, admitted]) (by simp)
    · exact next.elim

theorem sound_critical {state : Receiving} {call : PacketCall} {result : PacketAnswer}
    (held : HandlersSound s) (running : s.status = .running)
    (found : s.handlers[index]? = some handler) (here : handler.phase = .critical state call)
    (taken : handlerStep s index (.system result) = some t) :
    StaysSound s index (.system result) t := by
  have sound := held handler (List.mem_of_getElem? found)
  rw [here] at sound
  simp only [handlerStep, found, here] at taken
  split at taken
  · cases answered : call.onAnswer s.file result with
    | none => simp [answered, onPacket] at taken
    | some next =>
      rw [answered] at taken
      cases next with
      | goes file next =>
        cases taken
        exact staysSound_goes running (sound_set held sound) rfl
      | exits code =>
        cases taken
        obtain ⟨phase, rfl⟩ := onAnswer_exits answered
        obtain ⟨current, sent⟩ := call
        refine staysSound_ends held found ?_ (by simp)
        rcases phase with rfl | rfl <;> simp [EndsProcess, here]
  · simp at taken
  · rename_i raised
    cases taken
    obtain ⟨reset, ⟨loop, phase⟩, offer, rfl⟩ := grants_sigpipe raised
    obtain ⟨current, sent⟩ := call
    obtain rfl : current = .echo loop := phase
    exact staysSound_ends held found (by simpa [EndsProcess, here] using reset) (by simp)

theorem sound_lastExtract {fullMsg : Option (List UInt8)} {bufSize : Nat} {succeeds : Bool}
    (held : HandlersSound s) (running : s.status = .running)
    (found : s.handlers[index]? = some handler) (here : handler.phase = .lastExtract fullMsg bufSize)
    (taken : handlerStep s index (.alloc succeeds) = some t) :
    StaysSound s index (.alloc succeeds) t := by
  have sound := held handler (List.mem_of_getElem? found)
  rw [here] at sound
  simp only [handlerStep, found, here] at taken
  split at taken
  · rename_i outside
    cases taken
    cases fullMsg with
    | none => exact staysSound_ends held found (by simp [EndsProcess, here]) (by simp)
    | some buf =>
      have sized : buf.length = bufSize := sound
      obtain ⟨extraction, inside, _⟩ := extract_keeps_size succeeds buf
      rw [Option.getD_some, ← sized, inside] at outside
      simp at outside
  · cases taken
    exact staysSound_goes running (sound_set held trivial) rfl

theorem sound_handler (held : HandlersSound s) (running : s.status = .running)
    (taken : handlerStep s index answer = some t) : StaysSound s index answer t := by
  have whole := taken
  unfold handlerStep at taken
  split at taken
  · simp at taken
  rename_i handler found
  have sound := held handler (List.mem_of_getElem? found)
  split at taken
  · rename_i succeeds here
    split at taken
    · cases taken
      exact staysSound_goes running (sound_set held ⟨[], received_start⟩) rfl
    · rename_i failed
      cases taken
      exact staysSound_ends held found (by simpa [EndsProcess, here] using failed) (by simp)
  · rename_i state result grows junk here
    exact sound_recv held running found here whole
  · rename_i state succeeds here
    rw [here] at sound
    obtain ⟨extraction, extracted, sized⟩ := @extract_sound succeeds state sound
    rw [extracted] at taken
    obtain ⟨token, buf⟩ := extraction
    cases token with
    | none =>
      cases taken
      exact staysSound_goes running (sound_set held sized) rfl
    | some token =>
      cases taken
      exact staysSound_goes running (sound_set held sized) rfl
  · rename_i state msg here
    rw [here] at sound
    split at taken
    · cases taken
      exact staysSound_goes running (sound_set held sound) rfl
    · simp at taken
  · rename_i state call result here
    exact sound_critical held running found here whole
  · rename_i state sent here
    rw [here] at sound
    cases taken
    exact staysSound_goes running (sound_set held sound) rfl
  · rename_i fullMsg bufSize succeeds here
    exact sound_lastExtract held running found here whole
  · cases taken
    exact staysSound_goes running (sound_set held trivial) rfl
  · simp at taken

end HandlerSteps

theorem extract_null {bufSize : Nat} (positive : 0 < bufSize) (succeeds : Bool) :
    extractTokenAndConsolidateBuffer succeeds [] bufSize = none := by
  obtain ⟨left, rfl⟩ := Nat.exists_eq_succ_of_ne_zero (Nat.ne_of_gt positive)
  rfl

theorem endsProcess_ends {index : Nat} {handler : HandlerThread} {answer : HandlerAnswer}
    (found : s.handlers[index]? = some handler) (sound : Sound handler.phase)
    (ends : EndsProcess handler answer) :
    ∃ t, handlerStep s index answer = some t ∧ t.status ≠ .running := by
  unfold EndsProcess at ends
  split at ends
  · rename_i succeeds here
    exact ⟨_, by simp only [handlerStep, found, here, ends, Bool.false_eq_true, ↓reduceIte]; rfl,
      by simp [Server.ends]⟩
  · rename_i state bytes grows junk here
    obtain ⟨full, grown, received⟩ := ends
    obtain ⟨peer, admitted⟩ := Option.isSome_iff_exists.mp received
    rw [here] at sound
    obtain ⟨data, held⟩ := sound
    refine ⟨s.ends (.exited (-1)), ?_, by simp [Server.ends]⟩
    simp only [handlerStep, found, here, admitted, grown, onRecv_no_memory held full]
  · rename_i state sent ok here
    refine ⟨s.ends (.exited 13), ?_, by simp [Server.ends]⟩
    simp only [handlerStep, found, here, Peer.grants, PacketCall.onAnswer, ends, Bool.false_eq_true,
      ↓reduceIte, onPacket]
  · rename_i state sent ok here
    refine ⟨s.ends (.exited 15), ?_, by simp [Server.ends]⟩
    simp only [handlerStep, found, here, Peer.grants, PacketCall.onAnswer, ends, Bool.false_eq_true,
      ↓reduceIte, onPacket]
  · rename_i state loop sent offer here
    refine ⟨s.ends (.killed .sigpipe), ?_, by simp [Server.ends]⟩
    simp only [handlerStep, found, here, Peer.grants, ends, ↓reduceIte]
  · rename_i bufSize succeeds here
    rw [here] at sound
    refine ⟨s.ends (.killed .sigsegv), ?_, by simp [Server.ends]⟩
    simp only [handlerStep, found, here, Option.getD_none, extract_null sound, ↓reduceIte]
  · exact ends.elim

theorem sound_same (held : HandlersSound s)
    (same : t.handlers.map HandlerThread.phase = s.handlers.map HandlerThread.phase) :
    HandlersSound t := by
  intro handler member
  have later := List.mem_map_of_mem (f := HandlerThread.phase) member
  rw [same, List.mem_map] at later
  obtain ⟨old, before, phase⟩ := later
  rw [← phase]
  exact held old before

theorem sound_main {answer : MainAnswer} (held : HandlersSound s) (moves : MainMoves s answer t) :
    HandlersSound t := by
  cases moves with
  | drains here there same => exact sound_same held same
  | _ => exact held

theorem sound_listen {answer : ListenAnswer} (held : HandlersSound s)
    (moves : ListenMoves s answer t) : HandlersSound t := by
  cases moves with
  | creates here =>
    intro handler member
    rcases List.mem_append.mp member with old | new
    · exact held handler old
    · rw [List.mem_singleton.mp new]
      trivial
  | _ => exact held

theorem sound_step (s : Server) (action : Action) (t : Server) (held : HandlersSound s)
    (taken : machine.step s action = some t) : HandlersSound t := by
  have running := step_running taken
  cases step_moves taken with
  | main _ moves => exact sound_main held moves
  | listen moves => exact sound_listen held moves
  | stamp moves => cases moves <;> exact held
  | handler taken _ => exact (sound_handler held running taken).1
  | client found => exact sound_same held (setHandler_map found rfl)
  | signal moves => cases moves <;> exact held

theorem step_handler (running : s.status = .running) (index : Nat) (answer : HandlerAnswer) :
    machine.step s (.handler index answer) = handlerStep s index answer := by
  simp only [machine, step, running, ↓reduceIte]

theorem setHandler_lookup {index : Nat} {handler : HandlerThread}
    (found : s.handlers[index]? = some handler) (next : HandlerThread) :
    (s.setHandler index next).handlers[index]? = some next := by
  obtain ⟨inside, _⟩ := List.getElem?_eq_some_iff.mp found
  exact List.getElem?_set_self inside

theorem setHandler_twice (index : Nat) (first second : HandlerThread) :
    (s.setHandler index first).setHandler index second = s.setHandler index second := by
  simp only [Server.setHandler, List.set_set]

/-- A handler whose client has shut down, and whose last bytes are read, comes to its end. -/
theorem shutdown_ends_handler {index : Nat} {handler : HandlerThread} {state : Receiving}
    {data : List UInt8} (running : s.status = .running)
    (found : s.handlers[index]? = some handler) (here : handler.phase = .recv state)
    (received : Received data state) (closed : handler.peer.inbox = [] ∧ handler.peer.ended = true)
    (junk : Nat → UInt8) :
    machine.run s [.handler index (.recv (.data []) true junk), .handler index (.alloc true),
        .handler index .ok] =
      some { s.setHandler index { handler with phase := .finished } with
        descriptors := s.descriptors ++ [.closed handler.sockfd] } := by
  have admitted : handler.peer.receive (.data []) = some handler.peer := by
    simp only [Peer.receive, closed, and_self, ↓reduceIte]
  have returned : machine.step s (.handler index (.recv (.data []) true junk)) =
      some (s.setHandler index { handler with phase := .lastExtract (some state.buf) state.len }) := by
    rw [step_handler running, handlerStep, found]
    simp only [here, admitted, onRecv_shutdown received, received.buf_eq]
  have extracted : machine.step
      (s.setHandler index { handler with phase := .lastExtract (some state.buf) state.len })
      (.handler index (.alloc true)) =
        some (s.setHandler index { handler with phase := .close }) := by
    obtain ⟨extraction, inside, _⟩ := extract_keeps_size true state.buf
    rw [received_length received] at inside
    rw [step_handler (by exact running), handlerStep, setHandler_lookup found]
    simp only [Option.getD_some, inside, setHandler_twice]
  have ended : machine.step (s.setHandler index { handler with phase := .close })
      (.handler index .ok) =
        some { s.setHandler index { handler with phase := .finished } with
          descriptors := s.descriptors ++ [.closed handler.sockfd] } := by
    rw [step_handler (by exact running), handlerStep, setHandler_lookup found]
    simp only [Server.setHandler, List.set_set]
  simp only [Machine.run, returned, extracted, ended, Option.bind_some]

end HandlerSoundness
