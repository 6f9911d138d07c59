import Aesd.ReceiveLoop

/-! Which lines of a stream become packets, as a function of the stream and of how recv
    cuts it. Reading stops at the first chunk that is not full, what follows is never
    read, and an end of stream before such a chunk leaves the buffer undrained. -/
namespace PacketFraming
open SeparatedSegments TokenExtraction PacketDrain ReceiveLoop

/-- chunks are the results of recv for the stream, the final 0 left out. -/
structure Delivers (chunks : List (List UInt8)) (stream : List UInt8) : Prop where
  joined : chunks.flatten = stream
  sizes : ∀ c ∈ chunks, 1 ≤ c.length ∧ c.length ≤ bufChunkSize

/-- The bytes up to the end of the first short chunk, and the bytes after it. -/
def cutAtShort : List (List UInt8) → Option (List UInt8 × List UInt8)
  | [] => none
  | c :: later =>
      if c.length = bufChunkSize then
        (cutAtShort later).map fun cut => (c ++ cut.1, cut.2)
      else some (c, later.flatten)

def bufferLength (message : List UInt8) : Nat :=
  (message.length / bufChunkSize + 1) * bufChunkSize

def recvResults (chunks : List (List UInt8)) : List RecvResult :=
  chunks.map .data ++ [.data []]

/-- With all allocations succeeding, one run passes exactly the terminated segments. -/
def FramedExactly (junk : Nat → UInt8) (chunks : List (List UInt8)) : Prop :=
  ∃ fuel dropped, handleConnection junk (fun _ => true) (fun _ => true) true fuel
    (recvResults chunks) = ⟨segments newline chunks.flatten, .closed dropped⟩

/-- The chunks leave no line behind, and the lines of the message do not overlap. -/
def FramingHolds (chunks : List (List UInt8)) : Prop :=
  match cutAtShort chunks with
  | none => newline ∉ chunks.flatten
  | some (message, unread) =>
      newline ∉ unread ∧ ResidueFree (bufferLength message) (segments newline message)

instance (chunks : List (List UInt8)) : Decidable (FramingHolds chunks) :=
  match cut : cutAtShort chunks with
  | none => decidable_of_iff (newline ∉ chunks.flatten) (by rw [FramingHolds, cut])
  | some (message, unread) =>
      decidable_of_iff (newline ∉ unread ∧ ResidueFree (bufferLength message)
        (segments newline message)) (by rw [FramingHolds, cut])

theorem cut_joined {chunks : List (List UInt8)} {message unread : List UInt8}
    (cut : cutAtShort chunks = some (message, unread)) :
    chunks.flatten = message ++ unread := by
  induction chunks generalizing message with
  | nil => simp [cutAtShort] at cut
  | cons c later ih =>
    rw [cutAtShort] at cut
    split at cut
    · obtain ⟨⟨tail, rest⟩, tailCut, same⟩ := Option.map_eq_some_iff.mp cut
      obtain ⟨rfl, rfl⟩ := Prod.mk.inj same
      rw [List.flatten_cons, ih tailCut, List.append_assoc]
    · obtain ⟨rfl, rfl⟩ := Prod.mk.inj (Option.some.inj cut)
      rfl

theorem message_without_nul {chunks : List (List UInt8)} {stream message unread : List UInt8}
    (delivery : Delivers chunks stream) (noNul : nul ∉ stream)
    (cut : cutAtShort chunks = some (message, unread)) : nul ∉ message := by
  intro member
  rw [← delivery.joined, cut_joined cut] at noNul
  exact noNul (List.mem_append_left _ member)

theorem read_without_short (junk : Nat → UInt8) (alloc : Nat → Bool) (fuel call : Nat)
    {chunks : List (List UInt8)} (uncut : cutAtShort chunks = none) {data : List UInt8}
    {state : Receiving} (held : Received data state) :
    readUntilStopCondition junk (fun _ => true) alloc fuel call state (recvResults chunks) =
      ⟨[], .returned (some (data ++ chunks.flatten ++ zeros bufChunkSize))
        (data ++ chunks.flatten ++ zeros bufChunkSize).length⟩ := by
  induction chunks generalizing data state call with
  | nil =>
    simp only [recvResults, List.map_nil, List.nil_append, readUntilStopCondition,
      onRecv_shutdown held, List.flatten_nil, List.append_nil, List.length_append, zeros_length,
      held.len_eq]
  | cons c later ih =>
    rw [cutAtShort] at uncut
    split at uncut
    · rename_i full
      obtain ⟨next, step, heldNext⟩ := onRecv_full junk held full
      simp only [recvResults, List.map_cons, List.cons_append, readUntilStopCondition, step]
      rw [← recvResults, ih _ (by simpa using uncut) heldNext, List.flatten_cons, List.append_assoc data]
    · simp at uncut

theorem read_with_short (junk : Nat → UInt8) (alloc : Nat → Bool) (fuel call : Nat)
    {chunks : List (List UInt8)} (sizes : ∀ c ∈ chunks, 1 ≤ c.length ∧ c.length ≤ bufChunkSize)
    {message unread data : List UInt8} (cut : cutAtShort chunks = some (message, unread))
    (aligned : data.length % bufChunkSize = 0) {state : Receiving} (held : Received data state) :
    readUntilStopCondition junk (fun _ => true) alloc fuel call state (recvResults chunks) =
      afterDrain (bufferLength (data ++ message)) (drainLoop alloc (bufferLength (data ++ message))
        fuel 0 (padded (bufferLength (data ++ message)) (data ++ message))) := by
  induction chunks generalizing data state call message with
  | nil => simp [cutAtShort] at cut
  | cons c later ih =>
    have size := sizes c List.mem_cons_self
    rw [cutAtShort] at cut
    split at cut
    · rename_i full
      obtain ⟨⟨tail, rest⟩, tailCut, same⟩ := Option.map_eq_some_iff.mp cut
      obtain ⟨rfl, rfl⟩ := Prod.mk.inj same
      obtain ⟨next, step, heldNext⟩ := onRecv_full junk held full
      have alignedNext : (data ++ c).length % bufChunkSize = 0 := by
        rw [List.length_append, full, Nat.add_mod_right, aligned]
      simp only [recvResults, List.map_cons, List.cons_append, readUntilStopCondition, step]
      rw [← recvResults, ih _ (fun d member => sizes d (List.mem_cons_of_mem c member)) tailCut
        alignedNext heldNext, List.append_assoc data]
    · rename_i notFull
      obtain ⟨rfl, rfl⟩ := Prod.mk.inj (Option.some.inj cut)
      have short : c.length < bufChunkSize := by omega
      have step := onRecv_short junk true held short
        (List.length_pos_iff.mp (by omega))
      have len : state.len = bufferLength (data ++ c) := by
        rw [held.len_eq, bufferLength, List.length_append]
        simp only [bufChunkSize] at *
        omega
      have pad : bufferLength (data ++ c) - (data ++ c).length = bufChunkSize - c.length := by
        rw [← len, held.len_eq, List.length_append]
        omega
      simp only [recvResults, List.map_cons, List.cons_append, readUntilStopCondition, step, padded,
        pad, len]

theorem bufferLength_room (message : List UInt8) : message.length < bufferLength message := by
  simp only [bufferLength, bufChunkSize]
  omega

/-- An end of stream before any short chunk closes the connection with nothing passed on. -/
theorem connection_without_short (junk : Nat → UInt8) (fuel : Nat) {chunks : List (List UInt8)}
    (uncut : cutAtShort chunks = none) :
    ∃ dropped, handleConnection junk (fun _ => true) (fun _ => true) true fuel
      (recvResults chunks) = ⟨[], .closed dropped⟩ := by
  obtain ⟨extraction, last, _⟩ := extract_keeps_size true (chunks.flatten ++ zeros bufChunkSize)
  refine ⟨extraction.token, ?_⟩
  have read := read_without_short junk (fun _ => true) fuel 0 uncut received_start
  rw [List.nil_append] at read
  simp only [handleConnection, read, Option.getD_some, last]

theorem connection_with_short (junk : Nat → UInt8) (fuel : Nat) {chunks : List (List UInt8)}
    (sizes : ∀ c ∈ chunks, 1 ≤ c.length ∧ c.length ≤ bufChunkSize)
    {message unread : List UInt8} (cut : cutAtShort chunks = some (message, unread)) :
    readUntilStopCondition junk (fun _ => true) (fun _ => true) fuel 0 startReceiving
        (recvResults chunks) =
      afterDrain (bufferLength message) (drainLoop (fun _ => true) (bufferLength message) fuel 0
        (padded (bufferLength message) message)) := by
  have read := read_with_short junk (fun _ => true) fuel 0 sizes cut rfl received_start
  rwa [List.nil_append] at read

theorem framed_of_holds (junk : Nat → UInt8) {chunks : List (List UInt8)} {stream : List UInt8}
    (delivery : Delivers chunks stream) (noNul : nul ∉ stream) (holds : FramingHolds chunks) :
    FramedExactly junk chunks := by
  cases cut : cutAtShort chunks with
  | none =>
    simp only [FramingHolds, cut] at holds
    obtain ⟨dropped, run⟩ := connection_without_short junk 0 cut
    exact ⟨0, dropped, by rw [run, segments_free holds]⟩
  | some parts =>
    obtain ⟨message, unread⟩ := parts
    simp only [FramingHolds, cut] at holds
    have joined := cut_joined cut
    have messageNoNul := message_without_nul delivery noNul cut
    have nothingMore : segments newline (remainder newline message ++ unread) = [] := by
      apply segments_free
      simp [remainder_not_mem, holds.1]
    obtain ⟨buf, drained, whole, absent⟩ := drain_padded_clean messageNoNul
      (bufferLength_room message) holds.2 (Nat.lt_succ_self _)
    refine ⟨(segments newline message).length + 1, none, ?_⟩
    rw [handleConnection, connection_with_short junk _ delivery.sizes cut, drained, joined,
      segments_append, nothingMore, List.append_nil]
    simp only [afterDrain, Option.getD_some, ← whole, extract_free absent]

theorem starts_with_separator {line rest : List UInt8} {more : List (List UInt8)}
    (free : newline ∉ line) (lines : segments newline (line ++ rest) = line :: more) :
    ∃ later, rest = newline :: later := by
  have member : newline ∈ rest := by
    by_contra absent
    rw [segments_free (by simp [free, absent])] at lines
    simp at lines
  obtain ⟨front, back, rfl, frontFree⟩ := List.eq_append_cons_of_mem member
  have both : newline ∉ line ++ front := by simp [free, frontFree]
  rw [← List.append_assoc, segments_line both] at lines
  have empty : front = [] := by simpa using (List.cons.inj lines).1
  exact ⟨back, by rw [empty, List.nil_append]⟩

/-- The only way to be framed right although the condition fails: stale bytes of an
    overlapping line stand in for a line that begins with the first unread byte. -/
theorem holds_of_framed {junk : Nat → UInt8} {chunks : List (List UInt8)} {stream : List UInt8}
    (delivery : Delivers chunks stream) (noNul : nul ∉ stream)
    (framed : FramedExactly junk chunks) :
    FramingHolds chunks ∨ ∃ message later, cutAtShort chunks = some (message, newline :: later) ∧
      ¬ ResidueFree (bufferLength message) (segments newline message) := by
  obtain ⟨fuel, dropped, run⟩ := framed
  cases cut : cutAtShort chunks with
  | none =>
    obtain ⟨other, nothing⟩ := connection_without_short junk fuel cut
    rw [nothing] at run
    left
    simp only [FramingHolds, cut]
    exact (segments_eq_nil_iff _).mp (ConnectionRun.mk.inj run).1.symm
  | some parts =>
    obtain ⟨message, unread⟩ := parts
    have joined := cut_joined cut
    have messageNoNul := message_without_nul delivery noNul cut
    rw [handleConnection, connection_with_short junk _ delivery.sizes cut, joined,
      segments_append] at run
    generalize drain : drainLoop (fun _ => true) (bufferLength message) fuel 0
      (padded (bufferLength message) message) = drained at run
    obtain ⟨packets, ending⟩ := drained
    cases ending with
    | fault => simp [afterDrain] at run
    | unfinished => simp [afterDrain] at run
    | finished buf =>
      have passed : packets = segments newline message ++
          segments newline (remainder newline message ++ unread) := by
        simp only [afterDrain, Option.getD_some] at run
        split at run
        · simp at run
        · exact (ConnectionRun.mk.inj run).1
      by_cases fits : ResidueFree (bufferLength message) (segments newline message)
      · left
        obtain ⟨other, clean, _⟩ := @drain_padded_clean (bufferLength message)
          (fuel + ((segments newline message).length + 1)) message messageNoNul
          (bufferLength_room message) fits (by omega)
        rw [drain_more_fuel drain] at clean
        rw [(Drain.mk.inj clean).1, List.self_eq_append_right, segments_eq_nil_iff] at passed
        simp only [FramingHolds, cut]
        exact ⟨fun member => passed (List.mem_append_right _ member), fits⟩
      · right
        obtain ⟨more, repeated⟩ := @drain_padded_repeats (bufferLength message)
          (fuel + ((segments newline message).length + 1)) message messageNoNul
          (bufferLength_room message) fits (by omega)
        rw [drain_more_fuel drain] at repeated
        rw [show packets = _ from repeated] at passed
        obtain ⟨later, rfl⟩ := starts_with_separator (remainder_not_mem message)
          (List.append_cancel_left passed).symm
        exact ⟨message, later, rfl, fits⟩

theorem full_chunks_exist (count : Nat) (stream : List UInt8)
    (size : stream.length = bufChunkSize * count) :
    ∃ chunks : List (List UInt8), chunks.flatten = stream ∧ ∀ c ∈ chunks, c.length = bufChunkSize := by
  induction count generalizing stream with
  | zero =>
    obtain rfl := List.length_eq_zero_iff.mp size
    exact ⟨[], rfl, by simp⟩
  | succ count ih =>
    obtain ⟨chunks, joined, sizes⟩ := ih (stream.drop bufChunkSize) (by
      rw [List.length_drop, size, Nat.mul_succ, Nat.add_sub_cancel])
    refine ⟨stream.take bufChunkSize :: chunks, ?_, ?_⟩
    · rw [List.flatten_cons, joined, List.take_append_drop]
    · intro c member
      rcases List.mem_cons.mp member with rfl | member
      · rw [List.length_take, size, Nat.mul_succ]
        omega
      · exact sizes c member

theorem uncut_iff (chunks : List (List UInt8)) :
    cutAtShort chunks = none ↔ ∀ c ∈ chunks, c.length = bufChunkSize := by
  induction chunks with
  | nil => simp [cutAtShort]
  | cons c later ih =>
    rw [cutAtShort]
    split <;> simp_all

theorem uncut_length {chunks : List (List UInt8)} (uncut : cutAtShort chunks = none) :
    bufChunkSize ∣ chunks.flatten.length := by
  rw [uncut_iff] at uncut
  induction chunks with
  | nil => simp
  | cons c later ih =>
    rw [List.flatten_cons, List.length_append, uncut c List.mem_cons_self]
    exact Nat.dvd_add (Nat.dvd_refl _) (ih fun d member => uncut d (List.mem_cons_of_mem c member))

theorem bytewise_delivers (stream : List UInt8) :
    Delivers (stream.map fun byte => [byte]) stream where
  joined := by induction stream <;> simp_all
  sizes := by simp [bufChunkSize]

def AlwaysFramed (stream : List UInt8) : Prop :=
  newline ∉ stream ∨
    ∃ later, stream = newline :: later ∧ newline ∉ later ∧ ¬ bufChunkSize ∣ stream.length

theorem message_head {chunks : List (List UInt8)} {message unread later : List UInt8}
    (delivery : Delivers chunks (newline :: later)) (cut : cutAtShort chunks = some (message, unread)) :
    ∃ tail, message = newline :: tail ∧ later = tail ++ unread := by
  have joined := cut_joined cut
  rw [delivery.joined] at joined
  cases message with
  | cons byte tail =>
    obtain ⟨rfl, rfl⟩ := List.cons.inj joined
    exact ⟨tail, rfl, rfl⟩
  | nil =>
    cases chunks with
    | nil => simp [cutAtShort] at cut
    | cons c rest =>
      have size := (delivery.sizes c List.mem_cons_self).1
      rw [cutAtShort] at cut
      split at cut
      · obtain ⟨⟨tail, tailRest⟩, _, same⟩ := Option.map_eq_some_iff.mp cut
        obtain ⟨empty, _⟩ := List.append_eq_nil_iff.mp (Prod.mk.inj same).1
        simp [empty] at size
      · obtain ⟨empty, _⟩ := Prod.mk.inj (Option.some.inj cut)
        simp [empty] at size

theorem holds_of_alwaysFramed {chunks : List (List UInt8)} {stream : List UInt8}
    (delivery : Delivers chunks stream) (always : AlwaysFramed stream) : FramingHolds chunks := by
  cases cut : cutAtShort chunks with
  | none =>
    simp only [FramingHolds, cut, delivery.joined]
    rcases always with free | ⟨later, _, _, unaligned⟩
    · exact free
    · exact absurd (delivery.joined ▸ uncut_length cut) unaligned
  | some parts =>
    obtain ⟨message, unread⟩ := parts
    have joined := cut_joined cut
    rw [delivery.joined] at joined
    simp only [FramingHolds, cut]
    rcases always with free | ⟨later, rfl, free, _⟩
    · rw [joined, List.mem_append, not_or] at free
      exact ⟨free.2, by rw [segments_free free.1]; trivial⟩
    · obtain ⟨tail, rfl, rfl⟩ := message_head delivery cut
      rw [List.mem_append, not_or] at free
      refine ⟨free.2, ?_⟩
      rw [← List.nil_append (newline :: tail), segments_line (by simp), segments_free free.1]
      trivial

theorem alwaysFramed_of_framed {junk : Nat → UInt8} {stream : List UInt8} (noNul : nul ∉ stream)
    (framed : ∀ chunks, Delivers chunks stream → FramedExactly junk chunks) :
    AlwaysFramed stream := by
  by_cases free : newline ∈ stream
  · right
    cases stream with
    | nil => simp at free
    | cons byte later =>
      have single := bytewise_delivers (byte :: later)
      have cut : cutAtShort ((byte :: later).map fun b => [b]) = some ([byte], later) := by
        have joined := (bytewise_delivers later).joined
        simp [cutAtShort, bufChunkSize, joined]
      have laterFree : newline ∉ later := by
        rcases holds_of_framed single noNul (framed _ single) with holds | ⟨message, rest, other, overlap⟩
        · simp only [FramingHolds, cut] at holds
          exact holds.1
        · rw [cut] at other
          obtain ⟨rfl, _⟩ := Prod.mk.inj (Option.some.inj other)
          refine absurd ?_ overlap
          by_cases isNewline : byte = newline <;> simp [segments, isNewline, ResidueFree]
      have head : byte = newline := by
        rcases List.mem_cons.mp free with same | member
        · exact same.symm
        · exact absurd member laterFree
      subst head
      refine ⟨later, rfl, laterFree, ?_⟩
      rintro ⟨count, size⟩
      obtain ⟨chunks, joined, sizes⟩ := full_chunks_exist count _ size
      have delivery : Delivers chunks (newline :: later) :=
        ⟨joined, fun c member => by rw [sizes c member]; decide⟩
      have uncut := (uncut_iff chunks).mpr sizes
      rcases holds_of_framed delivery noNul (framed _ delivery) with holds | ⟨_, _, other, _⟩
      · simp only [FramingHolds, uncut, joined] at holds
        exact holds free
      · rw [uncut] at other
        simp at other
  · exact Or.inl free

/-- Exactly which streams are framed right under every delivery, and for one delivery
    the condition on it, which only stale bytes can stand in for. -/
theorem framing_exactly_when (junk : Nat → UInt8) {stream : List UInt8} (noNul : nul ∉ stream) :
    ((∀ chunks, Delivers chunks stream → FramedExactly junk chunks) ↔ AlwaysFramed stream) ∧
    ∀ chunks, Delivers chunks stream →
      (FramingHolds chunks → FramedExactly junk chunks) ∧
      (FramedExactly junk chunks → FramingHolds chunks ∨
        ∃ message later, cutAtShort chunks = some (message, newline :: later) ∧
          ¬ ResidueFree (bufferLength message) (segments newline message)) := by
  refine ⟨⟨alwaysFramed_of_framed noNul, ?_⟩, ?_⟩
  · intro always chunks delivery
    exact framed_of_holds junk delivery noNul (holds_of_alwaysFramed delivery always)
  · intro chunks delivery
    exact ⟨framed_of_holds junk delivery noNul, holds_of_framed delivery noNul⟩

theorem two_lines_in_one_chunk_are_framed :
    nul ∉ ([97, 10, 98, 10] : List UInt8) ∧ FramedExactly (fun _ => 0) [[97, 10, 98, 10]] :=
  ⟨by decide, ((@framing_exactly_when (fun _ => 0) [97, 10, 98, 10] (by decide)).2
    [[97, 10, 98, 10]] ⟨rfl, by decide⟩).1 (by decide)⟩

theorem second_chunk_is_never_read :
    nul ∉ ([97, 10, 98, 10] : List UInt8) ∧ Delivers [[97, 10], [98, 10]] [97, 10, 98, 10] ∧
      ¬ FramedExactly (fun _ => 0) [[97, 10], [98, 10]] := by
  have delivery : Delivers [[97, 10], [98, 10]] [97, 10, 98, 10] := ⟨rfl, by decide⟩
  refine ⟨by decide, delivery, ?_⟩
  intro framed
  rcases holds_of_framed delivery (by decide) framed with holds | ⟨message, later, cut, _⟩
  · exact absurd holds.1 (by decide)
  · have actual : cutAtShort [[97, 10], [98, 10]] = some ([97, 10], [98, 10]) := by decide
    obtain ⟨_, unread⟩ := Prod.mk.inj (Option.some.inj (actual.symm.trans cut))
    exact absurd (List.cons.inj unread).1 (by decide)

end PacketFraming
