import Aesd.PacketSteps
import Aesd.TransitionRuns

/-! handle_packet as one call and handle_packet one system call at a time say the same: the
    answers that the steps get, sorted by kind, are the schedules of the one call. -/
namespace PacketSchedules
open TransitionRuns WriteAll PacketAppend PacketSteps

structure Script where
  diskWrites : List Int
  seeks : List Bool
  reads : List Int
  socketWrites : List Int
  deriving DecidableEq, Repr

def Script.before (answer : PacketAnswer) (script : Script) : Script :=
  match answer with
  | .diskWrite offer => { script with diskWrites := offer :: script.diskWrites }
  | .socketWrite offer => { script with socketWrites := offer :: script.socketWrites }
  | .read offer => { script with reads := offer :: script.reads }
  | .seek ok => { script with seeks := ok :: script.seeks }

def Script.behind (answers : List PacketAnswer) (script : Script) : Script :=
  answers.foldr Script.before script

def stepThrough : List PacketAnswer → OpenFile → PacketCall → Option PacketRun
  | [], file, call => if call.phase = .unlock then some ⟨file, call.sent, .returned⟩ else none
  | answer :: later, file, call =>
      match call.onAnswer file answer with
      | none => none
      | some (.exits status) => if later = [] then some ⟨file, call.sent, .exited status⟩ else none
      | some (.goes after next) => stepThrough later after next

def finishSeek (file : OpenFile) (sent : List UInt8) : List Bool → Option PacketRun
  | [] => none
  | true :: _ => some ⟨⟨file.content, file.content.length⟩, sent, .returned⟩
  | false :: _ => some ⟨file, sent, .exited 15⟩

def finishCopy (sent : List UInt8) (seeks : List Bool) (copy : CopyReturn) : Option PacketRun :=
  finishSeek copy.file (sent ++ copy.sent) seeks

def finishEcho (file : OpenFile) (script : Script) (sent : List UInt8) : Option PacketRun :=
  match script.seeks with
  | [] => none
  | false :: _ => some ⟨file, sent, .exited 13⟩
  | true :: seeks =>
      (duplicateDataAcrossFds script.reads ⟨file.content, 0⟩ script.socketWrites).bind
        (finishCopy sent seeks)

def finishNewline (file : OpenFile) (script : Script) (sent : List UInt8) (loop : WriteLoop) :
    Option PacketRun :=
  (writeAllLoop script.diskWrites loop).bind fun ending =>
    finishEcho (file.append ending.accepted) { script with diskWrites := ending.unused } sent

/-- What handle_packet does from a phase on, told as one call. -/
def finish (script : Script) (file : OpenFile) (call : PacketCall) : Option PacketRun :=
  match call.phase with
  | .writeMsg loop =>
      (writeAllLoop script.diskWrites loop).bind fun record =>
        finishNewline (file.append record.accepted) { script with diskWrites := record.unused }
          call.sent ⟨newlineArray, 0⟩
  | .writeNewline loop => finishNewline file script call.sent loop
  | .rewind => finishEcho file script call.sent
  | .read =>
      (duplicateDataAcrossFds script.reads file script.socketWrites).bind
        (finishCopy call.sent script.seeks)
  | .echo loop =>
      (writeAllLoop script.socketWrites loop).bind fun ret =>
        if ret.code = -1 then finishSeek file (call.sent ++ ret.accepted) script.seeks
        else (duplicateDataAcrossFds script.reads file ret.unused).bind
          (finishCopy (call.sent ++ ret.accepted) script.seeks)
  | .seekEnd => finishSeek file call.sent script.seeks
  | .unlock => some ⟨file, call.sent, .returned⟩

/-- A loop of write_all that is at a write has something to write. -/
def Busy (call : PacketCall) : Prop :=
  match call.phase with
  | .writeMsg loop => loop.rest ≠ []
  | .writeNewline loop => loop.rest ≠ []
  | .echo loop => loop.rest ≠ []
  | _ => True

theorem begin_busy (msg : List UInt8) : Busy (beginPacket msg) := by
  unfold Busy beginPacket
  split
  · rename_i loop here
    split at here
    · simp [beginNewline] at here
    · rename_i more
      cases here
      exact more
  · rename_i loop here
    split at here
    · cases here
      simp [newlineArray]
    · simp at here
  · rename_i loop here
    split at here
    · simp [beginNewline] at here
    · simp at here
  · trivial

theorem append_append (file : OpenFile) (first second : List UInt8) :
    (file.append first).append second = file.append (first ++ second) := by
  by_cases none : first = []
  · simp [OpenFile.append, none]
  · by_cases last : second = []
    · simp [OpenFile.append, last]
    · simp [OpenFile.append, none, last, Nat.add_assoc]

section WriteLoops
variable {loop next : WriteLoop} {offer : Int}

theorem writeAllLoop_done (done : loop.rest = []) (schedule : List Int) :
    writeAllLoop schedule loop = some ⟨0, [], schedule⟩ := by
  cases schedule with
  | nil => rw [writeAllLoop, if_pos done]
  | cons offer later => rw [writeAllLoop, if_pos done]

theorem writeAllLoop_gives_up (more : loop.rest ≠ []) (after : loop.afterWrite offer = none)
    (later : List Int) : writeAllLoop (offer :: later) loop = some ⟨-1, [], later⟩ := by
  rw [writeAllLoop, if_neg more, after]

/-- What follows a loop that goes on sees the bytes of this write before those of the rest. -/
theorem writeAllLoop_goes {Result : Type} (more : loop.rest ≠ [])
    (after : loop.afterWrite offer = some next) (later : List Int)
    (follows : WriteReturn → Option Result) :
    (writeAllLoop (offer :: later) loop).bind follows = (writeAllLoop later next).bind fun ret =>
      follows ⟨ret.code, loop.accepted offer ++ ret.accepted, ret.unused⟩ := by
  rw [writeAllLoop, if_neg more, after]
  exact Option.bind_map

theorem accepted_gives_up (after : loop.afterWrite offer = none) : loop.accepted offer = [] := by
  unfold WriteLoop.afterWrite at after
  simp only at after
  split at after
  · rename_i low
    rw [WriteLoop.accepted, Int.toNat_of_nonpos low, List.take_zero]
  · simp at after

end WriteLoops

theorem append_nil_file (file : OpenFile) : file.append [] = file := by simp [OpenFile.append]

section Steps
variable {file after : OpenFile} {call next : PacketCall} {script : Script}

theorem finishNewline_step {sent : List UInt8} {loop : WriteLoop} {offer : Int}
    (busy : loop.rest ≠ []) :
    Busy ⟨writeOn loop offer .writeNewline .rewind .rewind, sent⟩ ∧
      finishNewline file (script.before (.diskWrite offer)) sent loop =
        finish script (file.append (loop.accepted offer))
          ⟨writeOn loop offer .writeNewline .rewind .rewind, sent⟩ := by
  unfold finishNewline writeOn Script.before
  cases goes : loop.afterWrite offer with
  | none =>
    rw [writeAllLoop_gives_up busy goes, accepted_gives_up goes]
    exact ⟨trivial, by simp [finish, append_nil_file]⟩
  | some rest =>
    rw [writeAllLoop_goes busy goes]
    by_cases done : rest.rest = []
    · rw [writeAllLoop_done done]
      simp [finish, Busy, done]
    · simp only [done, ↓reduceIte]
      refine ⟨done, ?_⟩
      simp [finish, finishNewline, append_append]

theorem finishMsg_step {sent : List UInt8} {loop : WriteLoop} {offer : Int}
    (busy : loop.rest ≠ []) :
    Busy ⟨writeOn loop offer .writeMsg beginNewline beginNewline, sent⟩ ∧
      finish (script.before (.diskWrite offer)) file ⟨.writeMsg loop, sent⟩ =
        finish script (file.append (loop.accepted offer))
          ⟨writeOn loop offer .writeMsg beginNewline beginNewline, sent⟩ := by
  have newlineLeft : newlineArray ≠ [] := by simp [newlineArray]
  unfold writeOn Script.before
  simp only [finish]
  cases goes : loop.afterWrite offer with
  | none =>
    rw [writeAllLoop_gives_up busy goes, accepted_gives_up goes]
    exact ⟨newlineLeft, by simp [beginNewline, append_nil_file]⟩
  | some rest =>
    rw [writeAllLoop_goes busy goes]
    by_cases done : rest.rest = []
    · rw [writeAllLoop_done done]
      simp [Busy, done, beginNewline, newlineLeft]
    · simp only [done, ↓reduceIte]
      refine ⟨done, ?_⟩
      simp [append_append]

theorem finishEcho_step {sent : List UInt8} {loop : WriteLoop} {offer : Int}
    (busy : loop.rest ≠ []) :
    Busy ⟨writeOn loop offer .echo .read .seekEnd, sent ++ loop.accepted offer⟩ ∧
      finish (script.before (.socketWrite offer)) file ⟨.echo loop, sent⟩ =
        finish script file
          ⟨writeOn loop offer .echo .read .seekEnd, sent ++ loop.accepted offer⟩ := by
  unfold writeOn Script.before
  simp only [finish]
  cases goes : loop.afterWrite offer with
  | none =>
    rw [writeAllLoop_gives_up busy goes, accepted_gives_up goes]
    exact ⟨trivial, by simp⟩
  | some rest =>
    rw [writeAllLoop_goes busy goes]
    by_cases done : rest.rest = []
    · rw [writeAllLoop_done done]
      simp [Busy, done]
    · simp only [done, ↓reduceIte]
      refine ⟨done, ?_⟩
      simp

theorem finishRead_step {sent : List UInt8} {offer : Int} :
    finish (script.before (.read offer)) file ⟨.read, sent⟩ =
      if file.readReturns offer ≤ 0 then finish script file ⟨.seekEnd, sent⟩
      else finish script ⟨file.content, file.offset + (file.readReturns offer).toNat⟩
        ⟨.echo ⟨(file.content.drop file.offset).take (file.readReturns offer).toNat, 0⟩, sent⟩ := by
  simp only [finish, Script.before, duplicateDataAcrossFds, writeAll]
  split
  · simp [finishCopy]
  · cases writeAllLoop script.socketWrites
      ⟨(file.content.drop file.offset).take (file.readReturns offer).toNat, 0⟩ with
    | none => rfl
    | some ret =>
      have joins (copy : CopyReturn) :
          finishCopy sent script.seeks ⟨copy.code, ret.accepted ++ copy.sent, copy.file, copy.unused⟩ =
            finishCopy (sent ++ ret.accepted) script.seeks copy := by
        simp [finishCopy]
      simp only [Option.bind_some]
      split
      · simp [finishCopy]
      · simp only [Option.bind_map, Function.comp_def, joins]

theorem read_busy {offer : Int} (more : ¬ file.readReturns offer ≤ 0) :
    (file.content.drop file.offset).take (file.readReturns offer).toNat ≠ [] := by
  intro empty
  have size := congrArg List.length empty
  simp only [List.length_take, List.length_drop, List.length_nil] at size
  unfold OpenFile.readReturns at more size
  split at more
  · simp at more
  · rw [if_neg ‹_›] at size
    simp only [maxBufSize] at more size
    omega

theorem finish_step {answer : PacketAnswer} (busy : Busy call)
    (goes : call.onAnswer file answer = some (.goes after next)) :
    Busy next ∧ finish (script.before answer) file call = finish script after next := by
  obtain ⟨phase, sent⟩ := call
  unfold PacketCall.onAnswer at goes
  split at goes
  · rename_i loop offer here
    obtain rfl : phase = .writeMsg loop := here
    obtain ⟨rfl, rfl⟩ := PacketNext.goes.inj (Option.some.inj goes)
    exact finishMsg_step busy
  · rename_i loop offer here
    obtain rfl : phase = .writeNewline loop := here
    obtain ⟨rfl, rfl⟩ := PacketNext.goes.inj (Option.some.inj goes)
    exact finishNewline_step busy
  · rename_i ok here
    obtain rfl : phase = .rewind := here
    split at goes
    · rename_i rewinds
      obtain ⟨rfl, rfl⟩ := PacketNext.goes.inj (Option.some.inj goes)
      subst rewinds
      exact ⟨trivial, rfl⟩
    · simp at goes
  · rename_i offer here
    obtain rfl : phase = .read := here
    simp only at goes
    split at goes
    · rename_i nothing
      obtain ⟨rfl, rfl⟩ := PacketNext.goes.inj (Option.some.inj goes)
      exact ⟨trivial, by rw [finishRead_step, if_pos nothing]⟩
    · rename_i more
      obtain ⟨rfl, rfl⟩ := PacketNext.goes.inj (Option.some.inj goes)
      exact ⟨read_busy more, by rw [finishRead_step, if_neg more]⟩
  · rename_i loop offer here
    obtain rfl : phase = .echo loop := here
    obtain ⟨rfl, rfl⟩ := PacketNext.goes.inj (Option.some.inj goes)
    exact finishEcho_step busy
  · rename_i ok here
    obtain rfl : phase = .seekEnd := here
    split at goes
    · rename_i seeks
      obtain ⟨rfl, rfl⟩ := PacketNext.goes.inj (Option.some.inj goes)
      subst seeks
      exact ⟨trivial, rfl⟩
    · simp at goes
  · simp at goes

theorem goes_busy {answer : PacketAnswer} (busy : Busy call)
    (goes : call.onAnswer file answer = some (.goes after next)) : Busy next :=
  (@finish_step file after call next ⟨[], [], [], []⟩ answer busy goes).1

theorem finish_exits {answer : PacketAnswer} {status : Int}
    (exits : call.onAnswer file answer = some (.exits status)) :
    finish (script.before answer) file call = some ⟨file, call.sent, .exited status⟩ := by
  obtain ⟨phase, sent⟩ := call
  unfold PacketCall.onAnswer at exits
  split at exits
  · simp at exits
  · simp at exits
  · rename_i ok here
    obtain rfl : phase = .rewind := here
    split at exits
    · simp at exits
    · rename_i fails
      obtain rfl := PacketNext.exits.inj (Option.some.inj exits)
      simp [finish, finishEcho, Script.before, fails]
  · simp only at exits
    split at exits
    · simp at exits
    · simp at exits
  · simp at exits
  · rename_i ok here
    obtain rfl : phase = .seekEnd := here
    split at exits
    · simp at exits
    · rename_i fails
      obtain rfl := PacketNext.exits.inj (Option.some.inj exits)
      simp [finish, finishSeek, Script.before, fails]
  · simp at exits

/-- The steps give what the one call gives on their answers. -/
theorem finish_of_steps {answers : List PacketAnswer} {run : PacketRun} (busy : Busy call)
    (steps : stepThrough answers file call = some run) :
    finish (script.behind answers) file call = some run := by
  induction answers generalizing file call with
  | nil =>
    rw [stepThrough] at steps
    split at steps
    · rename_i done
      cases steps
      simp [finish, done]
    · simp at steps
  | cons answer later ih =>
    rw [stepThrough] at steps
    show finish ((script.behind later).before answer) file call = some run
    split at steps
    · simp at steps
    · rename_i status exits
      split at steps
      · cases steps
        exact finish_exits exits
      · simp at steps
    · rename_i after next goes
      obtain ⟨busyNext, same⟩ := @finish_step file after call next (script.behind later) answer busy goes
      rw [same]
      exact ih busyNext steps

/-- While the one call is not at its end it asks for an answer that the script has. -/
theorem finish_asks {run : PacketRun} (busy : Busy call)
    (done : finish script file call = some run) :
    call.phase = .unlock ∨
      ∃ answer rest next, script = Script.before answer rest ∧ call.onAnswer file answer = some next := by
  obtain ⟨diskWrites, seeks, reads, socketWrites⟩ := script
  obtain ⟨phase, sent⟩ := call
  cases phase with
  | writeMsg loop =>
    cases diskWrites with
    | nil => simp [finish, writeAllLoop, show loop.rest ≠ [] from busy] at done
    | cons offer later => exact Or.inr ⟨.diskWrite offer, ⟨later, seeks, reads, socketWrites⟩, _, rfl, rfl⟩
  | writeNewline loop =>
    cases diskWrites with
    | nil => simp [finish, finishNewline, writeAllLoop, show loop.rest ≠ [] from busy] at done
    | cons offer later => exact Or.inr ⟨.diskWrite offer, ⟨later, seeks, reads, socketWrites⟩, _, rfl, rfl⟩
  | rewind =>
    cases seeks with
    | nil => simp [finish, finishEcho] at done
    | cons ok later =>
      refine Or.inr ⟨.seek ok, ⟨diskWrites, later, reads, socketWrites⟩, ?_⟩
      cases ok <;> exact ⟨_, rfl, rfl⟩
  | read =>
    cases reads with
    | nil => simp [finish, duplicateDataAcrossFds] at done
    | cons offer later =>
      refine Or.inr ⟨.read offer, ⟨diskWrites, seeks, later, socketWrites⟩, ?_⟩
      simp only [PacketCall.onAnswer]
      split <;> exact ⟨_, rfl, rfl⟩
  | echo loop =>
    cases socketWrites with
    | nil => simp [finish, writeAllLoop, show loop.rest ≠ [] from busy] at done
    | cons offer later => exact Or.inr ⟨.socketWrite offer, ⟨diskWrites, seeks, reads, later⟩, _, rfl, rfl⟩
  | seekEnd =>
    cases seeks with
    | nil => simp [finish, finishSeek] at done
    | cons ok later =>
      refine Or.inr ⟨.seek ok, ⟨diskWrites, later, reads, socketWrites⟩, ?_⟩
      cases ok <;> exact ⟨_, rfl, rfl⟩
  | unlock => exact Or.inl rfl

def Script.size (script : Script) : Nat :=
  script.diskWrites.length + script.seeks.length + script.reads.length + script.socketWrites.length

theorem size_before (answer : PacketAnswer) (script : Script) :
    (script.before answer).size = script.size + 1 := by
  cases answer <;> simp only [Script.before, Script.size, List.length_cons] <;> omega

/-- The one call is what the steps give on the answers that it uses. -/
theorem steps_of_finish {run : PacketRun} (busy : Busy call)
    (done : finish script file call = some run) :
    ∃ answers rest, script = Script.behind answers rest ∧ stepThrough answers file call = some run := by
  induction size : script.size generalizing script file call with
  | zero =>
    rcases finish_asks busy done with ended | ⟨answer, rest, next, rfl, _⟩
    · refine ⟨[], script, rfl, ?_⟩
      simp only [finish, ended] at done
      simp [stepThrough, ended, done]
    · simp [size_before] at size
  | succ size ih =>
    rcases finish_asks busy done with ended | ⟨answer, rest, next, rfl, asks⟩
    · refine ⟨[], script, rfl, ?_⟩
      simp only [finish, ended] at done
      simp [stepThrough, ended, done]
    · cases next with
      | exits status =>
        rw [finish_exits asks] at done
        refine ⟨[answer], rest, rfl, ?_⟩
        simp [stepThrough, asks, done]
      | goes after later =>
        obtain ⟨busyNext, same⟩ := finish_step busy asks
        rw [same] at done
        obtain ⟨answers, unused, rfl, steps⟩ :=
          ih busyNext done (by rw [size_before] at size; omega)
        refine ⟨answer :: answers, unused, rfl, ?_⟩
        simp [stepThrough, asks, steps]

end Steps

def scriptOf (schedules : Schedules) : Script :=
  ⟨schedules.diskWrites, [schedules.rewinds, schedules.seeks], schedules.reads,
    schedules.socketWrites⟩

theorem spit_finish (file : OpenFile) (schedules : Schedules) :
    spitFileBackOutToSocket file schedules.rewinds schedules.seeks schedules.reads
      schedules.socketWrites = finishEcho file (scriptOf schedules) [] := by
  obtain ⟨diskWrites, rewinds, reads, socketWrites, seeks⟩ := schedules
  simp only [spitFileBackOutToSocket, finishEcho, scriptOf]
  cases rewinds with
  | false => rfl
  | true =>
    cases duplicateDataAcrossFds reads ⟨file.content, 0⟩ socketWrites with
    | none => rfl
    | some copy => cases seeks <;> rfl

theorem handlePacket_finish (file : OpenFile) (msg : List UInt8) (schedules : Schedules) :
    handlePacket file msg schedules = finish (scriptOf schedules) file (beginPacket msg) := by
  have echo (unused : List Int) (file : OpenFile) :
      finishEcho file { scriptOf schedules with diskWrites := unused } [] =
        spitFileBackOutToSocket file schedules.rewinds schedules.seeks schedules.reads
          schedules.socketWrites :=
    (spit_finish file { schedules with diskWrites := unused }).symm
  have newline (unused : List Int) (file : OpenFile) :
      finishNewline file { scriptOf schedules with diskWrites := unused } [] ⟨newlineArray, 0⟩ =
        (writeAll newlineArray unused).bind fun ending =>
          spitFileBackOutToSocket (file.append ending.accepted) schedules.rewinds schedules.seeks
            schedules.reads schedules.socketWrites := by
    simp only [finishNewline, echo, writeAll]
  have whole : handlePacket file msg schedules =
      (writeAll msg schedules.diskWrites).bind fun record =>
        (writeAll newlineArray record.unused).bind fun ending =>
          spitFileBackOutToSocket ((file.append record.accepted).append ending.accepted)
            schedules.rewinds schedules.seeks schedules.reads schedules.socketWrites := by
    unfold handlePacket
    cases writeAll msg schedules.diskWrites with
    | none => rfl
    | some record => cases second : writeAll newlineArray record.unused <;> simp [second]
  rw [whole]
  unfold finish beginPacket
  by_cases empty : msg = []
  · subst empty
    have same := newline schedules.diskWrites file
    simp only [beginNewline, ↓reduceIte, writeAll, writeAllLoop_done, Option.bind_some, append_nil_file]
    exact same.symm
  · simp only [empty, ↓reduceIte, newline]
    rfl

def Uses (schedules : Schedules) (answers : List PacketAnswer) : Prop :=
  ∃ rest, scriptOf schedules = Script.behind answers rest

/-- handle_packet as one call does on schedules what its steps do, between the moment it has
    the mutex and the moment it gives it back, on the answers that it uses of them. -/
theorem handle_packet_is_its_steps (file : OpenFile) (msg : List UInt8) (schedules : Schedules)
    (run : PacketRun) :
    handlePacket file msg schedules = some run ↔
      ∃ answers, Uses schedules answers ∧ stepThrough answers file (beginPacket msg) = some run := by
  rw [handlePacket_finish]
  constructor
  · intro done
    obtain ⟨answers, rest, used, steps⟩ := steps_of_finish (begin_busy msg) done
    exact ⟨answers, ⟨rest, used⟩, steps⟩
  · rintro ⟨answers, ⟨rest, used⟩, steps⟩
    rw [used]
    exact finish_of_steps (begin_busy msg) steps

structure PacketState where
  file : OpenFile
  call : PacketCall
  deriving DecidableEq, Repr

def packetStep (s : PacketState) (answer : PacketAnswer) : Option PacketState :=
  match s.call.onAnswer s.file answer with
  | some (.goes file call) => some ⟨file, call⟩
  | _ => none

def packetMachine : Machine PacketState PacketAnswer := ⟨packetStep⟩

theorem packetStep_iff {s t : PacketState} {answer : PacketAnswer} :
    packetStep s answer = some t ↔ s.call.onAnswer s.file answer = some (.goes t.file t.call) := by
  obtain ⟨file, call⟩ := t
  unfold packetStep
  split
  · rename_i after next goes
    simp [goes]
  · rename_i other
    constructor
    · simp
    · exact fun goes => absurd goes (other file call)

theorem stepThrough_append {answers later : List PacketAnswer} {s t : PacketState}
    (run : packetMachine.run s answers = some t) :
    stepThrough (answers ++ later) s.file s.call = stepThrough later t.file t.call := by
  induction answers generalizing s with
  | nil =>
    obtain rfl := Option.some.inj run
    rfl
  | cons answer rest ih =>
    obtain ⟨mid, taken, further⟩ := run_cons_iff.mp run
    have goes := packetStep_iff.mp taken
    simp only [List.cons_append, stepThrough, goes]
    exact ih further

/-- The schedules that the answers are, an lseek that was not made taken as one that works. -/
def schedulesOf (answers : List PacketAnswer) : Schedules :=
  let script := Script.behind answers ⟨[], [], [], []⟩
  ⟨script.diskWrites, script.seeks.headD true, script.reads, script.socketWrites,
    script.seeks.tail.headD true⟩

/-- handle_packet makes at most two calls of lseek. -/
theorem finishEcho_seeks {file : OpenFile} {script : Script} {sent : List UInt8} {run : PacketRun}
    (done : finishEcho file script sent = some run) :
    finishEcho file
      { script with seeks := [script.seeks.headD true, script.seeks.tail.headD true] } sent =
        some run := by
  obtain ⟨diskWrites, seeks, reads, socketWrites⟩ := script
  unfold finishEcho at done ⊢
  cases seeks with
  | nil => simp at done
  | cons rewinds seeks =>
    cases rewinds with
    | false => exact done
    | true =>
      cases seeks with
      | nil =>
        obtain ⟨copy, _, last⟩ := Option.bind_eq_some_iff.mp done
        simp [finishCopy, finishSeek] at last
      | cons ok later =>
        obtain ⟨copy, copied, last⟩ := Option.bind_eq_some_iff.mp done
        refine Option.bind_eq_some_iff.mpr ⟨copy, copied, ?_⟩
        cases ok <;> exact last

theorem finishNewline_seeks {file : OpenFile} {script : Script} {sent : List UInt8}
    {loop : WriteLoop} {run : PacketRun} (done : finishNewline file script sent loop = some run) :
    finishNewline file
      { script with seeks := [script.seeks.headD true, script.seeks.tail.headD true] } sent loop =
        some run := by
  obtain ⟨ending, written, echo⟩ := Option.bind_eq_some_iff.mp done
  exact Option.bind_eq_some_iff.mpr ⟨ending, written, finishEcho_seeks echo⟩

theorem finish_seeks {script : Script} {file : OpenFile} {msg : List UInt8} {run : PacketRun}
    (done : finish script file (beginPacket msg) = some run) :
    finish { script with seeks := [script.seeks.headD true, script.seeks.tail.headD true] } file
      (beginPacket msg) = some run := by
  unfold finish beginPacket at done ⊢
  by_cases empty : msg = []
  · simp only [empty, ↓reduceIte, beginNewline] at done ⊢
    exact finishNewline_seeks done
  · simp only [empty, ↓reduceIte] at done ⊢
    obtain ⟨record, written, newline⟩ := Option.bind_eq_some_iff.mp done
    exact Option.bind_eq_some_iff.mpr ⟨record, written, finishNewline_seeks newline⟩

/-- What the steps do is what the one call does on the schedules that their answers are. -/
theorem handlePacket_of_steps {answers : List PacketAnswer} {file : OpenFile} {msg : List UInt8}
    {run : PacketRun} (steps : stepThrough answers file (beginPacket msg) = some run) :
    handlePacket file msg (schedulesOf answers) = some run := by
  rw [handlePacket_finish]
  exact finish_seeks (finish_of_steps (begin_busy msg) steps)

end PacketSchedules
