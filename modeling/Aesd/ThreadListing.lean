import Aesd.ServerLifetimes

/-! The thread list from add_thread_to_list to shutdown_operations. Handlers are numbered
    in the order of their creation and inserted at the head, so the list runs from the
    newest down to 0, and the drain removes it in that order. -/
namespace ThreadListing
open TransitionRuns LinkedCells PacketAppend ServerState ServerSteps ServerMoves ServerLifetimes

inductive DrainPoint where
  | notBegun
  | joining (node : Nat)
  | removing (node : Nat)
  | reading (node : Nat)
  | freeing (node : Nat) (next : Option Nat)
  | done
  deriving DecidableEq, Repr

def drainPoint : MainPhase → DrainPoint
  | .joinNode node => .joining node
  | .removeNode node => .removing node
  | .nextNode node => .reading node
  | .freeNode node next => .freeing node next
  | .freeHead => .done
  | .closeSocket => .done
  | .closeDisk => .done
  | .freeRunFlag => .done
  | .freeListeningFlag => .done
  | .freeDueFlag => .done
  | .removeFile => .done
  | .finished => .done
  | _ => .notBegun

/-- Of so many in all, the threads not joined, the nodes still linked and the nodes not
    freed are those below these numbers. -/
def DrainPoint.unjoined (total : Nat) : DrainPoint → Nat
  | .notBegun => total
  | .joining node => node + 1
  | .removing node => node
  | .reading node => node
  | .freeing node _ => node
  | .done => 0

def DrainPoint.linked (total : Nat) : DrainPoint → Nat
  | .notBegun => total
  | .joining node => node + 1
  | .removing node => node + 1
  | .reading node => node
  | .freeing node _ => node
  | .done => 0

def DrainPoint.unfreed (total : Nat) : DrainPoint → Nat
  | .notBegun => total
  | .joining node => node + 1
  | .removing node => node + 1
  | .reading node => node + 1
  | .freeing node _ => node + 1
  | .done => 0

/-- What the local variable node of shutdown_operations points to. -/
def DrainPoint.Cursor (list : LinkedList Nat) : DrainPoint → Prop
  | .reading node => ∃ cell, read list.cells node = some cell ∧ cell.next = list.first
  | .freeing node next => node < list.cells.length ∧ next = list.first
  | _ => True

def unlisted : ListenPhase → Nat
  | .addThread _ => 1
  | _ => 0

def descending : Nat → List Nat
  | 0 => []
  | count + 1 => count :: descending count

structure Listing (s : Server) : Prop where
  handles : ∀ (p : Nat) (cell : Cell Nat), s.threads.cells[p]? = some cell → cell.value = p
  count : s.handlers.length = s.threads.cells.length + unlisted s.listen
  handle : ∀ handle, s.listen = .addThread handle → handle = s.threads.cells.length
  chain : Chain s.threads.cells s.threads.first
    (descending ((drainPoint s.main).linked s.threads.cells.length))
  joined : ∀ (i : Nat) (handler : HandlerThread), s.handlers[i]? = some handler →
    (handler.joined = true ↔ (drainPoint s.main).unjoined s.handlers.length ≤ i)
  freed : ∀ (p : Nat) (cell : Cell Nat), s.threads.cells[p]? = some cell →
    (cell.freed = true ↔ (drainPoint s.main).unfreed s.threads.cells.length ≤ p)
  cursor : (drainPoint s.main).Cursor s.threads
  ended : ∀ handler ∈ s.handlers, handler.joined = true → handler.phase = .finished

variable {s t : Server}

theorem mem_descending {p count : Nat} : p ∈ descending count ↔ p < count := by
  induction count with
  | zero => simp [descending]
  | succ count ih =>
    rw [descending, List.mem_cons, ih]
    omega

theorem descending_length (count : Nat) : (descending count).length = count := by
  induction count with
  | zero => rfl
  | succ count ih => rw [descending, List.length_cons, ih]

theorem descending_perm (count : Nat) : (descending count).Perm (List.range count) := by
  induction count with
  | zero => exact List.Perm.nil
  | succ count ih =>
    rw [descending, List.range_succ]
    exact (ih.cons count).trans (List.perm_append_singleton count _).symm

theorem listing_boot (daemonMode : Bool) (file : OpenFile) : Listing (boot daemonMode file) where
  handles := by simp [boot]
  count := rfl
  handle := by simp [boot]
  chain := rfl
  joined := by simp [boot]
  freed := by simp [boot]
  cursor := trivial
  ended := by simp [boot]

theorem lookup_of_map {β : Type*} {f : HandlerThread → β} {handlers later : List HandlerThread}
    (same : later.map f = handlers.map f) {i : Nat} {handler : HandlerThread}
    (found : later[i]? = some handler) : ∃ old, handlers[i]? = some old ∧ f old = f handler := by
  have mapped := congrArg (fun values => values[i]?) same
  simp only [List.getElem?_map, found, Option.map_some] at mapped
  exact Option.map_eq_some_iff.mp mapped.symm

theorem lookup_snoc {β : Type*} {xs : List β} {x y : β} {i : Nat}
    (found : (xs ++ [x])[i]? = some y) : xs[i]? = some y ∧ i < xs.length ∨ i = xs.length ∧ y = x := by
  rcases Nat.lt_trichotomy i xs.length with inside | rfl | outside
  · rw [List.getElem?_append_left inside] at found
    exact Or.inl ⟨found, inside⟩
  · rw [List.getElem?_concat_length, Option.some.injEq] at found
    exact Or.inr ⟨rfl, found.symm⟩
  · rw [List.getElem?_eq_none (by rw [List.length_append, List.length_singleton]; omega)] at found
    simp at found

/-- Steps that leave the list, the joined marks and the two threads that use them alone. -/
theorem listing_same (held : Listing s) (main : drainPoint t.main = drainPoint s.main)
    (listen : t.listen = s.listen) (threads : t.threads = s.threads)
    (joined : t.handlers.map HandlerThread.joined = s.handlers.map HandlerThread.joined)
    (ended : ∀ handler ∈ t.handlers, handler.joined = true → handler.phase = .finished) :
    Listing t := by
  have length : t.handlers.length = s.handlers.length := by
    simpa using congrArg List.length joined
  refine ⟨?_, ?_, ?_, ?_, ?_, ?_, ?_, ended⟩
  · rw [threads]
    exact held.handles
  · rw [length, threads, listen]
    exact held.count
  · rw [threads, listen]
    exact held.handle
  · rw [threads, main]
    exact held.chain
  · intro i handler found
    obtain ⟨old, before, same⟩ := lookup_of_map joined found
    rw [← same, main, length]
    exact held.joined i old before
  · rw [threads, main]
    exact held.freed
  · rw [threads, main]
    exact held.cursor

theorem ended_set (held : Listing s) {index : Nat} {handler next : HandlerThread}
    (found : s.handlers[index]? = some handler) (joined : next.joined = handler.joined)
    (live : handler.phase ≠ .finished ∨ next.phase = handler.phase) :
    ∀ other ∈ s.handlers.set index next, other.joined = true → other.phase = .finished := by
  intro other member marked
  rcases List.mem_or_eq_of_mem_set member with old | rfl
  · exact held.ended other old marked
  · have finished := held.ended handler (List.mem_of_getElem? found) (joined ▸ marked)
    rcases live with live | same
    · exact absurd finished live
    · rw [same, finished]

theorem listing_handler {index : Nat} (held : Listing s) (moves : HandlerMoves s index t) :
    Listing t := by
  obtain ⟨main, listen, _, _, _, threads, joined, _, _⟩ := aside_handler moves
  refine listing_same held (by rw [main]) listen threads joined ?_
  cases moves with
  | goes found live _ _ _ => exact ended_set held found rfl (Or.inl live)
  | locks found here _ => exact ended_set held found rfl (Or.inl (by simp [here]))
  | writes found here => exact ended_set held found rfl (Or.inl (by simp [here]))
  | unlocks found here => exact ended_set held found rfl (Or.inl (by simp [here]))
  | closes found here => exact ended_set held found rfl (Or.inl (by simp [here]))
  | ends found live => exact held.ended

theorem listing_client {index : Nat} {handler : HandlerThread} (held : Listing s)
    (found : s.handlers[index]? = some handler) (peer : Peer) :
    Listing (s.setHandler index { handler with peer := peer }) := by
  obtain ⟨main, listen, _, _, _, threads, joined, _, _⟩ := aside_client found peer
  exact listing_same held (by rw [main]) listen threads joined
    (ended_set held found rfl (Or.inr rfl))

theorem listing_signal {signal : Signal} (held : Listing s) (moves : SignalMoves s signal t) :
    Listing t := by
  cases moves <;> exact listing_same held rfl rfl rfl rfl held.ended

theorem listing_stamp {answer : StampAnswer} (held : Listing s) (moves : StampMoves s answer t) :
    Listing t := by
  cases moves <;> exact listing_same held rfl rfl rfl rfl held.ended

def Early : Stage → Prop
  | .booting => True
  | .preparing => True
  | .stamping => True
  | .serving => True
  | .listenJoined => True
  | _ => False

theorem early_point {phase : MainPhase} (early : Early (stage phase)) :
    drainPoint phase = .notBegun := by
  cases phase <;> first | rfl | exact early.elim

theorem drained_point {phase : MainPhase} (drained : stage phase = .drained) :
    drainPoint phase = .done := by
  cases phase <;> first | rfl | cases drained

theorem listening_notBegun (life : Lifetimes s) (here : Running s.listen) :
    drainPoint s.main = .notBegun := by
  apply early_point
  rw [listening_stage life here]
  trivial

theorem listing_listen {answer : ListenAnswer} (life : Lifetimes s) (held : Listing s)
    (moves : ListenMoves s answer t) : Listing t := by
  obtain ⟨handles, count, handle, chain, joined, freed, cursor, ended⟩ := held
  cases moves with
  | @goes _ next here there listed nextListed =>
    have none_before : unlisted s.listen = 0 := by
      cases phase : s.listen <;> simp_all [unlisted]
    have none_after : unlisted next = 0 := by
      cases next <;> simp_all [unlisted]
    exact ⟨handles, by rw [none_after, count, none_before],
      fun h absent => absurd absent (nextListed h), chain, joined, freed, cursor, ended⟩
  | accepts here fresh =>
    rw [here] at count
    exact ⟨handles, count, by simp, chain, joined, freed, cursor, ended⟩
  | @creates connection here =>
    have point := listening_notBegun life (by simp [Running, here])
    rw [here] at count
    have count : s.handlers.length = s.threads.cells.length := count
    simp only [point, DrainPoint.unjoined] at joined
    refine ⟨handles, by simp [unlisted, count], ?_, chain, ?_, freed, cursor, ?_⟩
    · intro h same
      rw [← ListenPhase.addThread.inj same, count]
    · intro i handler found
      simp only [point, DrainPoint.unjoined, List.length_append, List.length_singleton]
      rcases lookup_snoc found with ⟨old, inside⟩ | ⟨rfl, rfl⟩
      · rw [joined i handler old]
        omega
      · simp only [Bool.false_eq_true, false_iff]
        omega
    · intro handler member marked
      rcases List.mem_append.mp member with old | new
      · exact ended handler old marked
      · obtain rfl := List.mem_singleton.mp new
        simp at marked
  | @lists newest here =>
    have point := listening_notBegun life (by simp [Running, here])
    obtain rfl := handle newest here
    rw [here] at count
    simp only [point, DrainPoint.linked] at chain
    simp only [point, DrainPoint.unfreed] at freed
    refine ⟨?_, by simpa [insertHead, unlisted] using count, by simp, ?_, joined, ?_, ?_, ended⟩
    · intro p cell found
      rcases lookup_snoc found with ⟨old, _⟩ | ⟨rfl, rfl⟩
      · exact handles p cell old
      · rfl
    · simp only [point, DrainPoint.linked]
      have longer := chain_insertHead chain s.threads.cells.length
      simpa [insertHead, descending] using longer
    · intro p cell found
      simp only [point, DrainPoint.unfreed, insertHead, List.length_append, List.length_singleton]
      rcases lookup_snoc found with ⟨old, inside⟩ | ⟨rfl, rfl⟩
      · rw [freed p cell old]
        omega
      · simp only [Bool.false_eq_true, false_iff]
        omega
    · simp only [point]
      trivial
  | closes here =>
    rw [here] at count
    exact ⟨handles, count, by simp, chain, joined, freed, cursor, ended⟩
  | exits here => exact ⟨handles, count, handle, chain, joined, freed, cursor, ended⟩
  | goesWrong here cause => exact ⟨handles, count, handle, chain, joined, freed, cursor, ended⟩

/-- The steps of shutdown_operations as the list is when they are taken: the node that is
    joined, removed, read and freed is always the first one, and it is never freed before. -/
inductive DrainMoves (s : Server) : Server → Prop where
  | clears (here : s.main = .clearRunFlag) :
      DrainMoves s { s with runFlag := .live false, main := .firstNode }
  | begins (here : s.main = .firstNode) :
      DrainMoves s { s with main := atNode s.threads.first }
  | joins {node : Nat} {handler : HandlerThread} (here : s.main = .joinNode node)
      (found : s.handlers[node]? = some handler) (ended : handler.phase = .finished) :
      DrainMoves s
        { s.setHandler node { handler with joined := true } with main := .removeNode node }
  | removes {node : Nat} {cell : Cell Nat} (here : s.main = .removeNode node)
      (found : read s.threads.cells node = some cell)
      (rest : Chain s.threads.cells cell.next (descending node)) :
      DrainMoves s
        { s with threads := ⟨cell.next, s.threads.cells⟩, main := .nextNode node }
  | reads {node : Nat} (here : s.main = .nextNode node) (inside : node < s.threads.cells.length) :
      DrainMoves s { s with main := .freeNode node s.threads.first }
  | frees {node : Nat} {next : Option Nat} {threads : LinkedList Nat}
      (here : s.main = .freeNode node next) (freed : free s.threads node = some threads) :
      DrainMoves s { s with threads := threads, main := atNode s.threads.first }

theorem finished_counts (held : Listing s) (ended : s.listen = .finished) :
    s.handlers.length = s.threads.cells.length := by
  have count := held.count
  rwa [ended] at count

theorem read_unfreed (held : Listing s) {node : Nat} (inside : node < s.threads.cells.length)
    (below : node < (drainPoint s.main).unfreed s.threads.cells.length) :
    ∃ cell, read s.threads.cells node = some cell ∧ cell.value = node := by
  have found : s.threads.cells[node]? = some s.threads.cells[node] := List.getElem?_eq_getElem inside
  refine ⟨s.threads.cells[node], read_eq_some_iff.mpr ⟨found, ?_⟩, held.handles node _ found⟩
  have freed := held.freed node _ found
  simpa [Nat.not_le.mpr below] using freed

theorem chain_first {node : Nat} {cells : List (Cell Nat)} {start : Option Nat}
    (chain : Chain cells start (descending (node + 1))) :
    start = some node ∧ node < cells.length := by
  obtain ⟨here, cell, found, _⟩ := chain
  obtain ⟨inside, _⟩ := List.getElem?_eq_some_iff.mp (read_eq_some_iff.mp found).1
  exact ⟨here, inside⟩

theorem drain_answer {answer : MainAnswer} (here : stage s.main = .draining)
    (taken : mainStep s answer = some t) : answer = .ok := by
  cases at_main : s.main with
  | clearRunFlag | firstNode | joinNode _ | removeNode _ | nextNode _ | freeNode _ _ =>
    cases answer with
    | ok => rfl
    | fails | errno _ | fd _ =>
      unfold mainStep at taken
      simp only [at_main] at taken
      cases taken
  | _ =>
    rw [at_main] at here
    cases here

theorem join_moves {node : Nat} (held : Listing s) (ended : s.listen = .finished)
    (at_main : s.main = .joinNode node) (taken : mainStep s .ok = some t) : DrainMoves s t := by
  have counts := finished_counts held ended
  have chain := held.chain
  rw [at_main] at chain
  obtain ⟨_, inside⟩ := chain_first chain
  obtain ⟨cell, found, value⟩ := read_unfreed held inside (by simp [at_main, drainPoint,
    DrainPoint.unfreed])
  have handler : s.handlers[node]? = some s.handlers[node] := List.getElem?_eq_getElem (by omega)
  have joined := held.joined node _ handler
  simp only [at_main, drainPoint, DrainPoint.unjoined] at joined
  unfold mainStep at taken
  simp only [at_main, found, value, joinHandler, handler] at taken
  split at taken
  · rename_i already
    exact absurd (joined.mp already) (Nat.not_succ_le_self node)
  · split at taken
    · rename_i ended
      cases taken
      exact .joins at_main handler ended
    · simp at taken

theorem remove_moves {node : Nat} (held : Listing s) (at_main : s.main = .removeNode node)
    (taken : mainStep s .ok = some t) : DrainMoves s t := by
  have chain := held.chain
  rw [at_main] at chain
  obtain ⟨cell, found, removed, rest⟩ := remove_first chain
  unfold mainStep at taken
  simp only [at_main, removed] at taken
  cases taken
  exact .removes at_main found rest

theorem next_moves {node : Nat} (held : Listing s) (at_main : s.main = .nextNode node)
    (taken : mainStep s .ok = some t) : DrainMoves s t := by
  have cursor := held.cursor
  rw [at_main] at cursor
  obtain ⟨cell, found, next⟩ := cursor
  obtain ⟨inside, _⟩ := List.getElem?_eq_some_iff.mp (read_eq_some_iff.mp found).1
  unfold mainStep at taken
  simp only [at_main, found] at taken
  cases taken
  rw [next]
  exact .reads at_main inside

theorem free_moves {node : Nat} {next : Option Nat} (held : Listing s)
    (at_main : s.main = .freeNode node next) (taken : mainStep s .ok = some t) :
    DrainMoves s t := by
  have cursor := held.cursor
  rw [at_main] at cursor
  obtain ⟨inside, first⟩ := cursor
  obtain ⟨cell, found, _⟩ := read_unfreed held inside (by simp [at_main, drainPoint,
    DrainPoint.unfreed])
  have freed : free s.threads node =
      some ⟨s.threads.first, s.threads.cells.set node { cell with freed := true }⟩ := by
    simp [free, found]
  unfold mainStep at taken
  simp only [at_main, freed] at taken
  cases taken
  rw [first]
  exact .frees at_main freed

theorem drain_moves {answer : MainAnswer} (life : Lifetimes s) (held : Listing s)
    (here : stage s.main = .draining) (taken : mainStep s answer = some t) : DrainMoves s t := by
  obtain rfl := drain_answer here taken
  obtain ⟨value, flag⟩ : Live s.runFlag := by
    have runFlag := life.runFlag
    rwa [here] at runFlag
  have ended : s.listen = .finished := by
    have listen := life.listen
    rwa [here] at listen
  cases at_main : s.main with
  | clearRunFlag =>
    unfold mainStep at taken
    simp only [at_main, flag] at taken
    cases taken
    exact .clears at_main
  | firstNode =>
    unfold mainStep at taken
    simp only [at_main] at taken
    cases taken
    exact .begins at_main
  | joinNode node => exact join_moves held ended at_main taken
  | removeNode node => exact remove_moves held at_main taken
  | nextNode node => exact next_moves held at_main taken
  | freeNode node next => exact free_moves held at_main taken
  | _ =>
    rw [at_main] at here
    cases here

theorem atNode_descending {cells : List (Cell Nat)} {start : Option Nat} {count : Nat}
    (chain : Chain cells start (descending count)) :
    (∀ total, (drainPoint (atNode start)).unjoined total = count) ∧
      (∀ total, (drainPoint (atNode start)).linked total = count) ∧
      (∀ total, (drainPoint (atNode start)).unfreed total = count) ∧
      ∀ list, (drainPoint (atNode start)).Cursor list := by
  cases count with
  | zero =>
    obtain rfl : start = none := chain
    exact ⟨fun _ => rfl, fun _ => rfl, fun _ => rfl, fun _ => trivial⟩
  | succ count =>
    obtain ⟨rfl, _⟩ := chain_first chain
    exact ⟨fun _ => rfl, fun _ => rfl, fun _ => rfl, fun _ => trivial⟩

theorem listing_drain (held : Listing s) (finished : s.listen = .finished)
    (moves : DrainMoves s t) : Listing t := by
  have counts := finished_counts held finished
  obtain ⟨handles, count, handle, chain, joined, freed, cursor, ended⟩ := held
  cases moves with
  | clears here =>
    rw [here] at chain joined freed
    exact ⟨handles, count, handle, chain, joined, freed, trivial, ended⟩
  | begins here =>
    simp only [here, drainPoint, DrainPoint.linked, DrainPoint.unjoined,
      DrainPoint.unfreed] at chain joined freed
    obtain ⟨unjoined, linked, unfreed, cursor⟩ := atNode_descending chain
    refine ⟨handles, count, handle, ?_, ?_, ?_, cursor _, ended⟩
    · simpa only [linked] using chain
    · simpa only [unjoined, counts] using joined
    · simpa only [unfreed] using freed
  | @joins node handler here found done =>
    simp only [here, drainPoint, DrainPoint.linked, DrainPoint.unjoined,
      DrainPoint.unfreed] at chain joined freed
    refine ⟨handles, ?_, handle, chain, ?_, freed, trivial, ?_⟩
    · simpa [Server.setHandler] using count
    · intro i other at_i
      simp only [drainPoint, DrainPoint.unjoined]
      by_cases same : node = i
      · subst same
        obtain ⟨inside, _⟩ := List.getElem?_eq_some_iff.mp found
        simp only [Server.setHandler, List.getElem?_set_self inside, Option.some.injEq] at at_i
        simp [← at_i]
      · simp only [Server.setHandler, List.getElem?_set_ne same] at at_i
        rw [joined i other at_i]
        omega
    · intro other member marked
      rcases List.mem_or_eq_of_mem_set member with old | rfl
      · exact ended other old marked
      · exact done
  | @removes node cell here found rest =>
    simp only [here, drainPoint, DrainPoint.linked, DrainPoint.unjoined,
      DrainPoint.unfreed] at chain joined freed
    exact ⟨handles, count, handle, rest, joined, freed, ⟨cell, found, rfl⟩, ended⟩
  | @reads node here inside =>
    simp only [here, drainPoint, DrainPoint.linked, DrainPoint.unjoined,
      DrainPoint.unfreed] at chain joined freed
    exact ⟨handles, count, handle, chain, joined, freed, ⟨inside, rfl⟩, ended⟩
  | @frees node next threads here gone =>
    simp only [here, drainPoint, DrainPoint.linked, DrainPoint.unjoined,
      DrainPoint.unfreed] at chain joined freed
    have later := chain_free chain (by simp [mem_descending]) gone
    have same : threads.first = s.threads.first ∧
        threads.cells.length = s.threads.cells.length := by
      obtain ⟨cell, found, rfl⟩ := Option.map_eq_some_iff.mp gone
      simp
    obtain ⟨unjoined, linked, unfreed, cursor⟩ := atNode_descending chain
    refine ⟨?_, by rw [same.2]; exact count, by rw [same.2]; exact handle, ?_, ?_, ?_, cursor _,
      ended⟩
    · intro p cell at_p
      obtain ⟨old, before, value, _⟩ := free_lookup gone at_p
      rw [value, handles p old before]
    · simpa only [linked, same.1] using later
    · simpa only [unjoined] using joined
    · intro p cell at_p
      obtain ⟨old, before, _, marked⟩ := free_lookup gone at_p
      rw [marked, freed p old before, unfreed]
      omega

/-- Outside shutdown_operations main changes neither the list nor the handlers. -/
theorem main_keeps_list {answer : MainAnswer} (outside : stage s.main ≠ .draining)
    (moves : MainMoves s answer t) :
    drainPoint t.main = drainPoint s.main ∧ t.handlers = s.handlers ∧ t.threads = s.threads ∧
      (t.listen = s.listen ∨ s.main = .createListen ∧ t.listen = .top) := by
  cases moves with
  | initRunFlag here => exact ⟨by rw [here]; rfl, rfl, rfl, Or.inl rfl⟩
  | catches here there =>
    have before : drainPoint s.main = .notBegun := early_point (by rw [here]; trivial)
    exact ⟨by rw [before, early_point (by rw [there]; trivial)], rfl, rfl, Or.inl rfl⟩
  | opensDisk here fresh => exact ⟨by rw [here]; rfl, rfl, rfl, Or.inl rfl⟩
  | opensSocket here fresh there =>
    exact ⟨by rw [here, early_point (by rw [there]; trivial)]; rfl, rfl, rfl, Or.inl rfl⟩
  | passes here there =>
    refine ⟨?_, rfl, rfl, Or.inl rfl⟩
    rcases there with rfl | rfl | rfl
    · rw [@early_point s.main (by rw [here]; trivial)]
      rfl
    · rw [@early_point s.main (by rw [here]; trivial)]
      rfl
    · rw [drained_point here]
      rfl
  | startsStamp here => exact ⟨by rw [here]; rfl, rfl, rfl, Or.inl rfl⟩
  | startsListen here => exact ⟨by rw [here]; rfl, rfl, rfl, Or.inr ⟨here, rfl⟩⟩
  | @reaps running here flag => exact ⟨by rw [here]; cases running <;> rfl, rfl, rfl, Or.inl rfl⟩
  | joinsListen here ended => exact ⟨by rw [here]; rfl, rfl, rfl, Or.inl rfl⟩
  | joinsStamp here ended => exact ⟨by rw [here]; rfl, rfl, rfl, Or.inl rfl⟩
  | clearsRun here flag => exact absurd (by rw [here]; rfl) outside
  | drains here there same => exact absurd here outside
  | closesSocket here => exact ⟨by rw [here]; rfl, rfl, rfl, Or.inl rfl⟩
  | closesDisk here => exact ⟨by rw [here]; rfl, rfl, rfl, Or.inl rfl⟩
  | freesRun here => exact ⟨by rw [here]; rfl, rfl, rfl, Or.inl rfl⟩
  | freesListening here => exact ⟨by rw [here]; rfl, rfl, rfl, Or.inl rfl⟩
  | freesDue here => exact ⟨by rw [here]; rfl, rfl, rfl, Or.inl rfl⟩
  | removes here => exact ⟨by rw [here]; rfl, rfl, rfl, Or.inl rfl⟩
  | exits cause => exact ⟨rfl, rfl, rfl, Or.inl rfl⟩
  | returns here => exact ⟨rfl, rfl, rfl, Or.inl rfl⟩
  | goesWrong cause => exact ⟨rfl, rfl, rfl, Or.inl rfl⟩

theorem listing_main {answer : MainAnswer} (life : Lifetimes s) (held : Listing s)
    (outside : stage s.main ≠ .draining) (moves : MainMoves s answer t) : Listing t := by
  obtain ⟨point, handlers, threads, listen | ⟨here, started⟩⟩ := main_keeps_list outside moves
  · exact listing_same held point listen threads (by rw [handlers]) (by rw [handlers]; exact held.ended)
  · have idle := life.listen
    rw [here] at idle
    obtain ⟨handles, count, handle, chain, joined, freed, cursor, ended⟩ := held
    rw [show s.listen = .notStarted from idle] at count
    refine ⟨?_, ?_, by simp [started], ?_, ?_, ?_, ?_, ?_⟩
    · rwa [threads]
    · rw [handlers, threads, started]
      exact count
    · rwa [point, threads]
    · rwa [point, handlers]
    · rwa [point, threads]
    · rwa [point, threads]
    · rwa [handlers]

theorem drain_finished (life : Lifetimes s) (here : stage s.main = .draining) :
    s.listen = .finished := by
  have listen := life.listen
  rwa [here] at listen

theorem listing_step (s : Server) (action : Action) (t : Server)
    (held : Lifetimes s ∧ Listing s) (taken : machine.step s action = some t) :
    Lifetimes t ∧ Listing t := by
  obtain ⟨life, listing⟩ := held
  refine ⟨lifetimes_step s action t life taken, ?_⟩
  cases step_moves taken with
  | main taken moves =>
    by_cases here : stage s.main = .draining
    · exact listing_drain listing (drain_finished life here) (drain_moves life listing here taken)
    · exact listing_main life listing here moves
  | listen moves => exact listing_listen life listing moves
  | stamp moves => exact listing_stamp listing moves
  | handler _ moves => exact listing_handler listing moves
  | client found => exact listing_client listing found _
  | signal moves => exact listing_signal listing moves

end ThreadListing
