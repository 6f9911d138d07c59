import Aesd.TransitionRuns

/-! Forward simulation between two machines. A concrete step is answered by a finite run of
    the abstract machine. The relation between the states may look at what the concrete run
    is still going to emit, so that the abstract machine can be started with it. -/
namespace SimulatedRuns
open TransitionRuns
variable {State Action Abstract Label Event : Type*}

structure Simulation (m : Machine State Action) (spec : Machine Abstract Label)
    (Event : Type*) where
  labels : State → Action → List Label
  emit : State → Action → List Event
  rel : State → List Event → Abstract → Prop
  follows : ∀ s a t future x, m.step s a = some t → rel s (emit s a ++ future) x →
    ∃ y, spec.run x (labels s a) = some y ∧ rel t future y

theorem collect_cons {m : Machine State Action} {emit : State → Action → List Event}
    {s t : State} {a : Action} (taken : m.step s a = some t) (rest : List Action) :
    m.collect emit s (a :: rest) = emit s a ++ m.collect emit t rest := by
  simp only [Machine.collect, taken]

theorem along_append {spec : Machine Abstract Label} {cond : Abstract → Label → Prop}
    {x y : Abstract} {first second : List Label} (run : spec.run x first = some y)
    (here : spec.Along cond x first) (later : spec.Along cond y second) :
    spec.Along cond x (first ++ second) := by
  induction first generalizing x with
  | nil =>
    obtain rfl := Option.some.inj run
    exact later
  | cons a rest ih =>
    obtain ⟨mid, taken, run⟩ := run_cons_iff.mp run
    constructor
    · exact here.1
    · intro other same
      obtain rfl := Option.some.inj (taken.symm.trans same)
      exact ih run (here.2 mid taken)

variable {m : Machine State Action} {spec : Machine Abstract Label}

/-- The run rule. The abstract run is the concrete one seen through labels. -/
theorem Simulation.run_follows (sim : Simulation m spec Event) {s t : State} {x : Abstract}
    {actions : List Action} {future : List Event}
    (start : sim.rel s (m.collect sim.emit s actions ++ future) x)
    (run : m.run s actions = some t) :
    ∃ y, spec.run x (m.collect sim.labels s actions) = some y ∧ sim.rel t future y := by
  induction actions generalizing s x with
  | nil =>
    obtain rfl := Option.some.inj run
    exact ⟨x, rfl, start⟩
  | cons a rest ih =>
    obtain ⟨mid, taken, later⟩ := run_cons_iff.mp run
    rw [collect_cons taken, List.append_assoc] at start
    obtain ⟨y, here, related⟩ := sim.follows s a mid _ x taken start
    obtain ⟨z, there, reached⟩ := ih related later
    exact ⟨z, by rw [collect_cons taken, run_append, here, Option.bind_some, there], reached⟩

theorem Simulation.along_follows (sim : Simulation m spec Event)
    {cond : State → Action → Prop} {specCond : Abstract → Label → Prop}
    (carries : ∀ s a t future x, m.step s a = some t → sim.rel s (sim.emit s a ++ future) x →
      cond s a → spec.Along specCond x (sim.labels s a))
    {s t : State} {x : Abstract} {actions : List Action} {future : List Event}
    (start : sim.rel s (m.collect sim.emit s actions ++ future) x)
    (run : m.run s actions = some t) (along : m.Along cond s actions) :
    spec.Along specCond x (m.collect sim.labels s actions) := by
  induction actions generalizing s x with
  | nil => trivial
  | cons a rest ih =>
    obtain ⟨mid, taken, later⟩ := run_cons_iff.mp run
    rw [collect_cons taken, List.append_assoc] at start
    obtain ⟨y, here, related⟩ := sim.follows s a mid _ x taken start
    rw [collect_cons taken]
    exact along_append here (carries s a mid _ x taken start along.1)
      (ih related later (along.2 mid taken))

end SimulatedRuns
