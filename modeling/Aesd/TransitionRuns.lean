import Mathlib.Algebra.GroupWithZero.Nat
import Mathlib.Data.List.Induction

/-! Finite runs of a partial step function. An action carries every choice that
    the code leaves to its environment, so a run is determined by its action list;
    a step that answers none is not enabled. -/
namespace TransitionRuns
variable {State Action : Type*}

structure Machine (State Action : Type*) where
  step : State → Action → Option State

def Machine.run (m : Machine State Action) : State → List Action → Option State
  | s, [] => some s
  | s, a :: rest => (m.step s a).bind fun t => m.run t rest

/-- Every step the run takes meets a condition on its action and the state before it. -/
def Machine.Along (m : Machine State Action) (cond : State → Action → Prop) :
    State → List Action → Prop
  | _, [] => True
  | s, a :: rest => cond s a ∧ ∀ t, m.step s a = some t → m.Along cond t rest

theorem run_cons_iff {m : Machine State Action} {s t : State} {a : Action} {rest : List Action} :
    m.run s (a :: rest) = some t ↔ ∃ mid, m.step s a = some mid ∧ m.run mid rest = some t := by
  simp only [Machine.run, Option.bind_eq_some_iff]

theorem run_append (m : Machine State Action) (s : State) (first second : List Action) :
    m.run s (first ++ second) = (m.run s first).bind fun t => m.run t second := by
  induction first generalizing s with
  | nil => rfl
  | cons a rest ih =>
    simp only [List.cons_append, Machine.run]
    cases m.step s a with
    | none => rfl
    | some mid => exact ih mid

theorem run_snoc_iff {m : Machine State Action} {s t : State} {a : Action} {rest : List Action} :
    m.run s (rest ++ [a]) = some t ↔ ∃ mid, m.run s rest = some mid ∧ m.step mid a = some t := by
  simp only [run_append, Option.bind_eq_some_iff, Machine.run, Option.some.injEq,
    exists_eq_right]

theorem along_cons_of_step {m : Machine State Action} {cond : State → Action → Prop} {s t : State}
    {a : Action} {rest : List Action} (here : cond s a) (taken : m.step s a = some t)
    (later : m.Along cond t rest) : m.Along cond s (a :: rest) := by
  refine ⟨here, ?_⟩
  intro next same
  obtain rfl : t = next := Option.some.inj (taken.symm.trans same)
  exact later

theorem along_iff_split {m : Machine State Action} {cond : State → Action → Prop} {s : State}
    {actions : List Action} : m.Along cond s actions ↔
      ∀ past a rest t, actions = past ++ a :: rest → m.run s past = some t → cond t a := by
  induction actions generalizing s with
  | nil => simp [Machine.Along]
  | cons first later ih =>
    simp only [Machine.Along, ih]
    constructor
    · rintro ⟨here, along⟩ past a rest t split run
      cases past with
      | nil =>
        obtain ⟨rfl, _⟩ := List.cons.inj split
        obtain rfl := Option.some.inj run
        exact here
      | cons b past =>
        obtain ⟨rfl, tail⟩ := List.cons.inj split
        obtain ⟨mid, taken, run⟩ := run_cons_iff.mp run
        exact along mid taken past a rest t tail run
    · intro all
      refine ⟨all [] first later s rfl rfl, ?_⟩
      intro mid taken past a rest t split run
      exact all (first :: past) a rest t (by rw [split, List.cons_append])
        (run_cons_iff.mpr ⟨mid, taken, run⟩)

theorem along_front {m : Machine State Action} {cond : State → Action → Prop} {s : State}
    {past actions : List Action} (along : m.Along cond s actions) (front : past <+: actions) :
    m.Along cond s past := by
  obtain ⟨later, rfl⟩ := front
  rw [along_iff_split] at along ⊢
  intro before a rest t split run
  exact along before a (rest ++ later) t (by rw [split, List.append_assoc, List.cons_append]) run

/-- The invariant rule, for relations between the actions so far and the state reached.
    Each step that meets the condition keeps the invariant. -/
theorem history_along {m : Machine State Action} {cond : State → Action → Prop}
    {inv : List Action → State → Prop}
    (keeps : ∀ past s a t, inv past s → cond s a → m.step s a = some t → inv (past ++ [a]) t)
    {s t : State} {past actions : List Action} (start : inv past s) (along : m.Along cond s actions)
    (run : m.run s actions = some t) : inv (past ++ actions) t := by
  induction actions generalizing s past with
  | nil =>
    obtain rfl := Option.some.inj run
    rwa [List.append_nil]
  | cons a rest ih =>
    obtain ⟨mid, taken, later⟩ := run_cons_iff.mp run
    have next := ih (keeps past s a mid start along.1 taken) (along.2 mid taken) later
    rwa [List.append_assoc] at next

/-- The same rule for conditions that look at the actions so far. -/
theorem history_front {m : Machine State Action} {inv : List Action → State → Prop} {s : State}
    {actions : List Action} (start : inv [] s)
    (keeps : ∀ past mid a t, past ++ [a] <+: actions → m.run s past = some mid → inv past mid →
      m.step mid a = some t → inv (past ++ [a]) t)
    {past : List Action} {t : State} (front : past <+: actions) (run : m.run s past = some t) :
    inv past t := by
  induction past using List.reverseRecOn generalizing t with
  | nil =>
    obtain rfl := Option.some.inj run
    exact start
  | append_singleton past a ih =>
    obtain ⟨mid, before, taken⟩ := run_snoc_iff.mp run
    have held := ih ((List.prefix_append past [a]).trans front) before
    exact keeps past mid a t front before held taken

theorem along_of_forall (m : Machine State Action) {cond : State → Action → Prop} (s : State)
    {actions : List Action} (met : ∀ a ∈ actions, ∀ s, cond s a) : m.Along cond s actions := by
  induction actions generalizing s with
  | nil => trivial
  | cons a rest ih =>
    simp only [List.forall_mem_cons] at met
    exact ⟨met.1 s, fun t _ => ih t met.2⟩

theorem along_true (m : Machine State Action) (s : State) (actions : List Action) :
    m.Along (fun _ _ => True) s actions :=
  along_of_forall m s fun _ _ _ => trivial

theorem invariant_along {m : Machine State Action} {cond : State → Action → Prop}
    {inv : State → Prop}
    (keeps : ∀ s a t, inv s → cond s a → m.step s a = some t → inv t)
    {s t : State} {actions : List Action} (start : inv s) (along : m.Along cond s actions)
    (run : m.run s actions = some t) : inv t :=
  @history_along _ _ m cond (fun _ => inv) (fun _ => keeps) s t [] actions start along run

theorem invariant_run {m : Machine State Action} {inv : State → Prop}
    (keeps : ∀ s a t, inv s → m.step s a = some t → inv t)
    {s t : State} {actions : List Action} (start : inv s)
    (run : m.run s actions = some t) : inv t :=
  invariant_along (fun s a t held _ => keeps s a t held) start (along_true m s actions) run

def Machine.collect {Event : Type*} (m : Machine State Action)
    (emit : State → Action → List Event) : State → List Action → List Event
  | _, [] => []
  | s, a :: rest =>
      match m.step s a with
      | none => []
      | some t => emit s a ++ m.collect emit t rest

theorem collect_snoc {Event : Type*} {m : Machine State Action}
    {emit : State → Action → List Event} {s t u : State} {past : List Action} {a : Action}
    (run : m.run s past = some t) (taken : m.step t a = some u) :
    m.collect emit s (past ++ [a]) = m.collect emit s past ++ emit t a := by
  induction past generalizing s with
  | nil =>
    obtain rfl := Option.some.inj run
    simp only [List.nil_append, Machine.collect, taken, List.append_nil]
  | cons first rest ih =>
    obtain ⟨mid, here, later⟩ := run_cons_iff.mp run
    simp only [List.cons_append, Machine.collect, here, ih later, List.append_assoc]

theorem collect_append {Event : Type*} {m : Machine State Action}
    {emit : State → Action → List Event} {s t : State} {first : List Action}
    (run : m.run s first = some t) (second : List Action) :
    m.collect emit s (first ++ second) = m.collect emit s first ++ m.collect emit t second := by
  induction first generalizing s with
  | nil =>
    obtain rfl := Option.some.inj run
    rfl
  | cons a rest ih =>
    obtain ⟨mid, here, later⟩ := run_cons_iff.mp run
    simp only [List.cons_append, Machine.collect, here, ih later, List.append_assoc]

def Machine.tally (m : Machine State Action) (cost : State → Action → Nat) :
    State → List Action → Nat
  | _, [] => 0
  | s, a :: rest =>
      match m.step s a with
      | none => 0
      | some t => cost s a + m.tally cost t rest

theorem tally_append {m : Machine State Action} {cost : State → Action → Nat} {s t : State}
    {first : List Action} (run : m.run s first = some t) (second : List Action) :
    m.tally cost s (first ++ second) = m.tally cost s first + m.tally cost t second := by
  induction first generalizing s with
  | nil =>
    obtain rfl := Option.some.inj run
    simp only [List.nil_append, Machine.tally, Nat.zero_add]
  | cons a rest ih =>
    obtain ⟨mid, here, later⟩ := run_cons_iff.mp run
    simp only [List.cons_append, Machine.tally, here, ih later, Nat.add_assoc]

theorem tally_count {m : Machine State Action} (counted : Action → Bool) {s t : State}
    {actions : List Action} (run : m.run s actions = some t) :
    m.tally (fun _ a => if counted a then 1 else 0) s actions = actions.countP counted := by
  induction actions generalizing s with
  | nil => rfl
  | cons a rest ih =>
    obtain ⟨mid, here, later⟩ := run_cons_iff.mp run
    simp only [Machine.tally, here, ih later, List.countP_cons, Nat.add_comm]

/-- The rule of credit: where no step spends more than it finds or earns, no run does. -/
theorem tally_covered {m : Machine State Action} {cond : State → Action → Prop}
    {inv : State → Prop} {spent : State → Action → Nat} {earned : Action → Nat}
    {credit : State → Nat} (keeps : ∀ s a t, inv s → m.step s a = some t → inv t)
    (pays : ∀ s a t, inv s → cond s a → m.step s a = some t →
      spent s a + credit t ≤ credit s + earned a)
    {s t : State} {actions : List Action} (start : inv s) (along : m.Along cond s actions)
    (run : m.run s actions = some t) :
    m.tally spent s actions + credit t ≤ credit s + (actions.map earned).sum := by
  induction actions generalizing s with
  | nil =>
    obtain rfl := Option.some.inj run
    simp [Machine.tally]
  | cons a rest ih =>
    obtain ⟨mid, taken, later⟩ := run_cons_iff.mp run
    have here := pays s a mid start along.1 taken
    have after := ih (keeps s a mid start taken) (along.2 mid taken) later
    simp only [Machine.tally, taken, List.map_cons, List.sum_cons]
    omega

/-- Two conditions that an invariant makes equal hold along the same runs. -/
theorem along_congr {m : Machine State Action} {cond other : State → Action → Prop}
    {inv : State → Prop} (keeps : ∀ s a t, inv s → m.step s a = some t → inv t)
    (same : ∀ s a, inv s → (cond s a ↔ other s a)) {s : State} (start : inv s)
    (actions : List Action) : m.Along cond s actions ↔ m.Along other s actions := by
  induction actions generalizing s with
  | nil => exact Iff.rfl
  | cons a rest ih =>
    simp only [Machine.Along, same s a start]
    constructor
    · rintro ⟨here, later⟩
      exact ⟨here, fun t taken => (ih (keeps s a t start taken)).mp (later t taken)⟩
    · rintro ⟨here, later⟩
      exact ⟨here, fun t taken => (ih (keeps s a t start taken)).mpr (later t taken)⟩

instance decidableAlong (m : Machine State Action) (cond : State → Action → Prop)
    [∀ s a, Decidable (cond s a)] : ∀ s actions, Decidable (m.Along cond s actions)
  | _, [] => isTrue trivial
  | s, a :: rest =>
      match taken : m.step s a with
      | none => decidable_of_iff (cond s a) (by simp [Machine.Along, taken])
      | some t =>
          have := decidableAlong m cond t rest
          decidable_of_iff (cond s a ∧ m.Along cond t rest) (by simp [Machine.Along, taken])

end TransitionRuns
