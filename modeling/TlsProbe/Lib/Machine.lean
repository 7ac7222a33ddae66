import Mathlib.Algebra.BigOperators.Group.List.Basic
import Mathlib.Data.List.Forall2
import Mathlib.Data.List.Induction

-- A deterministic machine with states `σ` and inputs `ι`. One step may emit any number of outputs.
structure Machine (σ ι ω : Type*) where
  step : σ → ι → σ × List ω

namespace Machine

variable {σ ι ω : Type*} (m : Machine σ ι ω)

def state (s : σ) : List ι → σ
  | []      => s
  | i :: is => state (m.step s i).1 is

-- The steps of a run, each given by the state it starts in and the input it consumes.
def trace (s : σ) : List ι → List (σ × ι)
  | []      => []
  | i :: is => (s, i) :: trace (m.step s i).1 is

def emits (s : σ) (is : List ι) : List (List ω) :=
  (m.trace s is).map fun t => (m.step t.1 t.2).2

def output (s : σ) (is : List ι) : List ω :=
  (m.emits s is).flatten

def AllSteps (C : σ → ι → Prop) (s : σ) (is : List ι) : Prop :=
  ∀ t ∈ m.trace s is, C t.1 t.2

instance {C : σ → ι → Prop} [∀ s i, Decidable (C s i)] {s : σ} {is : List ι} :
    Decidable (m.AllSteps C s is) :=
  inferInstanceAs <| Decidable <| ∀ t ∈ m.trace s is, C t.1 t.2

-- `P` holds in each state of a run.
def AllStates (P : σ → Prop) (s : σ) (is : List ι) : Prop :=
  ∀ js, js <+: is → P (m.state s js)

variable {m} {s t : σ} {i : ι} {is js : List ι}

@[simp]
theorem state_nil : m.state s [] = s :=
  rfl

@[simp]
theorem state_cons : m.state s (i :: is) = m.state (m.step s i).1 is :=
  rfl

@[simp]
theorem trace_nil : m.trace s [] = [] :=
  rfl

@[simp]
theorem trace_cons : m.trace s (i :: is) = (s, i) :: m.trace (m.step s i).1 is :=
  rfl

@[simp]
theorem output_nil : m.output s [] = [] :=
  rfl

@[simp]
theorem output_cons : m.output s (i :: is) = (m.step s i).2 ++ m.output (m.step s i).1 is :=
  rfl

theorem state_append : m.state s (is ++ js) = m.state (m.state s is) js := by
  induction is generalizing s
  case nil        => rfl
  case cons _ _ h => exact h

theorem trace_append : m.trace s (is ++ js) = m.trace s is ++ m.trace (m.state s is) js := by
  induction is generalizing s
  case nil        => rfl
  case cons _ _ h => simp [h]

theorem emits_append : m.emits s (is ++ js) = m.emits s is ++ m.emits (m.state s is) js := by
  simp [emits, trace_append]

theorem output_append : m.output s (is ++ js) = m.output s is ++ m.output (m.state s is) js := by
  simp [output, emits_append]

theorem mem_output {w : ω} : w ∈ m.output s is ↔ ∃ t ∈ m.trace s is, w ∈ (m.step t.1 t.2).2 := by
  simp [output, emits]

theorem mem_trace (h : (t, i) ∈ m.trace s is) : ∃ js ks, is = js ++ i :: ks ∧ t = m.state s js := by
  induction is generalizing s
  case nil => simp at h
  case cons j is hi =>
    simp only [trace_cons, List.mem_cons, Prod.mk.injEq] at h
    cases h
    case inl h => exact ⟨[], is, by simp [h.2], h.1⟩
    case inr h =>
      have ⟨js, ks, hs, ht⟩ := hi h
      exact ⟨j :: js, ks, by simp [hs], ht⟩

theorem mem_output_iff {w : ω} : w ∈ m.output s is ↔
    ∃ js i ks, is = js ++ i :: ks ∧ w ∈ (m.step (m.state s js) i).2 := by
  constructor
  case mp =>
    intro h
    obtain ⟨⟨t, i⟩, ht, hw⟩ := mem_output.mp h
    obtain ⟨js, ks, hi, rfl⟩ := mem_trace ht
    exact ⟨js, i, ks, hi, hw⟩
  case mpr =>
    rintro ⟨js, i, ks, rfl, hw⟩
    simp [output_append, hw]

section Invariants

variable {C : σ → ι → Prop} {P : σ → Prop}

theorem AllSteps.head (h : m.AllSteps C s (i :: is)) : C s i :=
  h (s, i) (by simp)

theorem AllSteps.tail (h : m.AllSteps C s (i :: is)) : m.AllSteps C (m.step s i).1 is :=
  fun t ht => h t (by simp [ht])

theorem allSteps_append :
    m.AllSteps C s (is ++ js) ↔ m.AllSteps C s is ∧ m.AllSteps C (m.state s is) js := by
  simp only [AllSteps, trace_append, List.forall_mem_append]

theorem allSteps_cons : m.AllSteps C s (i :: is) ↔ C s i ∧ m.AllSteps C (m.step s i).1 is := by
  simp [AllSteps]

theorem allStates_cons :
    m.AllStates P s (i :: is) ↔ P s ∧ m.AllStates P (m.step s i).1 is := by
  constructor
  case mp =>
    intro h
    refine ⟨h [] List.nil_prefix, fun js hj => h (i :: js) ?_⟩
    exact (List.prefix_cons_inj i).mpr hj
  case mpr =>
    rintro ⟨hs, h⟩ js hj
    cases js
    case nil => exact hs
    case cons j js =>
      obtain ⟨rfl, hp⟩ := List.cons_prefix_cons.mp hj
      exact h js hp

theorem allSteps_of_forall (h : ∀ s i, C s i) : m.AllSteps C s is :=
  fun t _ => h t.1 t.2

-- A condition on the inputs alone.
theorem allSteps_of_inputs {C : ι → Prop} (h : ∀ i ∈ is, C i) :
    m.AllSteps (fun _ i => C i) s is := by
  intro (_, i) ht
  have ⟨_, _, hi, _⟩ := mem_trace ht
  exact h i (by simp [hi])

-- A property that steps meeting `C` preserve holds in every state of a run of such steps.
theorem inv_state (hp : ∀ s i, P s → C s i → P (m.step s i).1) (hs : P s)
    (hc : m.AllSteps C s is) : P (m.state s is) := by
  induction is generalizing s
  case nil         => exact hs
  case cons _ _ hi => exact hi (hp _ _ hs hc.head) hc.tail

theorem inv_states (hp : ∀ s i, P s → C s i → P (m.step s i).1) (hs : P s)
    (hc : m.AllSteps C s is) : m.AllStates P s is := by
  rintro js ⟨ks, rfl⟩
  exact inv_state hp hs (allSteps_append.mp hc).1

-- A property that a step meeting `C` preserves, and no other, holds all along just the runs of
-- such steps.
theorem allStates_iff (hp : ∀ s i, P s → (P (m.step s i).1 ↔ C s i)) (hs : P s) :
    m.AllStates P s is ↔ m.AllSteps C s is := by
  constructor
  case mp =>
    induction is generalizing s
    case nil => simp [AllSteps]
    case cons i is hi =>
      intro h
      have ht := (allStates_cons.mp h).2
      have hn : P (m.step s i).1 := ht [] List.nil_prefix
      exact allSteps_cons.mpr ⟨(hp s i hs).mp hn, hi hn ht⟩
  case mpr => exact inv_states (fun s i h => (hp s i h).mpr) hs

theorem inv_trace (hp : ∀ s i, P s → C s i → P (m.step s i).1) (hs : P s)
    (hc : m.AllSteps C s is) (ht : (t, i) ∈ m.trace s is) : P t := by
  have ⟨js, _, hj, he⟩ := mem_trace ht
  subst hj he
  refine inv_state hp hs fun u hu => hc u ?_
  simp [trace_append, hu]

theorem inv_reachable (hp : ∀ s i, P s → P (m.step s i).1) (hs : P s) : P (m.state s is) :=
  inv_state (C := fun _ _ => True) (fun s i h _ => hp s i h) hs <|
    allSteps_of_forall fun _ _ => trivial

theorem inv_output {Q : ω → Prop} (hp : ∀ s i, P s → C s i → P (m.step s i).1)
    (hq : ∀ s i, P s → C s i → ∀ w ∈ (m.step s i).2, Q w) (hs : P s) (hc : m.AllSteps C s is) :
    ∀ w ∈ m.output s is, Q w := by
  intro w hw
  have ⟨t, ht, hw⟩ := mem_output.mp hw
  exact hq t.1 t.2 (inv_trace hp hs hc ht) (hc t ht) w hw

-- A machine that answers each input as a function does, whatever its state.
theorem output_eq_map {f : ι → ω} (hp : ∀ s i, P s → C s i → P (m.step s i).1)
    (hf : ∀ s i, P s → C s i → (m.step s i).2 = [f i]) (hs : P s) (hc : m.AllSteps C s is) :
    m.output s is = is.map f := by
  induction is generalizing s
  case nil => rfl
  case cons i is hi =>
    rw [output_cons, hf s i hs hc.head, hi (hp s i hs hc.head) hc.tail]
    rfl

-- What holds in a state came about (`B`) with some step of the run, and has been left to hold (`L`)
-- by every step since.
theorem origin_at {α : Type*} {Q : σ → α → Prop} {B : σ → ι → α → Prop} {L : σ → ι → Prop}
    (hq : ∀ s i a, Q (m.step s i).1 a → B s i a ∨ (Q s a ∧ L s i))
    (hs : ∀ a, ¬Q s a) {a : α} (h : Q (m.state s is) a) :
    ∃ js i ks, is = js ++ i :: ks ∧ B (m.state s js) i a ∧
      m.AllSteps L (m.state s (js ++ [i])) ks := by
  induction is using List.reverseRecOn
  case nil => exact absurd h (hs a)
  case append_singleton is i hi =>
    rw [state_append] at h
    obtain hb | ⟨hq, hd⟩ := hq _ _ _ h
    case inl => exact ⟨is, i, [], rfl, hb, by simp [AllSteps]⟩
    case inr =>
      have ⟨js, j, ks, he, hb, hk⟩ := hi hq
      subst he
      refine ⟨js, j, ks ++ [i], by simp, hb, fun t ht => ?_⟩
      rw [trace_append, List.mem_append] at ht
      cases ht
      case inl ht => exact hk t ht
      case inr ht =>
        rw [trace_cons, trace_nil, List.mem_singleton] at ht
        subst ht
        simpa [←state_append] using hd

-- The same, if the input alone decides what comes about.
theorem origin {α : Type*} {Q : σ → α → Prop} {B : ι → α → Prop} {L : σ → ι → Prop}
    (hq : ∀ s i a, Q (m.step s i).1 a → B i a ∨ (Q s a ∧ L s i))
    (hs : ∀ a, ¬Q s a) {a : α} (h : Q (m.state s is) a) :
    ∃ js i ks, is = js ++ i :: ks ∧ B i a ∧ m.AllSteps L (m.state s (js ++ [i])) ks :=
  origin_at (B := fun _ => B) hq hs h

end Invariants

section Queues

variable {α : Type*} {φ : σ → List α} {P : σ → Prop}

-- What the steps of a run put into a queue (`ins`) is what they take out of it (`outs`), in order,
-- and what is left in it (`φ`).
theorem fifo {ins outs : ω → List α} (hp : ∀ s i, P s → P (m.step s i).1)
    (h : ∀ s i, P s → φ s ++ (m.step s i).2.flatMap ins =
      (m.step s i).2.flatMap outs ++ φ (m.step s i).1) (hs : P s) :
    φ s ++ (m.output s is).flatMap ins = (m.output s is).flatMap outs ++ φ (m.state s is) := by
  induction is generalizing s
  case nil => simp
  case cons i is hi =>
    calc
      φ s ++ (m.output s (i :: is)).flatMap ins
        = (φ s ++ (m.step s i).2.flatMap ins) ++ (m.output (m.step s i).1 is).flatMap ins := by
          rw [output_cons, List.flatMap_append, List.append_assoc]
      _ = (m.step s i).2.flatMap outs ++
            (φ (m.step s i).1 ++ (m.output (m.step s i).1 is).flatMap ins) := by
          rw [h s i hs, List.append_assoc]
      _ = (m.output s (i :: is)).flatMap outs ++ φ (m.state s (i :: is)) := by
          rw [hi (hp s i hs), output_cons, List.flatMap_append, state_cons, List.append_assoc]

end Queues

section Totals

variable {M : Type*}

-- The sum of `f` over the steps of a run.
def total [AddMonoid M] (m : Machine σ ι ω) (f : σ → ι → M) (s : σ) (is : List ι) : M :=
  ((m.trace s is).map fun t => f t.1 t.2).sum

theorem total_cons [AddMonoid M] {f : σ → ι → M} :
    m.total f s (i :: is) = f s i + m.total f (m.step s i).1 is := by
  simp [total]

theorem total_add [AddCommMonoid M] {f g : σ → ι → M} :
    m.total (fun s i => f s i + g s i) s is = m.total f s is + m.total g s is :=
  List.sum_map_add

theorem total_countP {p : ω → Bool} :
    m.total (fun s i => (m.step s i).2.countP p) s is = (m.output s is).countP p := by
  simp [total, output, emits, List.countP_flatten, Function.comp_def]

-- A quantity `φ` that each step changes by `g - f` changes by the sum of these over a run.
theorem balance [AddCommMonoid M] {P : σ → Prop} {φ : σ → M} {f g : σ → ι → M}
    (hp : ∀ s i, P s → P (m.step s i).1)
    (h : ∀ s i, P s → φ (m.step s i).1 + f s i = φ s + g s i) (hs : P s) (is : List ι) :
    φ (m.state s is) + m.total f s is = φ s + m.total g s is := by
  induction is generalizing s
  case nil => rfl
  case cons i is hi =>
    simp only [state_cons, total_cons]
    calc
      _ = f s i + (φ (m.state (m.step s i).1 is) + m.total f (m.step s i).1 is) :=
            add_left_comm ..
      _ = (φ (m.step s i).1 + f s i) + m.total g (m.step s i).1 is := by
            rw [hi (hp _ _ hs), ←add_assoc, add_comm (f s i)]
      _ = _ := by rw [h _ _ hs, add_assoc]

end Totals

-- `m` projects onto `l` when what `π` sees of a step of `m` is a run of `l` over the inputs that
-- `ev` assigns to this step, and `out` sees just the outputs of that run.
structure Projects {τ ε ω' : Type*} (m : Machine σ ι ω) (l : Machine τ ε ω') (π : σ → τ)
    (ev : σ → ι → List ε) (out : List ω → List ω') (I : σ → Prop) : Prop where
  inv    : ∀ s i, I s → I (m.step s i).1
  state  : ∀ s i, I s → π (m.step s i).1 = l.state (π s) (ev s i)
  output : ∀ s i, I s → out (m.step s i).2 = l.output (π s) (ev s i)

namespace Projects

variable {τ ε ω' : Type*} {l : Machine τ ε ω'} {π : σ → τ} {ev : σ → ι → List ε}
variable {out : List ω → List ω'} {I : σ → Prop}

def inputs (m : Machine σ ι ω) (ev : σ → ι → List ε) (s : σ) (is : List ι) : List ε :=
  (m.trace s is).flatMap fun t => ev t.1 t.2

theorem inputs_cons : inputs m ev s (i :: is) = ev s i ++ inputs m ev (m.step s i).1 is :=
  rfl

theorem inputs_flatMap {f : ι → List ε} : inputs m (fun _ => f) s is = is.flatMap f := by
  induction is generalizing s
  case nil         => rfl
  case cons _ _ hi => rw [inputs_cons, hi, List.flatMap_cons]

-- A machine that shows the inputs of the one it projects onto.
theorem inputs_output {f : ω → List ε} :
    inputs m (fun s i => (m.step s i).2.flatMap f) s is = (m.output s is).flatMap f := by
  induction is generalizing s
  case nil         => rfl
  case cons _ _ hi => rw [inputs_cons, hi, output_cons, List.flatMap_append]

theorem state_run (p : Projects m l π ev out I) (hs : I s) :
    π (m.state s is) = l.state (π s) (inputs m ev s is) := by
  induction is generalizing s
  case nil         => rfl
  case cons _ _ hi =>
    rw [state_cons, hi (p.inv _ _ hs), inputs_cons, state_append, p.state _ _ hs]

theorem output_run (p : Projects m l π ev out I) (hs : I s) (hn : out [] = [])
    (ha : ∀ ws ws', out (ws ++ ws') = out ws ++ out ws') :
    out (m.output s is) = l.output (π s) (inputs m ev s is) := by
  induction is generalizing s
  case nil => exact hn
  case cons _ _ hi =>
    rw [output_cons, ha, hi (p.inv _ _ hs), inputs_cons, output_append, p.output _ _ hs,
      p.state _ _ hs]

end Projects

-- Two machines that step in related states on related inputs to related states, with related
-- outputs, do so over whole runs.
theorem simulation {τ κ ω' : Type*} {n : Machine τ κ ω'} {R : σ → τ → Prop} {T : ι → κ → Prop}
    {O : List ω → List ω' → Prop} {C : σ → ι → Prop} {D : τ → κ → Prop} {u : τ} {ks : List κ}
    (h : ∀ s u i k, R s u → T i k → C s i → D u k →
      R (m.step s i).1 (n.step u k).1 ∧ O (m.step s i).2 (n.step u k).2)
    (hr : R s u) (ht : List.Forall₂ T is ks) (hc : m.AllSteps C s is) (hd : n.AllSteps D u ks) :
    R (m.state s is) (n.state u ks) ∧ List.Forall₂ O (m.emits s is) (n.emits u ks) := by
  induction ht generalizing s u
  case nil => exact ⟨hr, .nil⟩
  case cons hik _ hi =>
    have ⟨hr, ho⟩ := h _ _ _ _ hr hik hc.head hd.head
    have ⟨hs, hos⟩ := hi hr hc.tail hd.tail
    exact ⟨hs, .cons ho hos⟩

end Machine
