import Mathlib.Order.Defs.Unbundled

-- Computations that change a state and may fail. What has changed until a failure stays changed.
namespace EStateM

variable {ε σ α β : Type}

-- The state that a computation leaves behind.
def after (x : EStateM ε σ α) (s : σ) : σ :=
  match x.run s with
  | .ok _ s    => s
  | .error _ s => s

def succeeds (x : EStateM ε σ α) (s : σ) : Bool :=
  match x.run s with
  | .ok ..    => true
  | .error .. => false

variable {x : EStateM ε σ α} {f : α → EStateM ε σ β} {s t : σ} {a : α} {e : ε} {R : σ → σ → Prop}

theorem after_of_ok (h : x.run s = .ok a t) : x.after s = t := by
  rw [after, h]

theorem after_of_error (h : x.run s = .error e t) : x.after s = t := by
  rw [after, h]

theorem after_congr {y : EStateM ε σ α} (h : x.run s = y.run t) : x.after s = y.after t := by
  rw [after, after, h]

theorem succeeds_of_ok (h : x.run s = .ok a t) : x.succeeds s := by
  rw [succeeds, h]

theorem not_succeeds_of_error (h : x.run s = .error e t) : ¬x.succeeds s := by
  rw [succeeds, h]
  exact Bool.false_ne_true

theorem run_of_succeeds (h : x.succeeds s) : ∃ a, x.run s = .ok a (x.after s) := by
  unfold succeeds at h
  unfold after
  split at h
  case h_1 a t hr => exact ⟨a, by simp only [hr]⟩
  case h_2        => contradiction

section Bind

theorem run_bind_of_ok (h : x.run s = .ok a t) : (x >>= f).run s = (f a).run t := by
  rw [run_bind, h]

theorem run_bind_of_error (h : x.run s = .error e t) : (x >>= f).run s = .error e t := by
  rw [run_bind, h]

theorem run_bind_eq_ok {b : β} :
    (x >>= f).run s = .ok b t ↔ ∃ a u, x.run s = .ok a u ∧ (f a).run u = .ok b t := by
  rw [run_bind]
  cases x.run s <;> simp [and_assoc]

theorem after_bind_of_ok (h : x.run s = .ok a t) : (x >>= f).after s = (f a).after t := by
  rw [after, after, run_bind_of_ok h]

theorem after_bind_of_error (h : x.run s = .error e t) : (x >>= f).after s = t :=
  after_of_error <| run_bind_of_error h

theorem succeeds_bind_of_ok (h : x.run s = .ok a t) : (x >>= f).succeeds s = (f a).succeeds t := by
  rw [succeeds, succeeds, run_bind_of_ok h]

end Bind

section Keeps

-- Each state is related to the one that `x` leaves behind.
def Keeps (R : σ → σ → Prop) (x : EStateM ε σ α) : Prop :=
  ∀ s, R s (x.after s)

theorem Keeps.pure [Std.Refl R] : Keeps R (pure a : EStateM ε σ α) :=
  fun s => refl s

theorem Keeps.throw [Std.Refl R] : Keeps R (throw e : EStateM ε σ α) :=
  fun s => refl s

theorem Keeps.get [Std.Refl R] : Keeps R (get : EStateM ε σ σ) :=
  fun s => refl s

theorem Keeps.modify {g : σ → σ} (h : ∀ s, R s (g s)) :
    Keeps R (modify g : EStateM ε σ PUnit) :=
  h

theorem Keeps.bind [IsTrans σ R] (hx : Keeps R x) (hf : ∀ a, Keeps R (f a)) :
    Keeps R (x >>= f) := by
  intro s
  have hs := hx s
  cases hr : x.run s
  case ok a t =>
    rw [after_of_ok hr] at hs
    rw [after_bind_of_ok hr]
    exact IsTrans.trans _ _ _ hs (hf a t)
  case error e t =>
    rwa [after_of_error hr, ←after_bind_of_error hr] at hs

theorem Keeps.ite {p : Prop} [Decidable p] {y : EStateM ε σ α} (hx : Keeps R x) (hy : Keeps R y) :
    Keeps R (if p then x else y) := by
  split
  case isTrue  => exact hx
  case isFalse => exact hy

end Keeps

end EStateM
