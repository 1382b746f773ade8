import Mathlib.Data.List.Basic

/-!
# Runs of a labelled transition system

A component that takes step after step is given by a relation `Step s a s'`: from `s` the
action `a` may lead to `s'`.  `Run Step s tr s'` says that the actions of `tr`, in order, lead
from `s` to `s'`.

Runs grow at the end, so that an invariant may speak about the whole history `tr` of the run
(`Run.history_invariant`) as well as about the state alone (`Run.invariant`).  A run whose steps
all meet a side condition `C` is a run of the restricted relation `Guarded Step C`; where `C` is
just what keeps a property, the property and the restriction are the same (`Run.guarded_iff`).
Concrete runs are put together from the front (`Run.cons`).
-/

namespace Lts

variable {σ ι : Type*}

/-- The actions `tr`, in order, lead from `s` to the last state. -/
inductive Run (Step : σ → ι → σ → Prop) (s : σ) : List ι → σ → Prop
  | nil : Run Step s [] s
  | snoc {tr : List ι} {t u : σ} {a : ι} :
      Run Step s tr t → Step t a u → Run Step s (tr ++ [a]) u

/-- The steps of `Step` that meet the condition `C` on the action and the state before it. -/
def Guarded (Step : σ → ι → σ → Prop) (C : σ → ι → Prop) : σ → ι → σ → Prop :=
  fun s a s' => C s a ∧ Step s a s'

variable {Step : σ → ι → σ → Prop} {s t : σ} {tr : List ι}

/-- What holds initially and is kept by every step, given the history so far, holds after every
run. -/
theorem Run.history_invariant {I : List ι → σ → Prop} (h0 : I [] s)
    (hstep : ∀ tr t a u, Run Step s tr t → I tr t → Step t a u → I (tr ++ [a]) u)
    (h : Run Step s tr t) : I tr t := by
  induction h with
  | nil => exact h0
  | snoc hr hs ih => exact hstep _ _ _ _ hr ih hs

/-- What holds initially and is kept by every step holds in every state reached. -/
theorem Run.invariant {I : σ → Prop} (h0 : I s)
    (hstep : ∀ t a u, I t → Step t a u → I u) (h : Run Step s tr t) : I t :=
  h.history_invariant (I := fun _ => I) h0 fun _ t a u _ hi hs => hstep t a u hi hs

/-- A run of a relation is a run of a wider one. -/
theorem Run.mono {Step' : σ → ι → σ → Prop} (hsub : ∀ s a s', Step s a s' → Step' s a s')
    (h : Run Step s tr t) : Run Step' s tr t := by
  induction h with
  | nil => exact .nil
  | snoc _ hs ih => exact .snoc ih (hsub _ _ _ hs)

/-- A run of the restricted relation is a run. -/
theorem Run.of_guarded {C : σ → ι → Prop} (h : Run (Guarded Step C) s tr t) :
    Run Step s tr t :=
  h.mono fun _ _ _ hs => hs.2

/-- A property that a step keeps exactly when it meets a condition holds after a run exactly when
all its steps meet the condition.  `I` is what is known of every state. -/
theorem Run.guarded_iff {C : σ → ι → Prop} {I J : σ → Prop} (hI0 : I s)
    (hI : ∀ t a u, I t → Step t a u → I u) (hJ0 : J s)
    (hstep : ∀ t a u, I t → Step t a u → (J u ↔ J t ∧ C t a)) (h : Run Step s tr t) :
    J t ↔ Run (Guarded Step C) s tr t := by
  constructor
  · intro hJ
    induction h with
    | nil => exact .nil
    | snoc hr hs ih =>
        obtain ⟨hJt, hC⟩ := (hstep _ _ _ (hr.invariant hI0 hI) hs).mp hJ
        exact .snoc (ih hJt) ⟨hC, hs⟩
  · intro hg
    have hIJ : I t ∧ J t := by
      refine hg.invariant (I := fun t => I t ∧ J t) ⟨hI0, hJ0⟩ ?_
      rintro t a u ⟨hIt, hJt⟩ ⟨hC, hs⟩
      exact ⟨hI t a u hIt hs, (hstep t a u hIt hs).mpr ⟨hJt, hC⟩⟩
    exact hIJ.2

/-- Runs compose. -/
theorem Run.append {tr' : List ι} {u : σ} (h : Run Step s tr t) (h' : Run Step t tr' u) :
    Run Step s (tr ++ tr') u := by
  induction h' with
  | nil => simpa using h
  | snoc _ hs ih => rw [← List.append_assoc]; exact .snoc ih hs

/-- A run may be started one step earlier. -/
theorem Run.cons {a : ι} {u : σ} (hs : Step s a t) (h : Run Step t tr u) :
    Run Step s (a :: tr) u :=
  Run.append (.snoc .nil hs) h

/-- A run of a step function, computed action by action. -/
theorem run_of_foldlM {step : σ → ι → Option σ} (h : tr.foldlM step s = some t) :
    Run (fun s a s' => step s a = some s') s tr t := by
  induction tr generalizing s with
  | nil =>
      obtain rfl := Option.some.inj h
      exact .nil
  | cons a tr ih =>
      rw [List.foldlM_cons] at h
      obtain ⟨u, hu, hrest⟩ := Option.bind_eq_some_iff.mp h
      exact .cons hu (ih hrest)

/-- A run of a step function, with what was computed of its last state. -/
theorem exists_run_of_any {step : σ → ι → Option σ} {p : σ → Bool}
    (h : (tr.foldlM step s).any p = true) :
    ∃ t, Run (fun s a s' => step s a = some s') s tr t ∧ p t = true := by
  cases hrun : tr.foldlM step s with
  | none =>
      rw [hrun] at h
      cases h
  | some t =>
      rw [hrun] at h
      exact ⟨t, run_of_foldlM hrun, h⟩

/-- The same for a run whose steps meet a condition that can be decided. -/
theorem exists_guarded_run_of_any {step : σ → ι → Option σ} {C : σ → ι → Prop}
    [∀ s a, Decidable (C s a)] {p : σ → Bool}
    (h : (tr.foldlM (fun s a => if C s a then step s a else none) s).any p = true) :
    ∃ t, Run (Guarded (fun s a s' => step s a = some s') C) s tr t ∧ p t = true := by
  obtain ⟨t, hrun, hp⟩ := exists_run_of_any h
  refine ⟨t, hrun.mono fun s a s' hs => ?_, hp⟩
  split at hs
  next hC => exact ⟨hC, hs⟩
  next => cases hs

end Lts
