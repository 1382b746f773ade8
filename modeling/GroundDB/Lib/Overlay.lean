import Mathlib.Logic.Function.Basic

/-!
# A cache in front of a store

A lookup asks a cache, a partial map, and falls back to a store, a total one: what it sees is
`view cache store`.  The lemmas say how the view moves when the cache is written; filling it from
the store moves nothing.  A write to the store alone is not seen if its key is cached, so a cached
key can go stale.

`Coherent` says that no cached key is stale; then the cache may be ignored (`Coherent.view_eq`).
-/

namespace Overlay

open Function

variable {K V : Type*} {cache : K → Option V} {store : K → V} {k : K} {v : V}

/-- What a lookup sees: the cached value of a cached key, the store's value of any other. -/
def view (cache : K → Option V) (store : K → V) (k : K) : V :=
  (cache k).getD (store k)

lemma view_of_some (h : cache k = some v) : view cache store k = v := by
  simp [view, h]

lemma view_of_none (h : cache k = none) : view cache store k = store k := by
  simp [view, h]

/-- No cached value differs from the store's. -/
def Coherent (cache : K → Option V) (store : K → V) : Prop :=
  ∀ k v, cache k = some v → store k = v

lemma Coherent.view_eq (h : Coherent cache store) : view cache store = store := by
  funext k
  cases hk : cache k with
  | none => exact view_of_none hk
  | some v => rw [view_of_some hk, h k v hk]

variable [DecidableEq K]

lemma view_put : view (update cache k (some v)) store
    = update (view cache store) k v := by
  funext k'
  by_cases hk : k' = k
  · subst hk; simp [view]
  · simp [view, hk]

lemma view_fill (h : cache k = none) :
    view (update cache k (some (store k))) store = view cache store := by
  have hk : view cache store k = store k := view_of_none h
  rw [view_put, ← hk, update_eq_self]

/-- Writing a value to both sides, or to the store and dropping the cached value, keeps the cache
coherent. -/
lemma Coherent.write (h : Coherent cache store) {c : Option V} (hc : ∀ w, c = some w → v = w) :
    Coherent (update cache k c) (update store k v) := by
  intro k' w hw
  by_cases hk : k' = k
  · subst hk
    simp only [update_self] at hw ⊢
    exact hc w hw
  · simp only [update_of_ne hk] at hw ⊢
    exact h k' w hw

/-- Filling the cache from the store, or dropping a cached value, keeps it coherent. -/
lemma Coherent.fill (h : Coherent cache store) {c : Option V} (hc : ∀ w, c = some w → store k = w) :
    Coherent (update cache k c) store := by
  intro k' w hw
  by_cases hk : k' = k
  · subst hk
    simp only [update_self] at hw
    exact hc w hw
  · rw [update_of_ne hk] at hw
    exact h k' w hw

end Overlay
