import Mathlib.Algebra.BigOperators.Fin

/-!
# Sums over a family of which one member changes
-/

namespace Family

open Function

variable {ι α : Type*} [Fintype ι] [DecidableEq ι]

lemma sum_update_add (f : α → ℕ) (q : ι → α) (i : ι) (x : α) :
    ∑ j, f (update q i x j) + f (q i) = ∑ j, f (q j) + f x := by
  have hrest : ∑ j ∈ Finset.univ.erase i, f (update q i x j)
      = ∑ j ∈ Finset.univ.erase i, f (q j) := by
    refine Finset.sum_congr rfl fun j hj => ?_
    rw [update_of_ne (Finset.ne_of_mem_erase hj)]
  rw [← Finset.add_sum_erase _ _ (Finset.mem_univ i), hrest, update_self,
    ← Finset.add_sum_erase Finset.univ (fun j => f (q j)) (Finset.mem_univ i)]
  omega

lemma sum_set_lt {β : Type*} {l : List β} {k : ℕ} {a b : β} {f g : β → ℕ} (hk : l[k]? = some a)
    (hother : ∀ j x, l[j]? = some x → j ≠ k → f x = g x) (hlt : f b < g a) :
    ((l.set k b).map f).sum < (l.map g).sum := by
  induction l generalizing k with
  | nil => simp at hk
  | cons x l ih =>
      cases k with
      | zero =>
          obtain rfl : x = a := by simpa using hk
          have hsame : l.map f = l.map g := by
            refine List.map_congr_left fun y hy => ?_
            obtain ⟨j, hj⟩ := List.mem_iff_getElem?.mp hy
            exact hother (j + 1) y (by simpa using hj) (Nat.succ_ne_zero j)
          simp only [List.set_cons_zero, List.map_cons, List.sum_cons, hsame]
          omega
      | succ k =>
          have hhead : f x = g x := hother 0 x rfl (Nat.succ_ne_zero k).symm
          have htail := ih (by simpa using hk) fun j y hj hne =>
            hother (j + 1) y (by simpa using hj) (by omega)
          simp only [List.set_cons_succ, List.map_cons, List.sum_cons, hhead]
          omega

end Family
