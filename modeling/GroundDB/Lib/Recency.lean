import Mathlib.Data.List.Nodup

/-!
# Lists ordered by last access

`age log x` says how many accesses of the log `log` came after the last access to `x`.  A list is in
recency order when ages grow along it.  An access keeps that order if what was accessed is moved to
the front (`Ordered.moveToFront`), and breaks it if something else stays in front (`not_ordered`).
-/

namespace Recency

variable {α : Type*} [DecidableEq α] {log l : List α} {x y : α}

/-- How many accesses ago `x` was accessed last; the length of the log if it never was. -/
def age (log : List α) (x : α) : ℕ := log.reverse.idxOf x

/-- The list is ordered by last access, most recent first. -/
def Ordered (log l : List α) : Prop := l.Pairwise fun x y => age log x < age log y

@[simp] lemma age_append_self : age (log ++ [x]) x = 0 := by
  simp [age]

lemma age_append_of_ne (h : x ≠ y) : age (log ++ [y]) x = age log x + 1 := by
  simp [age, h.symm]

lemma Ordered.append (h : Ordered log l) (hx : x ∉ l) : Ordered (log ++ [x]) l := by
  refine List.Pairwise.imp_of_mem ?_ h
  intro a b ha hb hlt
  rw [age_append_of_ne (ne_of_mem_of_not_mem ha hx), age_append_of_ne (ne_of_mem_of_not_mem hb hx)]
  exact Nat.succ_lt_succ hlt

lemma Ordered.moveToFront (h : Ordered log l) (hl : l.Nodup) :
    Ordered (log ++ [x]) (x :: l.erase x) := by
  have hx : x ∉ l.erase x := hl.not_mem_erase
  refine List.pairwise_cons.mpr ⟨fun y hy => ?_, Ordered.append ?_ hx⟩
  · rw [age_append_self, age_append_of_ne (ne_of_mem_of_not_mem hy hx)]
    exact Nat.succ_pos _
  · exact List.Pairwise.sublist List.erase_sublist h

lemma not_ordered (hx : x ∈ l) : ¬Ordered (log ++ [x]) (y :: l) := by
  intro h
  have := (List.pairwise_cons.mp h).1 x hx
  rw [age_append_self] at this
  exact Nat.not_lt_zero _ this

end Recency
