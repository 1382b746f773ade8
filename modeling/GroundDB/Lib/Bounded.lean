import Mathlib.Tactic

/-!
# Fixed-size arrays filled from the front, and lists sorted by a key

Two small pieces of general vocabulary.

`Filled α cap` is an array of `cap` cells of which a prefix is in use.  The bound is a field, so a
store outside the array cannot be expressed: `push` on a full array fails.

For a list sorted by a strictly increasing key, the entries at most `t` form a prefix and the
others the rest (`filter_append_filter_of_sorted`).
-/

/-- The used prefix of an array of `cap` cells. -/
structure Filled (α : Type*) (cap : ℕ) where
  toList : List α
  length_le : toList.length ≤ cap

namespace Filled

variable {α : Type*} {cap : ℕ}

/-- No cell is in use. -/
def empty : Filled α cap := ⟨[], Nat.zero_le _⟩

/-- Store into the first unused cell; there is none when the array is full. -/
def push (b : Filled α cap) (x : α) : Option (Filled α cap) :=
  if h : b.toList.length < cap then some ⟨b.toList ++ [x], by simpa using h⟩ else none

/-- Change the last cell in use. -/
def modifyLast (b : Filled α cap) (f : α → α) : Option (Filled α cap) :=
  match h : b.toList.getLast? with
  | none => none
  | some x => some ⟨b.toList.dropLast ++ [f x], by
      have hne : b.toList ≠ [] := by
        rintro hnil
        rw [hnil] at h
        cases h
      have hpos := List.length_pos_iff.mpr hne
      have := b.length_le
      rw [List.length_append, List.length_dropLast]
      simp only [List.length_cons, List.length_nil]
      omega⟩

@[simp] lemma empty_toList : (empty : Filled α cap).toList = [] := rfl

lemma push_spec {b : Filled α cap} (h : b.toList.length < cap) (x : α) :
    ∃ b', b.push x = some b' ∧ b'.toList = b.toList ++ [x] :=
  ⟨_, dif_pos h, rfl⟩

/-- An array with a cell in use has a last one, and only that one changes. -/
lemma modifyLast_spec {b : Filled α cap} (h : b.toList ≠ []) (f : α → α) :
    ∃ b' front x, b.modifyLast f = some b' ∧ b.toList = front ++ [x] ∧
      b'.toList = front ++ [f x] := by
  unfold modifyLast
  split
  · rename_i hnone
    exact absurd (List.getLast?_eq_none_iff.mp hnone) h
  · rename_i x hlast
    obtain ⟨front, hfront⟩ := List.getLast?_eq_some_iff.mp hlast
    exact ⟨_, front, x, rfl, hfront, by simp [hfront]⟩

end Filled

/-! ## Filtering by a bound -/

lemma filter_le_eq_nil {l : List ℕ} {t : ℕ} (h : ∀ x ∈ l, t < x) : l.filter (· ≤ t) = [] := by
  rw [List.filter_eq_nil_iff]
  intro x hx
  simpa using h x hx

lemma filter_lt_eq_nil {l : List ℕ} {t : ℕ} (h : ∀ x ∈ l, x ≤ t) : l.filter (t < ·) = [] := by
  rw [List.filter_eq_nil_iff]
  intro x hx
  simpa using h x hx

lemma filter_lt_filter_lt {r z : ℕ} (hrz : r < z) (l : List ℕ) :
    (l.filter (r < ·)).filter (z < ·) = l.filter (z < ·) := by
  rw [List.filter_filter]
  refine List.filter_congr fun x _ => ?_
  by_cases hx : z < x
  · simp [hx, hrz.trans hx]
  · simp [hx]

section Sorted

variable {α : Type*} (key : α → ℕ) {l : List α}

lemma filter_append_filter_of_sorted (hs : (l.map key).Pairwise (· < ·)) (t : ℕ) :
    l.filter (fun x => key x ≤ t) ++ l.filter (fun x => t < key x) = l := by
  induction l with
  | nil => rfl
  | cons x xs ih =>
      rw [List.map_cons, List.pairwise_cons] at hs
      by_cases hx : key x ≤ t
      · simpa [hx, not_lt.mpr hx] using ih hs.2
      · have hnone : xs.filter (fun y => key y ≤ t) = [] := by
          rw [List.filter_eq_nil_iff]
          intro y hy
          have := hs.1 (key y) (List.mem_map_of_mem hy)
          simp only [decide_eq_true_eq]
          omega
        have hall : xs.filter (fun y => t < key y) = xs := by
          rw [List.filter_eq_self]
          intro y hy
          have := hs.1 (key y) (List.mem_map_of_mem hy)
          simp only [decide_eq_true_eq]
          omega
        simp [hx, lt_of_not_ge hx, hnone, hall]

lemma drop_filter_length_of_sorted (hs : (l.map key).Pairwise (· < ·)) (t : ℕ) :
    l.drop (l.filter (fun x => key x ≤ t)).length = l.filter (fun x => t < key x) := by
  conv_lhs => rw [← filter_append_filter_of_sorted key hs t]
  rw [List.drop_append_of_le_length (by simp [filter_append_filter_of_sorted key hs t])]
  simp [filter_append_filter_of_sorted key hs t]

lemma le_of_getLast? {l : List ℕ} {m x : ℕ} (hs : l.Pairwise (· < ·))
    (hm : l.getLast? = some m) (hx : x ∈ l) : x ≤ m := by
  obtain ⟨q, rfl⟩ := List.getLast?_eq_some_iff.mp hm
  rcases List.mem_append.mp hx with hx | hx
  · exact ((List.pairwise_append.mp hs).2.2 x hx m (by simp)).le
  · exact (List.mem_singleton.mp hx).le

lemma le_getLastD {l : List ℕ} {r y : ℕ} (hs : l.Pairwise (· < ·)) (hr : ∀ x ∈ l, r < x)
    (hy : y = r ∨ y ∈ l) : y ≤ l.getLast?.getD r := by
  cases hl : l.getLast? with
  | none =>
      obtain rfl := List.getLast?_eq_none_iff.mp hl
      exact (hy.resolve_right (by simp)).le
  | some z =>
      rcases hy with rfl | hy
      · exact (hr z (List.mem_of_getLast? hl)).le
      · exact le_of_getLast? hs hl hy

/-- Take the first `c` elements above `r` of a sorted list: what is above the last one taken is
what was left. -/
lemma filter_after_take {c : ℕ} (hc : 0 < c) {l : List ℕ} (hs : l.Pairwise (· < ·)) (r : ℕ) :
    l.filter (fun x => ((l.filter (r < ·)).take c).getLast?.getD r < x) =
      (l.filter (r < ·)).drop c := by
  have hsplit := List.take_append_drop c (l.filter (r < ·))
  have hsorted : (l.filter (r < ·)).Pairwise (· < ·) := hs.filter _
  rcases List.eq_nil_or_concat ((l.filter (r < ·)).take c) with hnil | ⟨q, z, hq⟩
  · have hempty : l.filter (r < ·) = [] := by
      rcases List.take_eq_nil_iff.mp hnil with h | h
      · omega
      · exact h
    simp [hempty]
  rw [List.concat_eq_append] at hq
  have hz : z ∈ l.filter (r < ·) := by
    rw [← hsplit, hq]
    simp
  have hrz : r < z := by simpa using (List.mem_filter.mp hz).2
  rw [hq, List.getLast?_concat, Option.getD_some, ← filter_lt_filter_lt hrz]
  rw [← hsplit, hq] at hsorted
  obtain ⟨hfront, _, hcross⟩ := List.pairwise_append.mp hsorted
  have hlow : (q ++ [z]).filter (z < ·) = [] :=
    filter_lt_eq_nil fun x hx => le_of_getLast? hfront List.getLast?_concat hx
  have hhigh : ((l.filter (r < ·)).drop c).filter (z < ·) = (l.filter (r < ·)).drop c := by
    rw [List.filter_eq_self]
    intro x hx
    simpa using hcross z (by simp) x hx
  conv_lhs => rw [← hsplit, List.filter_append, hq, hlow, List.nil_append, hhigh]

end Sorted
