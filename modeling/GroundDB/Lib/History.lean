import GroundDB.Lib.Bounded

/-!
# Replaying a log up to a point

An object changes by the records of a log, each identified by a number; the log is increasing.
`replay redo l p` applies the records of `l` in order, and `asOf redo base log t` is what the
object was at point `t`: the base with every record up to `t` applied.

A state at an earlier point can be brought forward by the records in between (`asOf_extend`),
which is what an implementation that keeps one materialised version does.
-/

namespace History

/-- The records after `r` and up to `t`. -/
def between (r t : ℕ) (log : List ℕ) : List ℕ :=
  log.filter fun x => r < x ∧ x ≤ t

@[simp] lemma between_append (r t : ℕ) (l₁ l₂ : List ℕ) :
    between r t (l₁ ++ l₂) = between r t l₁ ++ between r t l₂ := List.filter_append ..

lemma mem_between {r t x : ℕ} {log : List ℕ} :
    x ∈ between r t log ↔ x ∈ log ∧ r < x ∧ x ≤ t := by
  simp [between]

lemma between_eq_nil {r t : ℕ} {log : List ℕ} (h : ∀ x ∈ log, x ≤ r ∨ t < x) :
    between r t log = [] := by
  rw [between, List.filter_eq_nil_iff]
  intro x hx
  have := h x hx
  simp only [decide_eq_true_eq]
  omega

lemma between_of_lt {r t : ℕ} {log : List ℕ} (h : ∀ x ∈ log, r < x) :
    between r t log = log.filter (· ≤ t) := by
  refine List.filter_congr fun x hx => ?_
  simp [h x hx]

lemma between_filter (r t : ℕ) (log : List ℕ) :
    between r t (log.filter (r < ·)) = between r t log := by
  rw [between, List.filter_filter]
  refine List.filter_congr fun x _ => ?_
  by_cases hx : r < x <;> simp [hx]

/-- The first `c` records after `r` are those up to the last of them. -/
lemma take_eq_between {r c last : ℕ} {log : List ℕ} (hs : log.Pairwise (· < ·))
    (hlast : ((log.filter (r < ·)).take c).getLast? = some last) :
    (log.filter (r < ·)).take c = between r last log := by
  have hsplit := List.take_append_drop c (log.filter (r < ·))
  have hsorted : (log.filter (r < ·)).Pairwise (· < ·) := hs.filter _
  rw [← hsplit] at hsorted
  obtain ⟨hfront, _, hcross⟩ := List.pairwise_append.mp hsorted
  have hrange : between r last log = (log.filter (r < ·)).filter (· ≤ last) := by
    rw [← between_filter, between_of_lt fun x hx => by simpa using (List.mem_filter.mp hx).2]
  have hlow : ((log.filter (r < ·)).take c).filter (· ≤ last) = (log.filter (r < ·)).take c := by
    rw [List.filter_eq_self]
    intro x hx
    simpa using le_of_getLast? hfront hlast hx
  have hhigh : ((log.filter (r < ·)).drop c).filter (· ≤ last) = [] :=
    filter_le_eq_nil fun x hx => hcross last (List.mem_of_getLast? hlast) x hx
  rw [hrange]
  conv_rhs => rw [← hsplit, List.filter_append, hlow, hhigh, List.append_nil]

section Replay

variable {P : Type*} (redo : ℕ → P → P)

/-- Apply records in order. -/
def replay (records : List ℕ) (p : P) : P := records.foldl (fun p x => redo x p) p

/-- The object at point `t`. -/
def asOf (base : P) (log : List ℕ) (t : ℕ) : P := replay redo (log.filter (· ≤ t)) base

variable {redo} {base : P} {log : List ℕ} {r t : ℕ}

/-- **Bringing a version forward**: the state at `t` is the state at an earlier `r` with the
records in between applied. -/
theorem asOf_extend (hs : log.Pairwise (· < ·)) (hrt : r ≤ t) :
    replay redo (between r t log) (asOf redo base log r) = asOf redo base log t := by
  have hsplit : log.filter (· ≤ t) = log.filter (· ≤ r) ++ between r t log := by
    have hsorted : ((log.filter (· ≤ t)).map id).Pairwise (· < ·) := by simpa using hs.filter _
    rw [← filter_append_filter_of_sorted id hsorted r]
    simp only [id_eq, List.filter_filter]
    congr 1
    · refine List.filter_congr fun x _ => ?_
      by_cases hx : x ≤ r
      · simp [hx, hx.trans hrt]
      · simp [hx]
    · refine List.filter_congr fun x _ => ?_
      simp
  rw [asOf, asOf, hsplit]
  exact (List.foldl_append ..).symm

lemma asOf_congr {t' : ℕ} (h : ∀ x ∈ log, x ≤ t ↔ x ≤ t') :
    asOf redo base log t = asOf redo base log t' := by
  have hfilter : log.filter (· ≤ t) = log.filter (· ≤ t') :=
    List.filter_congr fun x hx => by simp [h x hx]
  rw [asOf, asOf, hfilter]

lemma asOf_eq_base (h : ∀ x ∈ log, t < x) : asOf redo base log t = base := by
  rw [asOf, filter_le_eq_nil h]
  rfl

lemma asOf_append {new : List ℕ} (h : ∀ x ∈ new, t < x) :
    asOf redo base (log ++ new) t = asOf redo base log t := by
  rw [asOf, asOf, List.filter_append, filter_le_eq_nil h, List.append_nil]

end Replay

end History
