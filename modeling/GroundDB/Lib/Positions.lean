import Mathlib.Data.List.Basic

/-!
# Elements of a list by position

`keep S p l` are the elements of `l` that stand at positions in `S`, when the first element of `l`
stands at position `p`.  A loop that passes over a list in pieces, looking at some and skipping
others, is described by the positions it looks at: the pieces go together by `keep_append`, a piece
it skips gives nothing (`keep_eq_nil`), and one it looks at gives all of it (`keep_eq_self`).
-/

namespace Positions

variable {α : Type*} (S : ℕ → Prop) [DecidablePred S]

/-- The elements at positions in `S`, the first element being at position `p`. -/
def keep : ℕ → List α → List α
  | _, [] => []
  | p, x :: l => if S p then x :: keep (p + 1) l else keep (p + 1) l

variable {S} {p : ℕ} {l l₁ l₂ : List α} {x : α}

lemma keep_append : keep S p (l₁ ++ l₂) = keep S p l₁ ++ keep S (p + l₁.length) l₂ := by
  induction l₁ generalizing p with
  | nil => rfl
  | cons y l₁ ih =>
      have hlen : p + (y :: l₁).length = p + 1 + l₁.length := by
        rw [List.length_cons, Nat.add_comm l₁.length 1, Nat.add_assoc]
      simp only [List.cons_append, keep, ih, hlen]
      split_ifs <;> rfl

lemma keep_eq_nil (h : ∀ j, p ≤ j → j < p + l.length → ¬S j) : keep S p l = [] := by
  induction l generalizing p with
  | nil => rfl
  | cons y l ih =>
      simp only [List.length_cons] at h
      rw [keep, if_neg (h p (Nat.le_refl p) (by omega)),
        ih fun j hj hlt => h j (by omega) (by omega)]

lemma keep_eq_self (h : ∀ j, p ≤ j → j < p + l.length → S j) : keep S p l = l := by
  induction l generalizing p with
  | nil => rfl
  | cons y l ih =>
      simp only [List.length_cons] at h
      rw [keep, if_pos (h p (Nat.le_refl p) (by omega)),
        ih fun j hj hlt => h j (by omega) (by omega)]

lemma keep_sublist : (keep S p l).Sublist l := by
  induction l generalizing p with
  | nil => exact List.Sublist.refl _
  | cons y l ih =>
      rw [keep]
      split_ifs
      · exact ih.cons_cons y
      · exact ih.cons y

lemma mem_keep : x ∈ keep S p l ↔ ∃ i, l[i]? = some x ∧ S (p + i) := by
  induction l generalizing p with
  | nil => simp [keep]
  | cons y l ih =>
      -- The first element is at `i = 0`, the others one further than in the rest.
      have hsplit : (∃ i, (y :: l)[i]? = some x ∧ S (p + i)) ↔
          (y = x ∧ S p) ∨ ∃ i, l[i]? = some x ∧ S (p + 1 + i) := by
        constructor
        · rintro ⟨_ | i, hi, hS⟩
          · exact .inl ⟨by simpa using hi, hS⟩
          · exact .inr ⟨i, by simpa using hi, by rwa [Nat.add_assoc, Nat.add_comm 1 i]⟩
        · rintro (⟨rfl, hS⟩ | ⟨i, hi, hS⟩)
          · exact ⟨0, rfl, hS⟩
          · exact ⟨i + 1, by simpa using hi, by rwa [Nat.add_comm i 1, ← Nat.add_assoc]⟩
      rw [hsplit, ← ih, keep]
      split_ifs with hS
      · simp [hS, eq_comm]
      · simp [hS]

end Positions
