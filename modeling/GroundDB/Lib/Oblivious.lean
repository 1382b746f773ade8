import Mathlib.Tactic.Lemma

/-!
# Programs that do not see part of the state

A program with a state and failures is oblivious to an operation `φ` on states if it makes no
difference whether `φ` is applied before or after it: it fails in the same cases, returns the same
value, and ends in states that differ by `φ`.  With the operation that replaces a part of the state
by something else this says two things at once: the program does not read that part, and does not
change it.

`Oblivious φ P m` says this of `m`, and that what `m` returns satisfies `P`, so that the parts of a
program may depend on what the parts before them return (`Oblivious.bind`).
-/

universe u v

variable {σ α β : Type u} {ε : Type v} {φ : σ → σ}

/-- `m` commutes with `φ`, and what it returns satisfies `P`. -/
structure Oblivious (φ : σ → σ) (P : α → Prop) (m : StateT σ (Except ε) α) : Prop where
  commutes : ∀ s, m (φ s) = (m s).map fun r => (r.1, φ r.2)
  post : ∀ s a s', m s = .ok (a, s') → P a

namespace Oblivious

variable {P P' : α → Prop} {Q : β → Prop} {m m' : StateT σ (Except ε) α}
  {k : α → StateT σ (Except ε) β}

lemma ofPure {a : α} (h : P a) : Oblivious φ P (pure a : StateT σ (Except ε) α) where
  commutes _ := rfl
  post := by
    intro s a' s' hrun
    cases hrun
    exact h

lemma ofError {e : ε} (h : ∀ s, m s = .error e) : Oblivious φ P m where
  commutes s := by rw [h, h]; rfl
  post := by
    intro s a s' hrun
    rw [h] at hrun
    cases hrun

lemma bind (hm : Oblivious φ P m) (hk : ∀ a, P a → Oblivious φ Q (k a)) :
    Oblivious φ Q (m >>= k) where
  commutes s := by
    change (m (φ s) >>= fun r => k r.1 r.2) = (m s >>= fun r => k r.1 r.2).map _
    rw [hm.commutes]
    cases hrun : m s with
    | error e => rfl
    | ok r => exact (hk r.1 (hm.post s r.1 r.2 hrun)).commutes r.2
  post := by
    intro s b s' hrun
    change (m s >>= fun r => k r.1 r.2) = .ok (b, s') at hrun
    cases hfirst : m s with
    | error e =>
        rw [hfirst] at hrun
        cases hrun
    | ok r =>
        rw [hfirst] at hrun
        exact (hk r.1 (hm.post s r.1 r.2 hfirst)).post r.2 b s' hrun

lemma ite {p : Prop} [Decidable p] (hm : p → Oblivious φ P m) (hm' : ¬ p → Oblivious φ P m') :
    Oblivious φ P (if p then m else m') := by
  split
  · exact hm ‹_›
  · exact hm' ‹_›

lemma mono (hm : Oblivious φ P m) (h : ∀ a, P a → P' a) : Oblivious φ P' m :=
  ⟨hm.commutes, fun s a s' hrun => h a (hm.post s a s' hrun)⟩

/-- A run that returns, seen from the other side of `φ`. -/
lemma run_ok (hm : Oblivious φ P m) {s s' : σ} {a : α} (hrun : m s = .ok (a, s')) :
    m (φ s) = .ok (a, φ s') := by
  rw [hm.commutes, hrun]
  rfl

end Oblivious
