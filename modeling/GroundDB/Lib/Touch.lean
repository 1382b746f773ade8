import Mathlib.Data.List.Basic
import Mathlib.Data.List.Induction

/-!
# Programs that touch one entry at a time

A state `T → P` is changed by touches `(t, f)`: entry `t` is replaced by `f` of itself.  A touch
reads no other entry, so what a list of touches does to one entry can be computed from that entry
alone (`touchAll_apply`); a log of such lists is replayed entry by entry (`replayAt`), and on an
entry only the members that touch it count (`replayAt_filter`).

Two lists of touches are compared entry by entry (`Related`), by a relation that may depend on the
entry; two logs through a relation that is indexed by a rank, and kept when the rank grows
(`replayAt_related`).
-/

namespace Touch

variable {T P R : Type*}

/-- The entries `l` touches. -/
def touched (l : List (T × (P → P))) : List T := l.map Prod.fst

@[simp] lemma touched_nil : touched ([] : List (T × (P → P))) = [] := rfl

@[simp] lemma touched_cons (e : T × (P → P)) (l : List (T × (P → P))) :
    touched (e :: l) = e.1 :: touched l := rfl

@[simp] lemma touched_append (l l' : List (T × (P → P))) :
    touched (l ++ l') = touched l ++ touched l' := List.map_append

lemma touched_append_subset {l l' : List (T × (P → P))} {t : T} {e e' : P → P}
    (h : touched l' ⊆ touched l) :
    touched (l' ++ [(t, e')]) ⊆ touched (l ++ [(t, e)]) := by
  intro x hx
  simp only [touched_append, touched_cons, touched_nil, List.mem_append] at hx ⊢
  exact hx.imp_left (@h x)

variable [DecidableEq T]

/-- Touch the entries of `l` in turn. -/
def touchAll (l : List (T × (P → P))) (s : T → P) : T → P :=
  l.foldl (fun s e => Function.update s e.1 (e.2 (s e.1))) s

/-- What `l` does to entry `t`. -/
def touchAt (l : List (T × (P → P))) (t : T) (p : P) : P :=
  l.foldl (fun p e => if e.1 = t then e.2 p else p) p

section Lists

variable {l l' : List (T × (P → P))} {t : T} {p q : P}

@[simp] lemma touchAt_nil : touchAt [] t p = p := rfl

@[simp] lemma touchAt_cons (e : T × (P → P)) :
    touchAt (e :: l) t p = touchAt l t (if e.1 = t then e.2 p else p) := rfl

lemma touchAt_append : touchAt (l ++ l') t p = touchAt l' t (touchAt l t p) :=
  List.foldl_append

/-- **Entries are independent.** -/
theorem touchAll_apply (l : List (T × (P → P))) (s : T → P) (t : T) :
    touchAll l s t = touchAt l t (s t) := by
  induction l generalizing s with
  | nil => rfl
  | cons e l ih =>
      rw [touchAt_cons]
      refine (ih _).trans (congrArg _ ?_)
      by_cases h : e.1 = t
      · subst h
        simp
      · simp [h, Function.update_of_ne (Ne.symm h)]

lemma touchAt_of_notMem (h : t ∉ touched l) : touchAt l t p = p := by
  induction l generalizing p with
  | nil => rfl
  | cons e l ih =>
      obtain ⟨hne, hl⟩ : e.1 ≠ t ∧ t ∉ touched l := by
        simpa [eq_comm] using h
      rw [touchAt_cons, if_neg hne, ih hl]

/-- Two lists, the first of which touches all that the second does, that take entries in relation
`Pre` to entries in relation `Post`. -/
structure Related (Pre Post : T → P → P → Prop) (l l' : List (T × (P → P))) : Prop where
  touched_subset : touched l' ⊆ touched l
  post : ∀ t p q, Pre t p q → Post t (touchAt l t p) (touchAt l' t q)

variable {Pre Post : T → P → P → Prop} {e e' : P → P}

lemma Related.nil (h : ∀ t p q, Pre t p q → Post t p q) :
    Related Pre Post ([] : List (T × (P → P))) [] := ⟨List.Subset.refl _, h⟩

/-- One more touch, which may hit an entry again. -/
lemma Related.append_again (h : Related Pre Post l l')
    (hstep : ∀ p q, Post t p q → Post t (e p) (e' q)) :
    Related Pre Post (l ++ [(t, e)]) (l' ++ [(t, e')]) := by
  refine ⟨touched_append_subset h.touched_subset, fun t' p q hpq => ?_⟩
  have hpost := h.post t' p q hpq
  by_cases ht : t = t'
  · subst ht
    simpa [touchAt_append] using hstep _ _ hpost
  · simpa [touchAt_append, ht] using hpost

lemma Related.append_once (h : Related Pre Post l l') (hnew : t ∉ touched l)
    (hstep : ∀ p q, Pre t p q → Post t (e p) (e' q)) :
    Related Pre Post (l ++ [(t, e)]) (l' ++ [(t, e')]) := by
  refine ⟨touched_append_subset h.touched_subset, fun t' p q hpq => ?_⟩
  by_cases ht : t = t'
  · subst ht
    have hnew' : t ∉ touched l' := fun hmem => hnew (h.touched_subset hmem)
    simpa [touchAt_append, touchAt_of_notMem hnew, touchAt_of_notMem hnew'] using hstep _ _ hpq
  · simpa [touchAt_append, ht] using h.post t' p q hpq

/-- Touches of the first side alone, each of which keeps `Post`. -/
lemma Related.append_left {below : List (T × (P → P))} (h : Related Pre Post l l')
    (hstep : ∀ e ∈ below, ∀ p q, Post e.1 p q → Post e.1 (e.2 p) q) :
    Related Pre Post (l ++ below) l' := by
  refine ⟨fun t ht => by simp [h.touched_subset ht], fun t p q hpq => ?_⟩
  rw [touchAt_append]
  generalize touchAt l t p = p', h.post t p q hpq = hpost
  induction below generalizing p' with
  | nil => exact hpost
  | cons e below ih =>
      refine ih (fun e he => hstep e (List.mem_cons_of_mem _ he)) _ ?_
      by_cases ht : e.1 = t
      · subst ht
        simpa using hstep e List.mem_cons_self _ _ hpost
      · simpa [ht] using hpost

end Lists

/-! ## Logs -/

variable (touches : R → List (T × (P → P)))

/-- Replay a log on one entry. -/
def replayAt (log : List R) (t : T) (p : P) : P :=
  log.foldl (fun p r => touchAt (touches r) t p) p

variable {touches} {log : List R} {t : T}

/-- Only the members that touch the entry count. -/
theorem replayAt_filter (log : List R) (t : T) (p : P) :
    replayAt touches (log.filter fun r => t ∈ touched (touches r)) t p
      = replayAt touches log t p := by
  induction log generalizing p with
  | nil => rfl
  | cons r log ih =>
      by_cases h : t ∈ touched (touches r)
      · rw [List.filter_cons_of_pos (by simpa using h)]
        exact ih _
      · rw [List.filter_cons_of_neg (by simpa using h), ih]
        exact congrArg _ (touchAt_of_notMem h).symm

/-- **Two logs in step.**  A relation indexed by a rank, which every member keeps when the rank
grows to its own, holds of the entries after a log of growing ranks. -/
theorem replayAt_related (touches touches' : R → List (T × (P → P))) (rank : R → ℕ)
    (Rel : ℕ → P → P → Prop) (hstep : ∀ r ∈ log, ∀ n < rank r, ∀ p q, Rel n p q →
      Rel (rank r) (touchAt (touches r) t p) (touchAt (touches' r) t q))
    (hlog : log.Pairwise fun r r' => rank r < rank r') {n : ℕ} (hn : ∀ r ∈ log, n < rank r)
    {p q : P} (hpq : Rel n p q) :
    ∃ n', Rel n' (replayAt touches log t p) (replayAt touches' log t q) := by
  induction log generalizing n p q with
  | nil => exact ⟨n, hpq⟩
  | cons r log ih =>
      obtain ⟨hr, hlog⟩ := List.pairwise_cons.mp hlog
      refine ih (fun r' hr' => hstep r' (List.mem_cons_of_mem _ hr')) hlog hr ?_
      exact hstep r List.mem_cons_self n (hn r List.mem_cons_self) p q hpq

end Touch
