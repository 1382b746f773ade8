import Mathlib.Order.Lattice
import Mathlib.Data.List.Nodup

/-!
# Ordered maps as sorted lists

An ordered map is the list of its entries, with keys that increase along it.  `insert` leaves an
entry that is there alone, `access` runs a function on the value of a key, and `predecessor` finds
the last entry whose key is not above a given one.

Entries are spoken about by the place they have in the list: a member of the list splits it into
what is before and behind it (`exists_split`), and the operations act on such a splitting.
-/

namespace OrderedMap

variable {K V β : Type*} [LinearOrder K] {l pre post : List (K × V)} {k p : K} {v v' : V}

/-- The keys increase. -/
def Sorted (l : List (K × V)) : Prop := (l.map Prod.fst).Pairwise (· < ·)

/-- Insertion of a new entry; one with the same key stays as it is. -/
def insert (k : K) (v : V) : List (K × V) → List (K × V)
  | [] => [(k, v)]
  | e :: l =>
      if k < e.1 then (k, v) :: e :: l
      else if k = e.1 then e :: l
      else e :: insert k v l

/-- Run a function on the value of a key and store the value it leaves. -/
def access (k : K) (f : V → β × V) : List (K × V) → Option (β × List (K × V))
  | [] => none
  | e :: l =>
      if e.1 = k then some ((f e.2).1, (k, (f e.2).2) :: l)
      else (access k f l).map fun r => (r.1, e :: r.2)

/-- The entry before the first key above `p`. -/
def predecessor (p : K) (l : List (K × V)) : Option (K × V) :=
  (l.takeWhile fun e => e.1 ≤ p).getLast?

/-! ## Splitting at an entry -/

lemma exists_split (hs : Sorted l) (h : (k, v) ∈ l) :
    ∃ pre post, l = pre ++ (k, v) :: post ∧ (∀ e ∈ pre, e.1 < k) ∧ ∀ e ∈ post, k < e.1 := by
  obtain ⟨pre, post, rfl⟩ := List.append_of_mem h
  rw [Sorted, List.map_append, List.map_cons, List.pairwise_append, List.pairwise_cons] at hs
  obtain ⟨-, ⟨hpost, -⟩, hpre⟩ := hs
  refine ⟨pre, post, rfl, fun e he => ?_, fun e he => ?_⟩
  · exact hpre e.1 (List.mem_map_of_mem he) k List.mem_cons_self
  · exact hpost e.1 (List.mem_map_of_mem he)

lemma eq_of_key (hs : Sorted l) {e e' : K × V} (he : e ∈ l) (he' : e' ∈ l) (hkey : e.1 = e'.1) :
    e = e' :=
  List.inj_on_of_nodup_map (hs.imp ne_of_lt) he he' hkey

lemma Sorted.replace (hs : Sorted (pre ++ (k, v) :: post)) (v' : V) :
    Sorted (pre ++ (k, v') :: post) := by
  simpa [Sorted] using hs

lemma access_split (f : V → β × V) (hpre : ∀ e ∈ pre, e.1 ≠ k) :
    access k f (pre ++ (k, v) :: post) = some ((f v).1, pre ++ (k, (f v).2) :: post) := by
  induction pre with
  | nil => simp [access]
  | cons e pre ih =>
      have hne : e.1 ≠ k := hpre e List.mem_cons_self
      rw [List.cons_append, access, if_neg hne, ih fun e' he => hpre e' (List.mem_cons_of_mem _ he)]
      rfl

lemma access_none (f : V → β × V) (hl : ∀ e ∈ l, e.1 ≠ k) : access k f l = none := by
  induction l with
  | nil => rfl
  | cons e l ih =>
      rw [access, if_neg (hl e List.mem_cons_self),
        ih fun e' he => hl e' (List.mem_cons_of_mem _ he)]
      rfl

lemma insert_split (v : V) (hs : Sorted l) (hl : ∀ e ∈ l, e.1 ≠ k) :
    ∃ pre post, l = pre ++ post ∧ insert k v l = pre ++ (k, v) :: post ∧
      Sorted (pre ++ (k, v) :: post) := by
  induction l with
  | nil => exact ⟨[], [], rfl, rfl, List.pairwise_singleton _ _⟩
  | cons e l ih =>
      rw [insert]
      have hne := hl e List.mem_cons_self
      by_cases hlt : k < e.1
      · rw [if_pos hlt]
        refine ⟨[], e :: l, rfl, rfl, ?_⟩
        rw [Sorted, List.map_cons, List.pairwise_cons] at hs
        refine List.pairwise_cons.mpr ⟨fun k' hk' => ?_, List.pairwise_cons.mpr hs⟩
        rcases List.mem_cons.mp hk' with rfl | hk'
        · exact hlt
        · exact hlt.trans (hs.1 k' hk')
      · rw [if_neg hlt, if_neg hne.symm]
        rw [Sorted, List.map_cons, List.pairwise_cons] at hs
        obtain ⟨pre, post, rfl, hins, hsorted⟩ :=
          ih hs.2 fun e' he => hl e' (List.mem_cons_of_mem _ he)
        refine ⟨e :: pre, post, rfl, by rw [hins]; rfl, ?_⟩
        refine List.pairwise_cons.mpr ⟨fun k' hk' => ?_, hsorted⟩
        have hk' : k' ∈ (pre ++ (k, v) :: post).map Prod.fst := hk'
        rw [List.map_append, List.map_cons, List.mem_append, List.mem_cons] at hk'
        rcases hk' with hk' | rfl | hk'
        · exact hs.1 k' (by simp [hk'])
        · exact lt_of_le_of_ne (not_lt.mp hlt) hne
        · exact hs.1 k' (by simp [hk'])

lemma predecessor_split (hpre : ∀ e ∈ pre, e.1 < k) (hle : k ≤ p) (hpost : ∀ e ∈ post, p < e.1) :
    predecessor p (pre ++ (k, v) :: post) = some (k, v) := by
  have hall : ∀ e ∈ pre ++ [(k, v)], e.1 ≤ p := by
    intro e he
    rcases List.mem_append.mp he with he | he
    · exact (hpre e he).le.trans hle
    · rw [List.mem_singleton.mp he]
      exact hle
  have hstop : post.takeWhile (fun e => e.1 ≤ p) = [] := by
    cases post with
    | nil => rfl
    | cons e post =>
        have := hpost e List.mem_cons_self
        simp [this]
  rw [predecessor, ← List.singleton_append, ← List.append_assoc,
    List.takeWhile_append_of_pos (by simpa using hall), hstop, List.append_nil]
  simp

end OrderedMap
