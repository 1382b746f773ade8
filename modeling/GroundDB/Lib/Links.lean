import Mathlib.Tactic

/-!
# Lists threaded through link fields

Memory is seen one field at a time: a link field is a function from nodes to pointers, and an
assignment to the field of a node is `update`.  A pointer is an optional node, `none`
being null.

`Seg nx p l q` describes a singly linked list: starting at the pointer `p` and following `nx`, one
meets the nodes `l` and then the pointer `q`.  `Linked nx pv a l b` describes the inside of a
doubly linked list: from the node `a` through the nodes `l` to the node `b`, where the two fields
of neighbours point at each other.  A `Ring` is such a list from a head node back to itself.

The lemmas say what the assignments of a list program do: a segment depends on the fields of its
nodes only (`Seg.congr`, `Linked.congr`), the last pointer of a list may be redirected
(`Seg.retarget`, `Linked.retarget`), and a node may be taken out of a ring or put in before the
head (`Ring.remove`, `Ring.append`).
-/

namespace Links

open Function

variable {α : Type*}

/-! ## Singly linked lists -/

/-- Following `nx` from `p` one meets the nodes `l` and then the pointer `q`. -/
def Seg (nx : α → Option α) : Option α → List α → Option α → Prop
  | p, [], q => p = q
  | p, a :: l, q => p = some a ∧ Seg nx (nx a) l q

section Seg

variable {nx nx' : α → Option α} {p q q' : Option α} {a : α} {l l₁ l₂ : List α}

lemma seg_append : Seg nx p (l₁ ++ l₂) q ↔ ∃ m, Seg nx p l₁ m ∧ Seg nx m l₂ q := by
  induction l₁ generalizing p with
  | nil => simp [Seg]
  | cons x xs ih =>
      simp only [List.cons_append, Seg, ih]
      constructor
      · rintro ⟨hp, m, h₁, h₂⟩
        exact ⟨m, ⟨hp, h₁⟩, h₂⟩
      · rintro ⟨m, ⟨hp, h₁⟩, h₂⟩
        exact ⟨hp, m, h₁, h₂⟩

lemma Seg.congr (h : Seg nx p l q) (hnx : ∀ x ∈ l, nx' x = nx x) : Seg nx' p l q := by
  induction l generalizing p with
  | nil => exact h
  | cons x xs ih =>
      obtain ⟨hp, hrest⟩ := h
      refine ⟨hp, ?_⟩
      rw [hnx x List.mem_cons_self]
      exact ih hrest fun y hy => hnx y (List.mem_cons_of_mem x hy)

lemma Seg.unique (h₁ : Seg nx p l₁ none) (h₂ : Seg nx p l₂ none) : l₁ = l₂ := by
  induction l₁ generalizing p l₂ with
  | nil =>
      obtain rfl : p = none := h₁
      cases l₂ with
      | nil => rfl
      | cons y ys => exact absurd h₂.1 (by simp)
  | cons x xs ih =>
      obtain ⟨rfl, hrest⟩ := h₁
      cases l₂ with
      | nil => exact absurd h₂ (by simp [Seg])
      | cons y ys =>
          obtain ⟨hxy, hrest'⟩ := h₂
          obtain rfl : x = y := by simpa using hxy
          rw [ih hrest hrest']

lemma Seg.nodup (h : Seg nx p l none) : l.Nodup := by
  induction l generalizing p with
  | nil => exact List.nodup_nil
  | cons x xs ih =>
      rw [List.nodup_cons]
      refine ⟨fun hx => ?_, ih h.2⟩
      -- a second visit to `x` would be followed by the same nodes as the first
      obtain ⟨l₁, l₂, rfl⟩ := List.append_of_mem hx
      obtain ⟨m, _, hm⟩ := seg_append.mp h.2
      obtain ⟨rfl, hagain⟩ := hm
      have hlen := congrArg List.length (h.2.unique hagain)
      simp only [List.length_append, List.length_cons] at hlen
      omega

variable [DecidableEq α]

lemma Seg.retarget (h : Seg nx p (l ++ [a]) q) (ha : a ∉ l) :
    Seg (update nx a q') p (l ++ [a]) q' := by
  obtain ⟨m, h₁, h₂⟩ := seg_append.mp h
  refine seg_append.mpr ⟨m, h₁.congr fun x hx => ?_, h₂.1, ?_⟩
  · refine update_of_ne ?_ _ _
    rintro rfl
    exact ha hx
  · simp [Seg]

end Seg

/-! ## Doubly linked lists -/

/-- From `a` through `l` to `b`, the fields of neighbours point at each other. -/
def Linked (nx pv : α → Option α) : α → List α → α → Prop
  | a, [], b => nx a = some b ∧ pv b = some a
  | a, x :: l, b => (nx a = some x ∧ pv x = some a) ∧ Linked nx pv x l b

section Linked

variable {nx pv nx' pv' : α → Option α} {a b c x : α} {l l₁ l₂ : List α}

lemma linked_append :
    Linked nx pv a (l₁ ++ x :: l₂) b ↔ Linked nx pv a l₁ x ∧ Linked nx pv x l₂ b := by
  induction l₁ generalizing a with
  | nil => rfl
  | cons y ys ih => simp only [List.cons_append, Linked, ih, and_assoc]

/-- A list depends on the forward fields of all nodes but the last and on the backward fields of
all nodes but the first. -/
lemma Linked.congr (h : Linked nx pv a l b) (hnx : ∀ y ∈ a :: l, nx' y = nx y)
    (hpv : ∀ y ∈ l ++ [b], pv' y = pv y) : Linked nx' pv' a l b := by
  induction l generalizing a with
  | nil =>
      obtain ⟨h₁, h₂⟩ := h
      exact ⟨(hnx a (by simp)).trans h₁, (hpv b (by simp)).trans h₂⟩
  | cons y ys ih =>
      obtain ⟨⟨h₁, h₂⟩, hrest⟩ := h
      refine ⟨⟨(hnx a (by simp)).trans h₁, (hpv y (by simp)).trans h₂⟩, ih hrest ?_ ?_⟩
      · intro z hz
        exact hnx z (List.mem_cons_of_mem a hz)
      · intro z hz
        exact hpv z (List.mem_cons_of_mem y hz)

lemma Linked.pred (h : Linked nx pv a l b) :
    ∃ p ∈ a :: l, pv b = some p ∧ nx p = some b := by
  induction l generalizing a with
  | nil => exact ⟨a, by simp, h.2, h.1⟩
  | cons y ys ih =>
      obtain ⟨p, hp, hpv, hnx⟩ := ih h.2
      exact ⟨p, List.mem_cons_of_mem a hp, hpv, hnx⟩

lemma Linked.succ (h : Linked nx pv a l b) :
    ∃ n ∈ l ++ [b], nx a = some n ∧ pv n = some a := by
  cases l with
  | nil => exact ⟨b, by simp, h.1, h.2⟩
  | cons y ys => exact ⟨y, by simp, h.1.1, h.1.2⟩

variable [DecidableEq α]

/-- **The end of a list is redirected** by one assignment on each side: the node before the end
gets a new successor, and this successor points back at it. -/
lemma Linked.retarget {p : α} (h : Linked nx pv a l b) (hnd : (a :: l).Nodup)
    (hp : pv b = some p) (hnx : ∀ y ∈ a :: l, nx' y = update nx p (some c) y)
    (hpv : ∀ y ∈ l, pv' y = pv y) (hc : pv' c = some p) : Linked nx' pv' a l c := by
  induction l generalizing a with
  | nil =>
      obtain rfl : a = p := by
        have := h.2.symm.trans hp
        simpa using this
      exact ⟨by rw [hnx a (by simp), update_self], hc⟩
  | cons y ys ih =>
      obtain ⟨⟨h₁, h₂⟩, hrest⟩ := h
      have hay : a ∉ y :: ys := (List.nodup_cons.mp hnd).1
      -- the first node keeps its successor, since the assignment is to a later one
      have hap : a ≠ p := by
        obtain ⟨p', hp', hpv', _⟩ := hrest.pred
        obtain rfl : p' = p := by
          have := hpv'.symm.trans hp
          simpa using this
        rintro rfl
        exact hay hp'
      refine ⟨⟨?_, ?_⟩, ih hrest (List.nodup_cons.mp hnd).2 ?_ ?_⟩
      · rw [hnx a (by simp), update_of_ne hap, h₁]
      · rw [hpv y (by simp), h₂]
      · intro z hz
        exact hnx z (List.mem_cons_of_mem a hz)
      · intro z hz
        exact hpv z (List.mem_cons_of_mem y hz)

end Linked

/-! ## Rings -/

/-- A circular doubly linked list with head node `hd` and the distinct nodes `l`. -/
structure Ring (nx pv : α → Option α) (hd : α) (l : List α) : Prop where
  linked : Linked nx pv hd l hd
  nodup : (hd :: l).Nodup

section Ring

variable {nx pv nx' pv' : α → Option α} {hd a : α} {l l₁ l₂ : List α}

lemma Ring.congr (h : Ring nx pv hd l) (hnx : ∀ y ∈ hd :: l, nx' y = nx y)
    (hpv : ∀ y ∈ hd :: l, pv' y = pv y) : Ring nx' pv' hd l := by
  refine ⟨h.linked.congr hnx fun y hy => hpv y ?_, h.nodup⟩
  rcases List.mem_append.mp hy with hy | hy
  · exact List.mem_cons_of_mem hd hy
  · obtain rfl := List.mem_singleton.mp hy
    exact List.mem_cons_self

/-- The head's successor: the first node, or the head itself. -/
lemma Ring.next_head (h : Ring nx pv hd l) : nx hd = some (l.head?.getD hd) := by
  cases l with
  | nil => exact h.linked.1
  | cons x xs => exact h.linked.1.1

lemma Ring.neighbours (h : Ring nx pv hd l) (ha : a ∈ l) :
    ∃ p n, pv a = some p ∧ nx a = some n ∧ p ∈ hd :: l ∧ n ∈ hd :: l ∧ p ≠ a ∧ n ≠ a := by
  obtain ⟨l₁, l₂, rfl⟩ := List.append_of_mem ha
  obtain ⟨h₁, h₂⟩ := linked_append.mp h.linked
  obtain ⟨p, hp, hpv, -⟩ := h₁.pred
  obtain ⟨n, hn, hnx, -⟩ := h₂.succ
  have hnd := h.nodup
  rw [List.nodup_cons, List.nodup_append, List.nodup_cons] at hnd
  have hmem_hd : a ≠ hd := by
    rintro rfl
    exact hnd.1 (by simp)
  refine ⟨p, n, hpv, hnx, ?_, ?_, ?_, ?_⟩
  · rcases List.mem_cons.mp hp with rfl | hp
    · exact List.mem_cons_self
    · simp [hp]
  · rcases List.mem_append.mp hn with hn | hn
    · simp [hn]
    · simp [List.mem_singleton.mp hn]
  · rintro rfl
    rcases List.mem_cons.mp hp with rfl | hp
    · exact hmem_hd rfl
    · exact hnd.2.2.2 p hp p List.mem_cons_self rfl
  · rintro rfl
    rcases List.mem_append.mp hn with hn | hn
    · exact hnd.2.2.1.1 hn
    · exact hmem_hd (List.mem_singleton.mp hn)

variable [DecidableEq α]

/-- **Unlinking a node**: its neighbours are made to point at each other. -/
theorem Ring.remove {p n : α} (h : Ring nx pv hd (l₁ ++ a :: l₂)) (hp : pv a = some p)
    (hn : nx a = some n) :
    Ring (update nx p (some n)) (update pv n (some p)) hd (l₁ ++ l₂) := by
  obtain ⟨h₁, h₂⟩ := linked_append.mp h.linked
  have hnd := h.nodup
  have hnd' : (hd :: (l₁ ++ l₂)).Nodup := hnd.sublist (by simp)
  refine ⟨?_, hnd'⟩
  have hhd₁ : (hd :: l₁).Nodup := hnd.sublist (by simp)
  have hnl : ∀ y ∈ l₁, y ∉ l₂ := by
    rw [List.nodup_cons, List.nodup_append] at hnd'
    intro y hy hy₂
    exact hnd'.2.2.2 y hy y hy₂ rfl
  have hdl : hd ∉ l₁ ∧ hd ∉ l₂ := by
    rw [List.nodup_cons, List.mem_append, not_or] at hnd'
    exact hnd'.1
  cases l₂ with
  | nil =>
      obtain rfl : hd = n := by
        have := h₂.1.symm.trans hn
        simpa using this
      rw [List.append_nil]
      refine h₁.retarget hhd₁ hp (fun y _ => rfl) (fun y hy => ?_) (update_self ..)
      refine update_of_ne ?_ _ _
      rintro rfl
      exact hdl.1 hy
  | cons x xs =>
      obtain rfl : x = n := by
        have := h₂.1.1.symm.trans hn
        simpa using this
      refine linked_append.mpr ⟨?_, h₂.2.congr ?_ ?_⟩
      · refine h₁.retarget hhd₁ hp (fun y _ => rfl) (fun y hy => ?_) (update_self ..)
        exact update_of_ne (fun hy' => hnl y hy (by simp [hy'])) _ _
      · -- the node before `a` is on the other side of it
        obtain ⟨p', hp', hpv', -⟩ := h₁.pred
        obtain rfl : p' = p := by
          have := hpv'.symm.trans hp
          simpa using this
        intro y hy
        refine update_of_ne ?_ _ _
        rintro rfl
        rcases List.mem_cons.mp hp' with rfl | hp'
        · exact hdl.2 hy
        · exact hnl y hp' hy
      · intro y hy
        refine update_of_ne ?_ _ _
        rintro rfl
        rcases List.mem_append.mp hy with hy | hy
        · have hxs : (y :: xs).Nodup := hnd'.sublist
            ((List.sublist_append_right l₁ (y :: xs)).trans (List.sublist_cons_self hd _))
          exact (List.nodup_cons.mp hxs).1 hy
        · exact hdl.2 (by simp [List.mem_singleton.mp hy])

/-- **Linking a node in before the head**, that is at the end of the list. -/
theorem Ring.append {p : α} (h : Ring nx pv hd l) (ha : a ∉ hd :: l) (hp : pv hd = some p)
    (hnx : ∀ y ∈ hd :: l, nx' y = update nx p (some a) y)
    (hpv : ∀ y ∈ l, pv' y = pv y) (hna : nx' a = some hd) (hpa : pv' a = some p)
    (hph : pv' hd = some a) : Ring nx' pv' hd (l ++ [a]) := by
  refine ⟨linked_append.mpr ⟨?_, hna, hph⟩, ?_⟩
  · exact h.linked.retarget h.nodup hp hnx hpv hpa
  · rw [← List.cons_append]
    refine List.nodup_append.mpr ⟨h.nodup, List.nodup_singleton a, ?_⟩
    rintro y hy z hz rfl
    exact ha (List.mem_singleton.mp hz ▸ hy)

end Ring

end Links
