import Mathlib.Tactic

/-!
# Nodes on a heap, and the chains they form

A heap of nodes of one type: allocation hands out addresses that were never used before, and
reading, writing or freeing an address that is not allocated fails.  A pointer is an optional
address, `none` being the null pointer.

`Chain next ok h pr p l tl q` describes a linked list in the heap: starting at the pointer `p`
and following `next`, one meets exactly the nodes `l` (address and contents) and then the pointer
`q`; `pr` points to the node before the first, `tl` to the last node, or to `pr` when there is
none, and every node's back link is right in the sense of `ok`, which is told where the
predecessor is.  Splitting (`chain_append`), framing (`Chain.frame`) and the fact that a chain
which ends in null has no repetitions (`Chain.nodup`) are all a pointer program needs to be
followed step by step.
-/

namespace PtrHeap

/-- A pointer: `none` is null. -/
abbrev Ptr := Option ℕ

/-- Nodes by address.  `fresh` bounds the addresses handed out so far. -/
structure Heap (α : Type*) where
  cells : ℕ → Option α
  fresh : ℕ
  unused : ∀ a, fresh ≤ a → cells a = none

variable {α : Type*}

namespace Heap

/-- Nothing is allocated. -/
def empty : Heap α := ⟨fun _ => none, 0, fun _ _ => rfl⟩

/-- The node at `a`, if `a` is allocated. -/
def read (h : Heap α) (a : ℕ) : Option α := h.cells a

lemma lt_fresh {h : Heap α} {a : ℕ} {n : α} (hr : h.read a = some n) : a < h.fresh := by
  by_contra hge
  have hnone := h.unused a (by omega)
  rw [read, hnone] at hr
  cases hr

/-- Allocate a node at an address never used before. -/
def alloc (h : Heap α) (n : α) : Heap α × ℕ :=
  (⟨fun x => if x = h.fresh then some n else h.cells x, h.fresh + 1, fun a ha => by
      have hne : a ≠ h.fresh := by omega
      simpa [hne] using h.unused a (by omega)⟩, h.fresh)

/-- Overwrite the node at an allocated address. -/
def write (h : Heap α) (a : ℕ) (n : α) : Option (Heap α) :=
  if ha : (h.cells a).isSome then
    some ⟨fun x => if x = a then some n else h.cells x, h.fresh, fun x hx => by
      have hne : x ≠ a := by
        rintro rfl
        rw [h.unused x hx] at ha
        exact Bool.noConfusion ha
      simpa [hne] using h.unused x hx⟩
  else none

/-- Release an allocated address. -/
def free (h : Heap α) (a : ℕ) : Option (Heap α) :=
  if (h.cells a).isSome then
    some ⟨fun x => if x = a then none else h.cells x, h.fresh, fun x hx => by
      have := h.unused x hx
      by_cases hne : x = a <;> simp [hne, this]
      ⟩
  else none

@[simp] lemma alloc_snd (h : Heap α) (n : α) : (h.alloc n).2 = h.fresh := rfl

@[simp] lemma alloc_fresh (h : Heap α) (n : α) : (h.alloc n).1.fresh = h.fresh + 1 := rfl

lemma read_alloc (h : Heap α) (n : α) (x : ℕ) :
    (h.alloc n).1.read x = if x = h.fresh then some n else h.read x := rfl

lemma read_alloc_old {h : Heap α} {n : α} {x : ℕ} (hx : x < h.fresh) :
    (h.alloc n).1.read x = h.read x := by
  rw [read_alloc, if_neg (by omega)]

lemma write_spec {h : Heap α} {a : ℕ} {m : α} (hr : h.read a = some m) (n : α) :
    ∃ h', h.write a n = some h' ∧ h'.fresh = h.fresh ∧
      ∀ x, h'.read x = if x = a then some n else h.read x := by
  have hs : (h.cells a).isSome := by rw [read] at hr; simp [hr]
  exact ⟨_, dif_pos hs, rfl, fun _ => rfl⟩

lemma free_spec {h : Heap α} {a : ℕ} {m : α} (hr : h.read a = some m) :
    ∃ h', h.free a = some h' ∧ h'.fresh = h.fresh ∧
      ∀ x, h'.read x = if x = a then none else h.read x := by
  have hs : (h.cells a).isSome := by rw [read] at hr; simp [hr]
  exact ⟨_, if_pos hs, rfl, fun _ => rfl⟩

end Heap

/-! ## Chains -/

section Chain

variable (next : α → Ptr) (ok : Ptr → α → Prop)

/-- Following `next` from `p` one meets the nodes `l` and then `q`. -/
def Chain (h : Heap α) : Ptr → Ptr → List (ℕ × α) → Ptr → Ptr → Prop
  | pr, p, [], tl, q => p = q ∧ tl = pr
  | pr, p, (a, n) :: l, tl, q =>
      p = some a ∧ h.read a = some n ∧ ok pr n ∧ Chain h (some a) (next n) l tl q

variable {next ok} {h h' : Heap α} {pr p tl q : Ptr} {l l₁ l₂ : List (ℕ × α)}

lemma chain_append :
    Chain next ok h pr p (l₁ ++ l₂) tl q ↔
      ∃ t m, Chain next ok h pr p l₁ t m ∧ Chain next ok h t m l₂ tl q := by
  induction l₁ generalizing pr p with
  | nil =>
      constructor
      · intro hc
        exact ⟨pr, p, ⟨rfl, rfl⟩, hc⟩
      · rintro ⟨t, m, ⟨rfl, rfl⟩, hc⟩
        exact hc
  | cons x xs ih =>
      obtain ⟨a, n⟩ := x
      simp only [List.cons_append, Chain, ih]
      constructor
      · rintro ⟨hp, hr, hok, t, m, h₁, h₂⟩
        exact ⟨t, m, ⟨hp, hr, hok, h₁⟩, h₂⟩
      · rintro ⟨t, m, ⟨hp, hr, hok, h₁⟩, h₂⟩
        exact ⟨hp, hr, hok, t, m, h₁, h₂⟩

lemma Chain.read (hc : Chain next ok h pr p l tl q) {a : ℕ} {n : α} (hm : (a, n) ∈ l) :
    h.read a = some n := by
  induction l generalizing pr p with
  | nil => simp at hm
  | cons x xs ih =>
      obtain ⟨b, m⟩ := x
      obtain ⟨_, hr, _, hrest⟩ := hc
      rcases List.mem_cons.mp hm with heq | hm
      · rw [Prod.mk.injEq] at heq
        rw [heq.1, heq.2]
        exact hr
      · exact ih hrest hm

/-- A chain depends on the addresses it goes through and on nothing else. -/
lemma Chain.frame (hc : Chain next ok h pr p l tl q)
    (hf : ∀ a ∈ l.map Prod.fst, h'.read a = h.read a) : Chain next ok h' pr p l tl q := by
  induction l generalizing pr p with
  | nil => exact hc
  | cons x xs ih =>
      obtain ⟨a, n⟩ := x
      obtain ⟨hp, hr, hok, hrest⟩ := hc
      refine ⟨hp, ?_, hok, ih hrest fun b hb => hf b (by simp [hb])⟩
      rw [hf a (by simp), hr]

lemma Chain.unique {pr' tl' : Ptr} (h₁ : Chain next ok h pr p l₁ tl none)
    (h₂ : Chain next ok h pr' p l₂ tl' none) : l₁ = l₂ := by
  induction l₁ generalizing pr pr' p l₂ with
  | nil =>
      obtain ⟨rfl, _⟩ := h₁
      cases l₂ with
      | nil => rfl
      | cons y ys => exact absurd h₂.1 (by simp)
  | cons x xs ih =>
      obtain ⟨a, n⟩ := x
      obtain ⟨rfl, hr, _, hrest⟩ := h₁
      cases l₂ with
      | nil => exact absurd h₂.1 (by simp)
      | cons y ys =>
          obtain ⟨b, m⟩ := y
          obtain ⟨hp, hr', _, hrest'⟩ := h₂
          obtain rfl : a = b := by simpa using hp
          obtain rfl : n = m := by rw [hr] at hr'; simpa using hr'
          rw [ih hrest hrest']

/-- **A chain that ends in null is acyclic**: no address occurs twice. -/
theorem Chain.nodup (hc : Chain next ok h pr p l tl none) : (l.map Prod.fst).Nodup := by
  induction l generalizing pr p with
  | nil => simp
  | cons x xs ih =>
      obtain ⟨a, n⟩ := x
      obtain ⟨hp, hr, hok, hrest⟩ := hc
      rw [List.map_cons, List.nodup_cons]
      refine ⟨fun hmem => ?_, ih hrest⟩
      -- a second visit to `a` would be followed by the same nodes as the first
      obtain ⟨⟨b, m⟩, hbm, hba⟩ := List.mem_map.mp hmem
      obtain rfl : b = a := hba
      obtain ⟨l₁, l₂, rfl⟩ := List.append_of_mem hbm
      obtain ⟨t, u, _, h₂⟩ := chain_append.mp hrest
      have hwhole : Chain next ok h pr (some b) ((b, n) :: (l₁ ++ (b, m) :: l₂)) tl none :=
        ⟨rfl, hr, hok, hrest⟩
      have hagain : Chain next ok h t (some b) ((b, m) :: l₂) tl none := by
        obtain ⟨hu, h₂⟩ := h₂
        exact ⟨rfl, h₂⟩
      have hlen := congrArg List.length (hwhole.unique hagain)
      simp only [List.length_cons, List.length_append] at hlen
      omega

lemma Chain.lt_fresh (hc : Chain next ok h pr p l tl q) {a : ℕ} (ha : a ∈ l.map Prod.fst) :
    a < h.fresh := by
  obtain ⟨⟨b, n⟩, hb, rfl⟩ := List.mem_map.mp ha
  exact Heap.lt_fresh (hc.read hb)

/-- The heap's counter bounds the length of a chain, so it is fuel enough to walk one. -/
lemma Chain.length_le (hc : Chain next ok h pr p l tl none) : l.length ≤ h.fresh := by
  have hsub : (l.map Prod.fst).toFinset ⊆ Finset.range h.fresh := by
    intro a ha
    exact Finset.mem_range.mpr (hc.lt_fresh (List.mem_toFinset.mp ha))
  have hcard := Finset.card_le_card hsub
  rw [List.toFinset_card_of_nodup hc.nodup] at hcard
  simpa using hcard

lemma Chain.snoc {a : ℕ} {n : α} (hc : Chain next ok h pr p l tl (some a))
    (hr : h.read a = some n) (hok : ok tl n) :
    Chain next ok h pr p (l ++ [(a, n)]) (some a) (next n) :=
  chain_append.mpr ⟨tl, some a, hc, rfl, hr, hok, rfl, rfl⟩

lemma Chain.unsnoc {a : ℕ} {n : α} (hc : Chain next ok h pr p (l ++ [(a, n)]) tl q) :
    ∃ t, Chain next ok h pr p l t (some a) ∧ h.read a = some n ∧ ok t n ∧ tl = some a ∧
      next n = q := by
  obtain ⟨t, m, h₁, rfl, hr, hok, hq, ht⟩ := chain_append.mp hc
  exact ⟨t, h₁, hr, hok, ht, hq⟩

/-- Overwriting the last node, without harm to its back link. -/
lemma Chain.write_last {a : ℕ} {n n' : α} (hc : Chain next ok h pr p (l ++ [(a, n)]) tl q)
    (hok : ∀ t, ok t n → ok t n') (hread : ∀ x ∈ l.map Prod.fst, h'.read x = h.read x)
    (hnew : h'.read a = some n') : Chain next ok h' pr p (l ++ [(a, n')]) (some a) (next n') := by
  obtain ⟨t, hl, _, hokt, _, _⟩ := hc.unsnoc
  exact (hl.frame hread).snoc hnew (hok t hokt)

/-- Rewriting nodes in place, forward links kept and back links not harmed. -/
lemma Chain.replace {f : ℕ → α → α} (hc : Chain next ok h pr p l tl q)
    (hread : ∀ x ∈ l, h'.read x.1 = some (f x.1 x.2)) (hnext : ∀ x ∈ l, next (f x.1 x.2) = next x.2)
    (hok : ∀ x ∈ l, ∀ t, ok t x.2 → ok t (f x.1 x.2)) :
    Chain next ok h' pr p (l.map fun x => (x.1, f x.1 x.2)) tl q := by
  induction l generalizing pr p with
  | nil => exact hc
  | cons x xs ih =>
      obtain ⟨a, n⟩ := x
      obtain ⟨hp, _, hokn, hrest⟩ := hc
      refine ⟨hp, hread (a, n) (by simp), hok (a, n) (by simp) pr hokn, ?_⟩
      rw [hnext (a, n) (by simp)]
      exact ih hrest (fun x hx => hread x (List.mem_cons_of_mem _ hx))
        (fun x hx => hnext x (List.mem_cons_of_mem _ hx))
        (fun x hx => hok x (List.mem_cons_of_mem _ hx))

lemma Chain.reattach {pr' : Ptr} (hc : Chain next ok h pr p l tl q) (hne : l ≠ [])
    (hok : ∀ n, ok pr n → ok pr' n) : Chain next ok h pr' p l tl q := by
  cases l with
  | nil => exact absurd rfl hne
  | cons x xs =>
      obtain ⟨a, n⟩ := x
      obtain ⟨hp, hr, hokn, hrest⟩ := hc
      exact ⟨hp, hr, hok n hokn, hrest⟩

lemma Chain.mem_of_read (hc : Chain next ok h pr p l tl q) {a : ℕ} {n : α}
    (ha : a ∈ l.map Prod.fst) (hr : h.read a = some n) : (a, n) ∈ l := by
  obtain ⟨⟨b, m⟩, hb, rfl⟩ := List.mem_map.mp ha
  have hm := hc.read hb
  rw [hr, Option.some.injEq] at hm
  rwa [hm]

end Chain

end PtrHeap
