import GroundDB.HashMap.LowerBound

/-!
# The version list of one page

`VersionListInv eles head chain` is what every operation on a version list relies on and keeps:
the element nodes reachable from the head are `chain`, linked both ways and ending in `tailEle`;
the LSNs, head array first, are strictly increasing; arrays are filled in order; and the three
kinds of cached maximum are right.

An operation on one list may touch the element nodes of that list, and may allocate, but nothing
else: this is `ListFrame`, and it is all that the lists of other pages need to survive.
-/

namespace GroundDB

open PtrHeap

/-- The well-formedness of a version list. -/
structure VersionListInv (eles : Heap HashNodeEle) (head : HashNodeHead)
    (chain : EleNodes) : Prop where
  /-- `nextEle`, `prevEle` and `tailEle` describe one list, which ends in `tailEle`. -/
  links : EleChain eles head.nextEle chain head.tailEle
  /-- The LSNs, read head first and then along `nextEle`, are strictly increasing. -/
  increasing : (listLsns head chain).Pairwise (· < ·)
  head_nonempty : head.lsnEntry.toList ≠ []
  /-- The head array is full before any element node exists. -/
  head_full : chain ≠ [] → head.lsnEntry.toList.length = hashHeadNum
  /-- Every element node except the tail is full. -/
  ele_full : ∀ x ∈ chain.dropLast, x.2.lsnEntry.toList.length = hashElemNum
  /-- A node's `maxLsn` is its last LSN. -/
  ele_max : ∀ x ∈ chain, (entryLsns x.2.lsnEntry.toList).getLast? = some x.2.maxLsn
  /-- The head's `maxLsn` is the last LSN of the whole list. -/
  head_max : (listLsns head chain).getLast? = some head.maxLsn
  replayed_le : head.replayedLsn ≤ head.maxLsn

/-- The nodes of a version list hang together, and none of them is empty. -/
structure ListLinks (eles : Heap HashNodeEle) (head : HashNodeHead)
    (chain : EleNodes) : Prop where
  links : EleChain eles head.nextEle chain head.tailEle
  head_nonempty : head.lsnEntry.toList ≠ []
  ele_nonempty : ∀ x ∈ chain, x.2.lsnEntry.toList ≠ []

/-- From `eles` to `eles'` only the nodes of `chain` changed or were freed, and the nodes of
`chain'` are among them or new. -/
structure ListFrame (eles eles' : Heap HashNodeEle) (chain chain' : EleNodes) :
    Prop where
  fresh_le : eles.fresh ≤ eles'.fresh
  same : ∀ a, a ∉ chain.map Prod.fst → a < eles.fresh → eles'.read a = eles.read a
  addrs : ∀ a ∈ chain'.map Prod.fst, a ∈ chain.map Prod.fst ∨ eles.fresh ≤ a

/-- The two heads stand at the same place of the map: they agree on the key and on everything
that links heads to each other. -/
structure SamePlace (head head' : HashNodeHead) : Prop where
  key : head'.key = head.key
  hashValue : head'.hashValue = head.hashValue
  bucket : head'.bucket = head.bucket
  nextHead : head'.nextHead = head.nextHead
  prevHead : head'.prevHead = head.prevHead

lemma SamePlace.refl (head : HashNodeHead) : SamePlace head head := ⟨rfl, rfl, rfl, rfl, rfl⟩

variable {eles eles' eles'' : Heap HashNodeEle} {head : HashNodeHead}
  {chain chain' chain'' : EleNodes}

lemma ListFrame.refl : ListFrame eles eles chain chain :=
  ⟨le_rfl, fun _ _ _ => rfl, fun _ ha => Or.inl ha⟩

lemma ListFrame.trans (h : ListFrame eles eles' chain chain')
    (h' : ListFrame eles' eles'' chain' chain'') : ListFrame eles eles'' chain chain'' where
  fresh_le := h.fresh_le.trans h'.fresh_le
  same a hna hlt := by
    have hna' : a ∉ chain'.map Prod.fst := by
      intro hmem
      rcases h.addrs a hmem with hin | hge
      · exact hna hin
      · omega
    rw [h'.same a hna' (lt_of_lt_of_le hlt h.fresh_le), h.same a hna hlt]
  addrs a ha := by
    rcases h'.addrs a ha with hin | hge
    · exact h.addrs a hin
    · exact Or.inr (h.fresh_le.trans hge)

namespace VersionListInv

variable (hinv : VersionListInv eles head chain)
include hinv

lemma head_sorted : (entryLsns head.lsnEntry.toList).Pairwise (· < ·) :=
  (List.pairwise_append.mp hinv.increasing).1

lemma eles_sorted : (eleLsns chain).Pairwise (· < ·) :=
  (List.pairwise_append.mp hinv.increasing).2.1

lemma head_lt_ele {x y : ℕ} (hx : x ∈ entryLsns head.lsnEntry.toList) (hy : y ∈ eleLsns chain) :
    x < y :=
  (List.pairwise_append.mp hinv.increasing).2.2 x hx y hy

/-- The invariant reads the nodes of the list's own chain only. -/
lemma frame (hf : ∀ a ∈ chain.map Prod.fst, eles'.read a = eles.read a) :
    VersionListInv eles' head chain :=
  { hinv with links := Chain.frame hinv.links hf }

lemma ele_nonempty {x : ℕ × HashNodeEle} (hx : x ∈ chain) : x.2.lsnEntry.toList ≠ [] := by
  intro hnil
  have := hinv.ele_max x hx
  rw [hnil] at this
  cases this

lemma listLinks : ListLinks eles head chain :=
  ⟨hinv.links, hinv.head_nonempty, fun _ hx => hinv.ele_nonempty hx⟩

lemma le_maxLsn {x : ℕ} (hx : x ∈ listLsns head chain) : x ≤ head.maxLsn :=
  le_of_getLast? hinv.increasing hinv.head_max hx

end VersionListInv

section Tail

variable {init : EleNodes} {a : ℕ} {n : HashNodeEle}

lemma VersionListInv.tail_max (hinv : VersionListInv eles head (init ++ [(a, n)])) :
    n.maxLsn = head.maxLsn := by
  have htail := hinv.ele_max (a, n) (by simp)
  have hhead := hinv.head_max
  obtain ⟨l, hl⟩ := List.getLast?_eq_some_iff.mp htail
  simp only [listLsns, eleLsns_append, eleLsns_cons, eleLsns_nil, List.append_nil, hl,
    ← List.append_assoc, List.getLast?_concat, Option.some.injEq] at hhead
  exact hhead

lemma ListLinks.tail_eq (h : ListLinks eles head (init ++ [(a, n)])) :
    head.tailEle = some a ∧ eles.read a = some n ∧ n.nextEle = none ∧ head.nextEle ≠ none := by
  obtain ⟨_, _, hr, _, ht, hn⟩ := Chain.unsnoc h.links
  refine ⟨ht, hr, hn, fun hnone => ?_⟩
  have hl := h.links
  cases init with
  | nil => exact absurd (hl.1.symm.trans hnone) (by simp)
  | cons x xs =>
      obtain ⟨b, k⟩ := x
      exact absurd (hl.1.symm.trans hnone) (by simp)

lemma VersionListInv.tail_eq (hinv : VersionListInv eles head (init ++ [(a, n)])) :
    head.tailEle = some a ∧ eles.read a = some n ∧ n.nextEle = none ∧ head.nextEle ≠ none :=
  hinv.listLinks.tail_eq

end Tail

/-- The LSNs still to be replayed. -/
def pendingLsns (head : HashNodeHead) (chain : EleNodes) : List ℕ :=
  (listLsns head chain).filter fun x => head.replayedLsn < x

end GroundDB
