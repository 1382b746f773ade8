import GroundDB.PageStore.ReadBuffer

/-!
# Which versions are stored

The joint invariant of the version lists, `replayedLsn` and the key-value store.  For every page
the storage node has parsed records of:

* the list holds all parsed LSNs above `replayedLsn`, and its first entry is the first LSN parsed;
* the only version stored is the page as of `replayedLsn`, and none is stored while nothing was
  replayed.

A replay, by a request or by the vacuumer, moves that one version forward (`ListOk.advance`).
-/

namespace GroundDB

open PtrHeap History

/-! ## One page -/

/-- The list of a page, the versions stored for it and the LSNs parsed for it fit together. -/
structure ListOk {Page : Type} (stored : ℕ → Option Page) (parsed : List ℕ) (base : Page)
    (redo : ℕ → Page → Page) (head : HashNodeHead) (chain : EleNodes) : Prop where
  sorted : parsed.Pairwise (· < ·)
  positive : ∀ x ∈ parsed, 1 ≤ x
  /-- Nothing that is still to be replayed is missing from the list. -/
  pending : pendingLsns head chain = parsed.filter (head.replayedLsn < ·)
  first : (entryLsns head.lsnEntry.toList).head? = parsed.head?
  last : parsed.getLast? = some head.maxLsn
  /-- The only version stored is the one at `replayedLsn`. -/
  versions : ∀ v, stored v =
    if v = head.replayedLsn ∧ 0 < v then some (asOf redo base parsed v) else none

/-- The same for a page that may have no list yet. -/
def PageOk {Page : Type} (stored : ℕ → Option Page) (parsed : List ℕ) (base : Page)
    (redo : ℕ → Page → Page) : Option (HashNodeHead × EleNodes) → Prop
  | none => parsed = [] ∧ ∀ v, stored v = none
  | some (head, chain) => ListOk stored parsed base redo head chain

section ListOk

variable {Page : Type} {stored : ℕ → Option Page} {parsed : List ℕ} {base : Page}
  {redo : ℕ → Page → Page} {head : HashNodeHead} {chain : EleNodes}

lemma ListOk.le_maxLsn (h : ListOk stored parsed base redo head chain) {x : ℕ}
    (hx : x ∈ parsed) : x ≤ head.maxLsn :=
  le_of_getLast? h.sorted h.last hx

lemma ListOk.exists_first (h : ListOk stored parsed base redo head chain) :
    ∃ first, (entryLsns head.lsnEntry.toList).head? = some first ∧ first ∈ parsed ∧
      ∀ x ∈ parsed, first ≤ x := by
  rw [h.first]
  have hs := h.sorted
  cases parsed with
  | nil => cases h.last
  | cons p ps =>
      refine ⟨p, rfl, List.mem_cons_self, fun x hx => ?_⟩
      rcases List.mem_cons.mp hx with rfl | hx
      · exact le_rfl
      · exact ((List.pairwise_cons.mp hs).1 x hx).le

lemma ListOk.unstored (h : ListOk stored parsed base redo head chain)
    (hzero : head.replayedLsn = 0) (v : ℕ) : stored v = none := by
  rw [h.versions, if_neg fun hc => absurd hc.2 (by omega)]

/-- The page as of `replayedLsn` can always be had, as long as the copy the replay processes hold is
the base page while nothing is stored. -/
lemma ListOk.replayBase_eq {copy : BufferTag → Page} {kv : KvStore Page} {tag : BufferTag}
    (h : ListOk (kv tag) parsed base redo head chain)
    (hcopy : (∀ v, kv tag v = none) → copy tag = base) :
    replayBase copy kv tag head.replayedLsn = some (asOf redo base parsed head.replayedLsn) := by
  unfold replayBase
  split_ifs with hpos
  · rw [h.versions, if_pos ⟨rfl, hpos⟩]
  · have hzero : head.replayedLsn = 0 := by omega
    rw [hcopy (h.unstored hzero), hzero, asOf_eq_base fun x hx => h.positive x hx]

lemma ListOk.between_eq (h : ListOk stored parsed base redo head chain) (targetLsn : ℕ) :
    between head.replayedLsn targetLsn (listLsns head chain) =
      between head.replayedLsn targetLsn parsed := by
  have hp : (listLsns head chain).filter (head.replayedLsn < ·) =
      parsed.filter (head.replayedLsn < ·) := h.pending
  rw [← between_filter, hp, between_filter]

lemma Inserted.first_eq {eles eles' : Heap HashNodeEle} {head' : HashNodeHead}
    {chain' : EleNodes} {new : List ℕ} (hinv : VersionListInv eles head chain)
    (hins : Inserted eles head chain new eles' head' chain') :
    (entryLsns head'.lsnEntry.toList).head? = (entryLsns head.lsnEntry.toList).head? := by
  obtain ⟨t, ht⟩ := hins.head_prefix
  obtain ⟨e, es, hes⟩ := List.exists_cons_of_ne_nil hinv.head_nonempty
  rw [← ht, hes]
  rfl

/-- A record of the page is read again: no LSN is added. -/
lemma ListOk.reparse {eles eles' : Heap HashNodeEle} {head' : HashNodeHead}
    {chain' : EleNodes} (hinv : VersionListInv eles head chain)
    (h : ListOk stored parsed base redo head chain)
    (hins : Inserted eles head chain [] eles' head' chain') :
    ListOk stored parsed base redo head' chain' := by
  have hlsns : listLsns head' chain' = listLsns head chain := by simpa using hins.lsns
  have hmax : head'.maxLsn = head.maxLsn := by
    have := hins.inv.head_max
    rw [hlsns, hinv.head_max, Option.some.injEq] at this
    exact this.symm
  refine ⟨h.sorted, h.positive, ?_, ?_, by rw [hmax]; exact h.last, fun v => ?_⟩
  · rw [pendingLsns, hlsns, hins.replayed]
    exact h.pending
  · rw [hins.first_eq hinv, h.first]
  · rw [h.versions v, hins.replayed]

/-- A record of the page is parsed for the first time. -/
lemma ListOk.parse {eles eles' : Heap HashNodeEle} {head' : HashNodeHead}
    {chain' : EleNodes} {lsn : ℕ} (hinv : VersionListInv eles head chain)
    (h : ListOk stored parsed base redo head chain) (hlsn : 1 ≤ lsn) (hgt : head.maxLsn < lsn)
    (hins : Inserted eles head chain [lsn] eles' head' chain') :
    ListOk stored (parsed ++ [lsn]) base redo head' chain' := by
  obtain ⟨hmax, hpend⟩ := hins.append hinv hgt
  have hrep : head.replayedLsn < lsn := lt_of_le_of_lt hinv.replayed_le hgt
  refine ⟨?_, ?_, ?_, ?_, by rw [List.getLast?_concat, hmax], fun v => ?_⟩
  · refine List.pairwise_append.mpr ⟨h.sorted, List.pairwise_singleton _ _, fun x hx y hy => ?_⟩
    rw [List.mem_singleton.mp hy]
    exact lt_of_le_of_lt (h.le_maxLsn hx) hgt
  · intro x hx
    rcases List.mem_append.mp hx with hx | hx
    · exact h.positive x hx
    · rwa [List.mem_singleton.mp hx]
  · rw [hpend, h.pending, hins.replayed, List.filter_append]
    simp [hrep]
  · rw [hins.first_eq hinv, h.first]
    cases parsed with
    | nil => cases h.last
    | cons p ps => rfl
  · rw [h.versions v, hins.replayed]
    split_ifs with hv
    · rw [asOf_append (by simpa [hv.1] using hrep)]
    · rfl

/-- **The stored version moves forward**: after replaying up to `lastLsn`, its page is stored and
the version it was made from is gone. -/
lemma ListOk.advance {head' : HashNodeHead} {chain' : EleNodes}
    {stored' : ℕ → Option Page} {page : Page} (h : ListOk stored parsed base redo head chain)
    (hlt : head.replayedLsn < head'.replayedLsn)
    (hpend : pendingLsns head' chain' = parsed.filter (head'.replayedLsn < ·))
    (hent : head'.lsnEntry = head.lsnEntry) (hmax : head'.maxLsn = head.maxLsn)
    (hpage : page = asOf redo base parsed head'.replayedLsn)
    (hstored : ∀ v, stored' v = if v = head'.replayedLsn then some page
      else if v = head.replayedLsn then none else stored v) :
    ListOk stored' parsed base redo head' chain' := by
  refine ⟨h.sorted, h.positive, hpend, by rw [hent]; exact h.first, by rw [hmax]; exact h.last,
    fun v => ?_⟩
  rw [hstored v]
  by_cases hv : v = head'.replayedLsn
  · have hpos : 0 < head'.replayedLsn := by omega
    rw [if_pos hv, if_pos ⟨hv, by omega⟩, hpage, hv]
  · simp only [hv, false_and, if_false]
    split_ifs with hold
    · rfl
    · rw [h.versions v, if_neg fun hc => hold hc.1]

lemma ListOk.replaceVersion_eq {kv : KvStore Page} {tag : BufferTag}
    (h : ListOk (kv tag) parsed base redo head chain) {lastLsn : ℕ} {page : Page}
    (hlt : head.replayedLsn < lastLsn) (v : ℕ) :
    replaceVersion kv tag head.replayedLsn lastLsn page tag v =
      if v = lastLsn then some page else if v = head.replayedLsn then none else kv tag v := by
  unfold replaceVersion
  by_cases hpos : head.replayedLsn > 0
  · by_cases hv : v = head.replayedLsn
    · simp [hpos, hv, hlt.ne]
    · simp [hpos, hv]
  · have hzero : head.replayedLsn = 0 := by omega
    by_cases hv : v = 0
    · have hnone := h.versions v
      simp [hzero, hv] at hnone ⊢
      simp [hnone]
    · simp [hzero, hv]

lemma replaceVersion_other {kv : KvStore Page} {tag t : BufferTag} (ht : t ≠ tag)
    (replayedLsn lastLsn : ℕ) (page : Page) :
    replaceVersion kv tag replayedLsn lastLsn page t = kv t := by
  funext v
  unfold replaceVersion
  split_ifs <;> simp [ht]

lemma ListOk.replayed {kv : KvStore Page} {tag : BufferTag}
    (h : ListOk (kv tag) parsed base redo head chain) (head' : HashNodeHead)
    {chain' : EleNodes} (hlt : head.replayedLsn < head'.replayedLsn)
    (hpend : pendingLsns head' chain' = parsed.filter (head'.replayedLsn < ·))
    (hent : head'.lsnEntry = head.lsnEntry) (hmax : head'.maxLsn = head.maxLsn) :
    ListOk (replaceVersion kv tag head.replayedLsn head'.replayedLsn
      (asOf redo base parsed head'.replayedLsn) tag) parsed base redo head' chain' :=
  h.advance hlt hpend hent hmax rfl (h.replaceVersion_eq hlt)

end ListOk

end GroundDB
