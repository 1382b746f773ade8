import GroundDB.HashMap.VersionList
import GroundDB.Lib.History

/-!
# The replay list of a page

The part of `HashMapGetBlockReplayList` that works on the head it has found.  Given a target LSN
it reports a base version and the LSNs to apply to it.

* When the target is above `replayedLsn`, the base is `replayedLsn` and the LSNs are those of the
  list in `(replayedLsn, target]` (`getBlockReplayList_newer`).
* When the target is below, nothing is to be replayed and the base is the last LSN of the list
  that is at most the target; without one the function returns false
  (`getBlockReplayList_older`).

The head lock is taken at the start; it is still held on return exactly when there is something
to replay.
-/

namespace GroundDB

open PtrHeap History

/-! ## The function -/

/-- The growing array `*toReplayList`.  There is always room for one more LSN, so the store in the
collection loops stays inside the array. -/
structure ReplayBuf where
  mallocSize : ℕ
  items : List ℕ
  fits : items.length < mallocSize

namespace ReplayBuf

/-- `malloc` of 16 cells. -/
def init : ReplayBuf := ⟨16, [], by decide⟩

/-- Store one LSN and double the array when it has become full. -/
def push (b : ReplayBuf) (lsn : ℕ) : ReplayBuf :=
  if h : b.items.length + 1 = b.mallocSize then
    ⟨b.mallocSize * 2, b.items ++ [lsn], by
      simp only [List.length_append, List.length_cons, List.length_nil]
      omega⟩
  else
    ⟨b.mallocSize, b.items ++ [lsn], by
      have := b.fits
      simp only [List.length_append, List.length_cons, List.length_nil]
      omega⟩

@[simp] lemma init_items : init.items = [] := rfl

@[simp] lemma push_items (b : ReplayBuf) (lsn : ℕ) : (b.push lsn).items = b.items ++ [lsn] := by
  unfold push
  split_ifs <;> rfl

end ReplayBuf

/-- What the head lock is asked to do. -/
inductive LockOp
  | wrlock
  | unlock
deriving DecidableEq, Repr

/-- Whether the lock is held after these calls. -/
def LockOp.held (ops : List LockOp) : Bool := ops.getLast? == some .wrlock

/-- The output parameters of `HashMapGetBlockReplayList`. -/
structure ReplayList where
  replayedLsn : ℕ
  toReplayList : List ℕ
  listLen : ℕ
deriving DecidableEq, Repr

/-- The outcome of a lookup: `result` is `none` when the function returns false, and `lockOps` are
the calls made on the head lock. -/
structure ReplayAnswer where
  result : Option ReplayList
  lockOps : List LockOp
deriving DecidableEq, Repr

namespace ReplayAnswer

/-- The exit that reports nothing to replay on top of `base`, and releases the lock. -/
def nothingToReplay (base : ℕ) : ReplayAnswer :=
  ⟨some ⟨base, [], 0⟩, [.wrlock, .unlock]⟩

/-- The exit that returns false, and releases the lock. -/
def notFound : ReplayAnswer := ⟨none, [.wrlock, .unlock]⟩

/-- The last exit: the lock is released only when no LSN was collected. -/
def collected (base : ℕ) (lsns : List ℕ) : ReplayAnswer :=
  ⟨some ⟨base, lsns, lsns.length⟩,
    if lsns.length = 0 then [.wrlock, .unlock] else [.wrlock]⟩

end ReplayAnswer

/-- The search for an older version along the element nodes. -/
def olderLsn (eles : Heap HashNodeEle) (targetLsn : ℕ) : ℕ → Ptr → ℕ → Option ℕ
  | _, none, currentLsn => some currentLsn
  | 0, some _, _ => none
  | fuel + 1, some eleIter, currentLsn => do
      let ele ← eles.read eleIter
      if ele.maxLsn < targetLsn then do
        let last ← ele.lsnEntry.toList.getLast?
        olderLsn eles targetLsn fuel ele.nextEle last.lsn
      else do
        let resultIndex ← lsnListFindLowerBound targetLsn ele.lsnEntry.toList
        if 0 ≤ resultIndex then do
          let e ← ele.lsnEntry.toList[resultIndex.toNat]?
          some e.lsn
        else some currentLsn

/-- The inner collection loop: entries are taken while they are at most the target. -/
def collectUpTo (targetLsn : ℕ) : List LsnEntry → ReplayBuf → ReplayBuf
  | [], buf => buf
  | e :: es, buf =>
      if e.lsn ≤ targetLsn then collectUpTo targetLsn es (buf.push e.lsn) else buf

/-- The collection loop along the element nodes. -/
def collectEles (eles : Heap HashNodeEle) (replayedLsn targetLsn : ℕ) :
    ℕ → Ptr → Bool → ReplayBuf → Option ReplayBuf
  | _, none, _, buf => some buf
  | 0, some _, _, _ => none
  | fuel + 1, some eleIter, foundReplayLsnPosition, buf => do
      let ele ← eles.read eleIter
      let first ← ele.lsnEntry.toList[0]?
      if first.lsn > targetLsn then some buf
      else if ele.maxLsn < replayedLsn then
        collectEles eles replayedLsn targetLsn fuel ele.nextEle foundReplayLsnPosition buf
      else do
        let startIndex ←
          if foundReplayLsnPosition then some 0
          else (lsnListFindLowerBound replayedLsn ele.lsnEntry.toList).map (· + 1)
        let buf := collectUpTo targetLsn (ele.lsnEntry.toList.drop startIndex.toNat) buf
        collectEles eles replayedLsn targetLsn fuel ele.nextEle true buf

/-- The list was created with an empty first slot, was never replayed, and starts above the
target. -/
def startsAbove (head : HashNodeHead) (targetLsn : ℕ) : Bool :=
  match head.lsnEntry.toList with
  | e₀ :: e₁ :: _ => head.replayedLsn == 0 && e₀.lsn == 0 && e₁.lsn > targetLsn
  | _ => false

/-- `HashMapGetBlockReplayList` on the head it has found. -/
def getBlockReplayList (head : HashNodeHead) (eles : Heap HashNodeEle) (targetLsn : ℕ) :
    Option ReplayAnswer :=
  if head.replayedLsn = targetLsn then some (.nothingToReplay head.replayedLsn)
  else if head.replayedLsn > targetLsn then do
    let last ← head.lsnEntry.toList.getLast?
    if last.lsn ≥ targetLsn then do
      let resultIndex ← lsnListFindLowerBound targetLsn head.lsnEntry.toList
      if resultIndex = -1 then some .notFound
      else do
        let e ← head.lsnEntry.toList[resultIndex.toNat]?
        some (.nothingToReplay e.lsn)
    else do
      let currentLsn ← olderLsn eles targetLsn eles.fresh head.nextEle last.lsn
      some (.nothingToReplay currentLsn)
  else if head.replayedLsn = head.maxLsn then some (.nothingToReplay head.maxLsn)
  else if startsAbove head targetLsn then some (.nothingToReplay 0)
  else do
    let last ← head.lsnEntry.toList.getLast?
    let (foundReplayLsnPosition, buf) ←
      if head.replayedLsn ≤ last.lsn then do
        let replayedLsnIndex ← lsnListFindLowerBound head.replayedLsn head.lsnEntry.toList
        some (true, collectUpTo targetLsn
          (head.lsnEntry.toList.drop (replayedLsnIndex + 1).toNat) ReplayBuf.init)
      else some (false, ReplayBuf.init)
    let buf ← collectEles eles head.replayedLsn targetLsn eles.fresh head.nextEle
      foundReplayLsnPosition buf
    some (.collected head.replayedLsn buf.items)

/-! ## What the two loops collect -/

section Loops

variable {eles : Heap HashNodeEle} {ok : Ptr → HashNodeEle → Prop} {pr p tl : Ptr}
  {chain : EleNodes} {fuel : ℕ} (replayedLsn targetLsn : ℕ)

lemma entryLsns_filter (q : ℕ → Bool) (es : List LsnEntry) :
    entryLsns (es.filter fun e => q e.lsn) = (entryLsns es).filter q :=
  (List.filter_map).symm

lemma getElem_lowerBound {es : List LsnEntry} {t : ℕ} (hs : (entryLsns es).Pairwise (· < ·))
    (hpos : 0 < countLe t es) :
    ∃ e, es[((countLe t es : ℤ) - 1).toNat]? = some e ∧
      ((entryLsns es).filter (· ≤ t)).getLast? = some e.lsn := by
  have hsplit := filter_append_filter_of_sorted LsnEntry.lsn hs t
  rcases List.eq_nil_or_concat (es.filter fun e => e.lsn ≤ t) with hnil | ⟨l, e, hl⟩
  · rw [countLe, hnil] at hpos
    exact absurd hpos (lt_irrefl 0)
  rw [List.concat_eq_append] at hl
  have hidx : ((countLe t es : ℤ) - 1).toNat = l.length := by
    rw [countLe, hl, List.length_append]
    simp
  refine ⟨e, ?_, ?_⟩
  · rw [hidx, ← hsplit, hl]
    simp
  · rw [← entryLsns_filter (fun x => decide (x ≤ t)) es, hl]
    simp [entryLsns]

lemma filter_eq_nil_of_countLe {es : List LsnEntry} {t : ℕ} (hzero : countLe t es = 0) :
    (entryLsns es).filter (· ≤ t) = [] := by
  rw [countLe, List.length_eq_zero_iff] at hzero
  rw [← entryLsns_filter (fun x => decide (x ≤ t)) es, hzero]
  rfl

lemma collectUpTo_items {es : List LsnEntry} (hs : (entryLsns es).Pairwise (· < ·))
    (buf : ReplayBuf) :
    (collectUpTo targetLsn es buf).items =
      buf.items ++ (entryLsns es).filter (· ≤ targetLsn) := by
  induction es generalizing buf with
  | nil => simp [collectUpTo, entryLsns]
  | cons e es ih =>
      rw [collectUpTo]
      have htail : (entryLsns es).Pairwise (· < ·) := (List.pairwise_cons.mp hs).2
      split_ifs with hle
      · rw [ih htail, ReplayBuf.push_items]
        simp [entryLsns, hle]
      · -- the array is sorted, so the first entry above the target ends the loop for good
        have hnone : (entryLsns (e :: es)).filter (· ≤ targetLsn) = [] := by
          refine filter_le_eq_nil fun x hx => ?_
          rcases List.mem_cons.mp hx with rfl | hx
          · exact not_le.mp hle
          · exact (not_le.mp hle).trans ((List.pairwise_cons.mp hs).1 x hx)
        rw [hnone, List.append_nil]

/-- Collecting from one array, from the position after the replayed LSN. -/
lemma collect_after_replayed {es : List LsnEntry} (hs : (entryLsns es).Pairwise (· < ·))
    (buf : ReplayBuf) :
    (collectUpTo targetLsn (es.drop ((countLe replayedLsn es : ℤ) - 1 + 1).toNat) buf).items =
      buf.items ++ between replayedLsn targetLsn (entryLsns es) := by
  rw [drop_after_lowerBound hs]
  have hsub : (entryLsns (es.filter fun e => replayedLsn < e.lsn)).Pairwise (· < ·) := by
    rw [entryLsns_filter (fun x => decide (replayedLsn < x))]
    exact hs.filter _
  rw [collectUpTo_items targetLsn hsub, entryLsns_filter (fun x => decide (replayedLsn < x)),
    List.filter_filter]
  refine congrArg (buf.items ++ ·) (List.filter_congr fun x _ => ?_)
  simp [and_comm]

/-- **The walk along the element nodes** collects exactly the LSNs in range.  The flag tells that
the position of `replayedLsn` was passed, so that all that follows is above it. -/
lemma collectEles_eq (hc : Chain HashNodeEle.nextEle ok eles pr p chain tl none)
    (hs : (eleLsns chain).Pairwise (· < ·))
    (hmax : ∀ x ∈ chain, (entryLsns x.2.lsnEntry.toList).getLast? = some x.2.maxLsn)
    (hfuel : chain.length ≤ fuel) (found : Bool)
    (hfound : found = true → ∀ x ∈ eleLsns chain, replayedLsn < x) (buf : ReplayBuf) :
    ∃ buf', collectEles eles replayedLsn targetLsn fuel p found buf = some buf' ∧
      buf'.items = buf.items ++ between replayedLsn targetLsn (eleLsns chain) := by
  induction chain generalizing pr p fuel found buf with
  | nil =>
      obtain ⟨rfl, _⟩ := hc
      exact ⟨buf, by cases fuel <;> rfl, by simp [between]⟩
  | cons x xs ih =>
      obtain ⟨a, n⟩ := x
      obtain ⟨rfl, hr, _, hrest⟩ := hc
      obtain ⟨fuel, rfl⟩ : ∃ k, fuel = k + 1 := ⟨fuel - 1, by simp at hfuel; omega⟩
      rw [eleLsns_cons] at hs hfound ⊢
      obtain ⟨hsn, hsxs, hcross⟩ := List.pairwise_append.mp hs
      have hnmax := hmax (a, n) (by simp)
      have hxs : ∀ x ∈ xs, (entryLsns x.2.lsnEntry.toList).getLast? = some x.2.maxLsn :=
        fun x hx => hmax x (List.mem_cons_of_mem _ hx)
      have hlen : xs.length ≤ fuel := by simpa using hfuel
      have habove : ∀ y ∈ eleLsns xs, n.maxLsn < y :=
        fun y hy => hcross _ (List.mem_of_getLast? hnmax) y hy
      obtain ⟨e, es, hes⟩ : ∃ e es, n.lsnEntry.toList = e :: es := by
        cases hl : n.lsnEntry.toList with
        | nil => rw [hl] at hnmax; cases hnmax
        | cons e es => exact ⟨e, es, rfl⟩
      have hfirst : n.lsnEntry.toList[0]? = some e := by rw [hes]; rfl
      have hge : ∀ y ∈ entryLsns n.lsnEntry.toList ++ eleLsns xs, e.lsn ≤ y := by
        intro y hy
        rw [hes] at hy hs
        simp only [entryLsns, List.map_cons, List.cons_append] at hy hs
        rcases List.mem_cons.mp hy with rfl | hy
        · exact le_rfl
        · exact ((List.pairwise_cons.mp hs).1 y hy).le
      simp only [collectEles, hr, hfirst, Option.bind_eq_bind, Option.bind_some]
      split_ifs with hbreak hskip hflag
      · refine ⟨buf, rfl, ?_⟩
        rw [between_eq_nil fun y hy => Or.inr (lt_of_lt_of_le hbreak (hge y hy)), List.append_nil]
      · -- the whole node lies at or below the replayed LSN
        have hlow : between replayedLsn targetLsn (entryLsns n.lsnEntry.toList) = [] :=
          between_eq_nil fun y hy =>
            Or.inl ((le_of_getLast? hsn hnmax hy).trans hskip.le)
        obtain ⟨buf', hrun, hitems⟩ := ih hrest hsxs hxs hlen found
          (fun hf y hy => hfound hf y (List.mem_append_right _ hy)) buf
        exact ⟨buf', hrun, by rw [hitems, between_append, hlow, List.nil_append]⟩
      · have hcol := collectUpTo_items targetLsn hsn buf
        obtain ⟨buf', hrun, hitems⟩ := ih hrest hsxs hxs hlen true
          (fun _ y hy => lt_of_le_of_lt (not_lt.mp hskip) (habove y hy))
          (collectUpTo targetLsn n.lsnEntry.toList buf)
        refine ⟨buf', by simpa using hrun, ?_⟩
        rw [hitems, hcol, between_append, List.append_assoc,
          between_of_lt fun y hy => hfound hflag y (List.mem_append_left _ hy)]
      · have hcol := collect_after_replayed replayedLsn targetLsn hsn buf
        obtain ⟨buf', hrun, hitems⟩ := ih hrest hsxs hxs hlen true
          (fun _ y hy => lt_of_le_of_lt (not_lt.mp hskip) (habove y hy))
          (collectUpTo targetLsn (n.lsnEntry.toList.drop
            ((countLe replayedLsn n.lsnEntry.toList : ℤ) - 1 + 1).toNat) buf)
        refine ⟨buf', ?_, by rw [hitems, hcol, between_append, List.append_assoc]⟩
        simpa [lsnListFindLowerBound_eq hsn] using hrun

/-- **The search for an older version** finds the last LSN at most the target. -/
lemma olderLsn_eq (hc : Chain HashNodeEle.nextEle ok eles pr p chain tl none) {currentLsn : ℕ}
    (hcur : currentLsn ≤ targetLsn) (hs : (eleLsns chain).Pairwise (· < ·))
    (hmax : ∀ x ∈ chain, (entryLsns x.2.lsnEntry.toList).getLast? = some x.2.maxLsn)
    (hfuel : chain.length ≤ fuel) :
    olderLsn eles targetLsn fuel p currentLsn =
      ((currentLsn :: eleLsns chain).filter (· ≤ targetLsn)).getLast? := by
  induction chain generalizing pr p fuel currentLsn with
  | nil =>
      obtain ⟨rfl, _⟩ := hc
      cases fuel <;> simp [olderLsn, hcur]
  | cons x xs ih =>
      obtain ⟨a, n⟩ := x
      obtain ⟨rfl, hr, _, hrest⟩ := hc
      obtain ⟨fuel, rfl⟩ : ∃ k, fuel = k + 1 := ⟨fuel - 1, by simp at hfuel; omega⟩
      rw [eleLsns_cons] at hs ⊢
      obtain ⟨hsn, hsxs, hcross⟩ := List.pairwise_append.mp hs
      have hnmax : (entryLsns n.lsnEntry.toList).getLast? = some n.maxLsn :=
        hmax (a, n) (by simp)
      have hxs : ∀ x ∈ xs, (entryLsns x.2.lsnEntry.toList).getLast? = some x.2.maxLsn :=
        fun x hx => hmax x (List.mem_cons_of_mem _ hx)
      have hlen : xs.length ≤ fuel := by simpa using hfuel
      simp only [olderLsn, hr, Option.bind_eq_bind, Option.bind_some]
      split_ifs with hskip
      · obtain ⟨e, he, hem⟩ := getLast?_of_entryLsns hnmax
        rw [he, Option.bind_some, hem, ih hrest hskip.le hsxs hxs hlen]
        obtain ⟨l, hl⟩ := List.getLast?_eq_some_iff.mp hnmax
        simp only [List.filter_cons, List.filter_append, hl, hcur, hskip.le, decide_true,
          if_true]
        simp [List.getLast?_cons, List.getLast?_append]
      · -- the version wanted is in this node or before it
        have hnone : (eleLsns xs).filter (· ≤ targetLsn) = [] := by
          refine filter_le_eq_nil fun y hy => ?_
          have := hcross _ (List.mem_of_getLast? hnmax) y hy
          omega
        rw [lsnListFindLowerBound_eq hsn, Option.bind_some, List.filter_cons,
          List.filter_append, hnone, List.append_nil]
        simp only [hcur, decide_true, if_true]
        rcases Nat.eq_zero_or_pos (countLe targetLsn n.lsnEntry.toList) with hzero | hpos
        · rw [filter_eq_nil_of_countLe hzero, if_neg (by omega)]
          rfl
        · obtain ⟨e, he, hlast⟩ := getElem_lowerBound hsn hpos
          rw [if_pos (by omega), he, Option.bind_some, List.getLast?_cons, hlast]
          rfl

end Loops

/-! ## The two results -/

section Results

variable {eles : Heap HashNodeEle} {head : HashNodeHead} {chain : EleNodes}
  {targetLsn : ℕ}

lemma VersionListInv.head_last (hinv : VersionListInv eles head chain) :
    ∃ e, head.lsnEntry.toList.getLast? = some e ∧
      e.lsn ∈ entryLsns head.lsnEntry.toList ∧
      ∀ x ∈ entryLsns head.lsnEntry.toList, x ≤ e.lsn := by
  obtain ⟨e, he⟩ := Option.ne_none_iff_exists'.mp
    (mt List.getLast?_eq_none_iff.mp hinv.head_nonempty)
  have hlast : (entryLsns head.lsnEntry.toList).getLast? = some e.lsn := by
    rw [entryLsns, List.getLast?_map, he]
    rfl
  exact ⟨e, he, List.mem_of_getLast? hlast, fun x hx =>
    le_of_getLast? hinv.head_sorted hlast hx⟩

/-- A list that starts with an empty slot and is above the target has nothing to replay. -/
lemma between_of_startsAbove (hinv : VersionListInv eles head chain)
    (h : startsAbove head targetLsn = true) :
    head.replayedLsn = 0 ∧ between head.replayedLsn targetLsn (listLsns head chain) = [] := by
  unfold startsAbove at h
  split at h
  · rename_i e₀ e₁ es hes
    simp only [Bool.and_eq_true, beq_iff_eq, decide_eq_true_eq] at h
    obtain ⟨⟨hrep, he₀⟩, he₁⟩ := h
    refine ⟨hrep, between_eq_nil fun x hx => ?_⟩
    have hs := hinv.increasing
    rw [listLsns, hes] at hx hs
    simp only [entryLsns, List.map_cons, List.cons_append] at hx hs
    rcases List.mem_cons.mp hx with rfl | hx
    · exact Or.inl (by omega)
    · right
      rcases List.mem_cons.mp hx with rfl | hx
      · exact he₁
      · exact he₁.trans ((List.pairwise_cons.mp (List.pairwise_cons.mp hs).2).1 x hx)
  · cases h

/-- **The replay list is exact**: above `replayedLsn` the lookup reports `replayedLsn` and exactly
the LSNs of the list up to the target. -/
theorem getBlockReplayList_newer (hinv : VersionListInv eles head chain)
    (hlt : head.replayedLsn < targetLsn) :
    getBlockReplayList head eles targetLsn = some (.collected head.replayedLsn
      (between head.replayedLsn targetLsn (listLsns head chain))) := by
  unfold getBlockReplayList
  rw [if_neg hlt.ne, if_neg (not_lt.mpr hlt.le)]
  split_ifs with hmax habove
  · -- everything was replayed
    rw [between_eq_nil fun x hx => Or.inl (hmax ▸ hinv.le_maxLsn hx), ← hmax]
    rfl
  · obtain ⟨hzero, hnil⟩ := between_of_startsAbove hinv habove
    rw [hnil, hzero]
    rfl
  obtain ⟨e, he, hmem, hle⟩ := hinv.head_last
  have hlinks : Chain HashNodeEle.nextEle _ eles none head.nextEle chain head.tailEle none :=
    hinv.links
  rw [he, listLsns, between_append]
  simp only [Option.bind_eq_bind, Option.bind_some]
  split_ifs with hin
  · have hcol := collect_after_replayed head.replayedLsn targetLsn hinv.head_sorted
      ReplayBuf.init
    obtain ⟨buf, hrun, hitems⟩ := collectEles_eq head.replayedLsn targetLsn hlinks
      hinv.eles_sorted hinv.ele_max
      hlinks.length_le true (fun _ x hx => lt_of_le_of_lt hin (hinv.head_lt_ele hmem hx))
      (collectUpTo targetLsn (head.lsnEntry.toList.drop
        ((countLe head.replayedLsn head.lsnEntry.toList : ℤ) - 1 + 1).toNat) ReplayBuf.init)
    rw [hcol, ReplayBuf.init_items, List.nil_append] at hitems
    simp only [lsnListFindLowerBound_eq hinv.head_sorted, Option.bind_some, hrun, hitems]
  · have hlow : between head.replayedLsn targetLsn (entryLsns head.lsnEntry.toList) = [] :=
      between_eq_nil fun x hx => Or.inl ((hle x hx).trans (not_le.mp hin).le)
    obtain ⟨buf, hrun, hitems⟩ := collectEles_eq head.replayedLsn targetLsn hlinks
      hinv.eles_sorted hinv.ele_max
      hlinks.length_le false (fun h => by cases h) ReplayBuf.init
    rw [ReplayBuf.init_items, List.nil_append] at hitems
    simp only [Option.bind_some, hrun, hitems, hlow, List.nil_append]

/-- **An older target** is answered with the last LSN of the list at most it. -/
theorem getBlockReplayList_older (hinv : VersionListInv eles head chain)
    (hgt : targetLsn < head.replayedLsn) :
    getBlockReplayList head eles targetLsn =
      some (match ((listLsns head chain).filter (· ≤ targetLsn)).getLast? with
        | some base => .nothingToReplay base
        | none => .notFound) := by
  unfold getBlockReplayList
  rw [if_neg hgt.ne', if_pos hgt]
  obtain ⟨e, he, hmem, hle⟩ := hinv.head_last
  simp only [he, Option.bind_eq_bind, Option.bind_some, listLsns, List.filter_append]
  split_ifs with hin
  · have hnone : (eleLsns chain).filter (· ≤ targetLsn) = [] :=
      filter_le_eq_nil fun x hx => lt_of_le_of_lt hin (hinv.head_lt_ele hmem hx)
    rw [hnone, List.append_nil, lsnListFindLowerBound_eq hinv.head_sorted, Option.bind_some]
    rcases Nat.eq_zero_or_pos (countLe targetLsn head.lsnEntry.toList) with hzero | hpos
    · rw [filter_eq_nil_of_countLe hzero, if_pos (by omega)]
      rfl
    · obtain ⟨f, hf, hlast⟩ := getElem_lowerBound hinv.head_sorted hpos
      rw [if_neg (by omega), hf, hlast]
      rfl
  · have hall : (entryLsns head.lsnEntry.toList).filter (· ≤ targetLsn) =
        entryLsns head.lsnEntry.toList := by
      rw [List.filter_eq_self]
      intro x hx
      have := hle x hx
      simp only [decide_eq_true_eq]
      omega
    have hlinks : Chain HashNodeEle.nextEle _ eles none head.nextEle chain head.tailEle none :=
      hinv.links
    have hcur : e.lsn ≤ targetLsn := by omega
    have hlast : (entryLsns head.lsnEntry.toList).getLast? = some e.lsn := by
      rw [entryLsns, List.getLast?_map, he]
      rfl
    rw [olderLsn_eq targetLsn hlinks hcur hinv.eles_sorted hinv.ele_max hlinks.length_le, hall]
    obtain ⟨l, hl⟩ := List.getLast?_eq_some_iff.mp hlast
    rw [hl, List.filter_cons, if_pos (by simpa using hcur)]
    simp [List.getLast?_cons, List.getLast?_append]

lemma getBlockReplayList_same (head : HashNodeHead) (eles : Heap HashNodeEle) :
    getBlockReplayList head eles head.replayedLsn =
      some (.nothingToReplay head.replayedLsn) := by
  rw [getBlockReplayList, if_pos rfl]

end Results

end GroundDB
