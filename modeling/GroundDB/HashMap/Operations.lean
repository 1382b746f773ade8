import GroundDB.Lib.Run
import GroundDB.HashMap.Bucket
import GroundDB.HashMap.Insert
import GroundDB.HashMap.Vacuumer

/-!
# The operations of the map

The four functions that work on the map, each found head being handed to the functions on one
version list: `HashMapInsertKey`, `HashMapUpdateReplayedLsn`, `HashMapGetBlockReplayList` and a
pass of the background vacuumer.

Each has one specification, in terms of `pageList`: the call succeeds, keeps `MapInv`, leaves the
lists of other keys alone (`PageUpdate`), and does to the key's own list what the function on
lists does.
-/

namespace GroundDB

open PtrHeap

/-! ## The functions -/

/-- `HashMapInsertKey`. -/
def hashMapInsertKey (m : HashMap) (key : KeyType) (lsn : ℕ) (pageNum : ℤ)
    (noEmptyFirstSlot : Bool) : Option (HashMap × Bool) := do
  match ← m.find key with
  | none => do
      let m ← m.createHead key lsn pageNum noEmptyFirstSlot
      some (m, true)
  | some iter => do
      let m ← m.moveToFront iter
      let head ← m.heads.read iter
      let (head, eles, inserted) ← insertEntry head m.eles lsn pageNum
      let heads ← m.heads.write iter head
      some ({ m with heads := heads, eles := eles }, inserted)

/-- `HashMapUpdateReplayedLsn`, with the calls made on the head lock. -/
def hashMapUpdateReplayedLsn (m : HashMap) (key : KeyType) (lsn : ℕ) (holdHeadLock : Bool) :
    Option (HashMap × Bool × List LockOp) := do
  match ← m.find key with
  | none => some (m, false, [])
  | some iter => do
      let lockOps := (if holdHeadLock then [] else [LockOp.wrlock]) ++ [LockOp.unlock]
      let head ← m.heads.read iter
      if head.replayedLsn < lsn then do
        let heads ← m.heads.write iter { head with replayedLsn := lsn }
        some ({ m with heads := heads }, true, lockOps)
      else some (m, false, lockOps)

/-- `HashMapGetBlockReplayList`. -/
def hashMapGetBlockReplayList (m : HashMap) (key : KeyType) (targetLsn : ℕ) :
    Option (HashMap × ReplayAnswer) := do
  match ← m.find key with
  | none => some (m, ⟨none, []⟩)
  | some iter => do
      let m ← m.moveToFront iter
      let head ← m.heads.read iter
      let answer ← getBlockReplayList head m.eles targetLsn
      some (m, answer)

/-- `BackgroundReplayHeadNode` on a head of the map; also returns the LSNs that are applied. -/
def backgroundReplay (m : HashMap) (iter : ℕ) : Option (HashMap × List ℕ) := do
  let head ← m.heads.read iter
  let (head, eles, lsnList) ← replayHeadNode head m.eles
  let heads ← m.heads.write iter head
  some ({ m with heads := heads, eles := eles }, lsnList)

/-- The head of a key. -/
def HashMap.headOf (m : HashMap) (key : KeyType) : Option HashNodeHead := do
  let p ← m.find key
  let iter ← p
  m.heads.read iter

/-- The version list of `key` consists of `head` and the nodes `chain`. -/
def OnList (m : HashMap) (key : KeyType) (head : HashNodeHead) (chain : EleNodes) :
    Prop :=
  m.headOf key = some head ∧ EleChain m.eles head.nextEle chain head.tailEle

/-! ## Specifications -/

/-- From `m` to `m'` the list of `key` became `list` and no other list changed. -/
structure PageUpdate (m : HashMap) (chainOf : ℕ → EleNodes) (key : KeyType)
    (m' : HashMap) (chainOf' : ℕ → EleNodes) (list : Option (HashNodeHead × EleNodes)) : Prop where
  inv : MapInv m' chainOf'
  here : pageList m' chainOf' key = list
  others : ∀ k, k ≠ key → pageList m' chainOf' k = pageList m chainOf k

variable {m m' : HashMap} {chainOf : ℕ → EleNodes} {key : KeyType}
  {head : HashNodeHead} {chain : EleNodes}

lemma pageList_eq_none_iff :
    pageList m chainOf key = none ↔ m.headOf key = none := by
  simp only [pageList, HashMap.headOf]
  cases m.find key with
  | none => simp
  | some p =>
      cases p with
      | none => simp
      | some a => cases h : m.heads.read a <;> simp [h]

lemma onList_iff_pageList (hm : MapInv m chainOf) :
    (∃ full, OnList m key full chain ∧ full.core = head) ↔
      pageList m chainOf key = some (head, chain) := by
  obtain ⟨buckets, hs⟩ := hm
  obtain ⟨p, hp, hiff⟩ := hs.find key
  rw [hs.pageList_eq_some]
  constructor
  · rintro ⟨full, ⟨hhead, hchain⟩, rfl⟩
    simp only [HashMap.headOf, hp, Option.bind_eq_bind, Option.bind_some,
      Option.bind_eq_some_iff] at hhead
    obtain ⟨a, ha, hr⟩ := hhead
    obtain ⟨full', hr', hkey⟩ := (hiff a).mp ha
    obtain rfl : full = full' := by rwa [hr, Option.some.injEq] at hr'
    exact ⟨a, full, hr, hkey, rfl, Chain.unique hchain (hs.lists a full hr).links⟩
  · rintro ⟨a, full, hr, hkey, rfl, rfl⟩
    have ha := (hiff a).mpr ⟨full, hr, hkey⟩
    exact ⟨full, ⟨by simp [HashMap.headOf, hp, ha, hr], (hs.lists a full hr).links⟩, rfl⟩

lemma MapInv.onList_inv (hm : MapInv m chainOf) (h : OnList m key head chain) :
    VersionListInv m.eles head chain :=
  (hm.pageList_inv ((onList_iff_pageList hm).mp ⟨head, h, rfl⟩)).1.of_core rfl

lemma pageList_of_sameCores (hm : MapInv m chainOf) (hm' : MapInv m' chainOf)
    (hcore : SameCores m.heads m'.heads) (key : KeyType) :
    pageList m' chainOf key = pageList m chainOf key := by
  obtain ⟨buckets, hs⟩ := hm
  obtain ⟨buckets', hs'⟩ := hm'
  exact hs.pageList_congr hs' fun a _ => ⟨hcore a, rfl⟩

/-- An update of one list, seen from outside. -/
lemma pageUpdate_of_write (hm : MapInv m chainOf) {a : ℕ} {head head' : HashNodeHead}
    {eles' : Heap HashNodeEle} {chain' : EleNodes}
    (hr : m.heads.read a = some head) (hplace : SamePlace head head')
    (hinv : VersionListInv eles' head' chain')
    (hframe : ListFrame m.eles eles' (chainOf a) chain') :
    ∃ heads', m.heads.write a head' = some heads' ∧
      PageUpdate m chainOf head.key { m with heads := heads', eles := eles' }
        (Function.update chainOf a chain') (some (head'.core, chain')) := by
  obtain ⟨buckets, hs⟩ := hm
  obtain ⟨heads', buckets', hw, hread, hs', -⟩ :=
    hs.update_list versionListInv_listProp hr hplace hinv hframe
  have hra : heads'.read a = some head' := by rw [hread, if_pos rfl]
  refine ⟨heads', hw, ⟨buckets', hs'⟩, ?_, fun k hk => ?_⟩
  · exact hs'.pageList_eq_some.mpr ⟨a, head', hra, hplace.key, rfl, by simp⟩
  · refine hs.pageList_congr hs' fun b hb => ?_
    have hba : b ≠ a := by
      rintro rfl
      rcases hb with ⟨full, hfull, hkey⟩ | ⟨full, hfull, hkey⟩
      · rw [hr, Option.some.injEq] at hfull
        exact hk (hfull ▸ hkey.symm)
      · change heads'.read b = some full at hfull
        rw [hra, Option.some.injEq] at hfull
        exact hk (by rw [← hkey, ← hfull, hplace.key])
    change (heads'.read b).map HashNodeHead.core = _ ∧ _
    rw [Function.update_of_ne hba, hread, if_neg hba]
    exact ⟨rfl, rfl⟩

lemma PageUpdate.of_relinked (hm : MapInv m chainOf) (hm' : MapInv m' chainOf)
    (hcore : SameCores m.heads m'.heads) {m'' : HashMap} {chainOf'' : ℕ → EleNodes}
    {list : Option (HashNodeHead × EleNodes)} (h : PageUpdate m' chainOf key m'' chainOf'' list) :
    PageUpdate m chainOf key m'' chainOf'' list :=
  ⟨h.inv, h.here, fun k hk => (h.others k hk).trans (pageList_of_sameCores hm hm' hcore k)⟩

lemma Inserted.core {eles eles' : Heap HashNodeEle} {full full' head : HashNodeHead}
    {chain chain' : EleNodes} {new : List ℕ}
    (h : Inserted eles full chain new eles' full' chain') (hcore : full.core = head.core) :
    Inserted eles head.core chain new eles' full'.core chain' := by
  rw [← hcore]
  exact ⟨h.inv.of_core rfl, h.frame,
    ⟨h.place.key, h.place.hashValue, h.place.bucket, rfl, rfl⟩, h.replayed, h.lsns, h.head_prefix⟩

/-- **`HashMapInsertKey`** creates a list for a new key, and otherwise appends the LSN exactly when
it is above the list's maximum.  Only the empty first slot asks for a positive LSN. -/
theorem hashMapInsertKey_spec (hm : MapInv m chainOf) (key : KeyType) {lsn : ℕ} (pageNum : ℤ)
    (noEmptyFirstSlot : Bool) (hlsn : key.blkNum ≠ -1 ∧ noEmptyFirstSlot = false → 1 ≤ lsn) :
    (pageList m chainOf key = none ∧ ∃ m' chainOf' nextHead,
      hashMapInsertKey m key lsn pageNum noEmptyFirstSlot = some (m', true) ∧
      PageUpdate m chainOf key m' chainOf' (some ((newHead key (m.bucketPos key) lsn pageNum
        noEmptyFirstSlot nextHead).core, []))) ∨
    ∃ head chain, pageList m chainOf key = some (head, chain) ∧ ∃ m' chainOf' head' chain',
      hashMapInsertKey m key lsn pageNum noEmptyFirstSlot =
        some (m', decide (head.maxLsn ≤ lsn)) ∧
      PageUpdate m chainOf key m' chainOf' (some (head', chain')) ∧
      Inserted m.eles head chain (if head.maxLsn < lsn then [lsn] else []) m'.eles head'
        chain' ∧
      listEntries head' chain' =
        storeEntry (listEntries head chain) head.maxLsn lsn pageNum := by
  obtain ⟨buckets, hs⟩ := hm
  rcases hs.find_cases key with ⟨hfind, hnone, hnew⟩ | ⟨a, full, hfind, hr, hkey, hlist⟩
  · left
    obtain ⟨m', buckets', hrun, hs', hfresh, hcores, heles, _⟩ :=
      hs.createHead versionListInv_listProp
        (newHead_inv m.eles key _ pageNum noEmptyFirstSlot _ hlsn) hnew
    refine ⟨hnone, m', _, m.nodeList (m.bucketPos key), by simp [hashMapInsertKey, hfind, hrun],
      ⟨buckets', hs'⟩, ?_, fun k hk => ?_⟩
    · exact hs'.pageList_eq_some.mpr ⟨_, _, hfresh, rfl, rfl, by simp⟩
    · refine hs.pageList_congr hs' fun b hb => ?_
      have hne : b ≠ m.heads.fresh := by
        rintro rfl
        rcases hb with ⟨g, hg, _⟩ | ⟨g, hg, hgk⟩
        · exact lt_irrefl _ (Heap.lt_fresh hg)
        · rw [hfresh, Option.some.injEq] at hg
          exact hk (by rw [← hgk, ← hg]; rfl)
      exact ⟨hcores b hne, Function.update_of_ne hne _ _⟩
  · right
    obtain ⟨m₁, buckets₁, hrun₁, hs₁, hcore₁, heles₁, _⟩ :=
      hs.moveToFront versionListInv_listProp hr
    have hm₁ : MapInv m₁ chainOf := ⟨buckets₁, hs₁⟩
    obtain ⟨full₁, hr₁, hfc⟩ := hcore₁.symm.read hr
    obtain ⟨full', eles', chain', hrun, hins, hentries⟩ :=
      insertEntry_spec (hm₁.list hr₁) lsn pageNum
    obtain ⟨heads', hw, hup⟩ := pageUpdate_of_write hm₁ hr₁ hins.place hins.inv hins.frame
    have hkey₁ : full₁.key = key := by rw [core_fields hfc.symm, hkey]
    have hmax : full₁.maxLsn = full.core.maxLsn := by rw [core_fields hfc.symm]; rfl
    rw [hkey₁] at hup
    refine ⟨full.core, chainOf a, hlist, { m₁ with heads := heads', eles := eles' }, _, full'.core,
      chain', ?_, PageUpdate.of_relinked ⟨buckets, hs⟩ hm₁ hcore₁ hup, ?_, ?_⟩
    · simp [hashMapInsertKey, hfind, hrun₁, hr₁, hrun, hw, hmax]
    · rw [← heles₁, ← hmax]
      exact hins.core hfc.symm
    · rw [← hmax, hfc]
      exact hentries

/-- **`HashMapUpdateReplayedLsn`** raises `replayedLsn`, and releases the head lock. -/
theorem hashMapUpdateReplayedLsn_spec (hm : MapInv m chainOf)
    (hlist : pageList m chainOf key = some (head, chain)) {lsn : ℕ} (hle : lsn ≤ head.maxLsn)
    (holdHeadLock : Bool) :
    ∃ m' chainOf', hashMapUpdateReplayedLsn m key lsn holdHeadLock =
        some (m', decide (head.replayedLsn < lsn),
          (if holdHeadLock then [] else [LockOp.wrlock]) ++ [LockOp.unlock]) ∧
      PageUpdate m chainOf key m' chainOf'
        (some ({ head with replayedLsn := max head.replayedLsn lsn }, chain)) := by
  have ⟨_, hs⟩ := hm
  rcases hs.find_cases key with ⟨_, hnone, _⟩ | ⟨a, full, hfind, hr, rfl, hlist'⟩
  · rw [hnone] at hlist
    cases hlist
  rw [hlist', Option.some.injEq, Prod.mk.injEq] at hlist
  obtain ⟨rfl, rfl⟩ := hlist
  have hinv := hm.list hr
  by_cases hlt : full.replayedLsn < lsn
  · have hinv' : VersionListInv m.eles { full with replayedLsn := lsn } (chainOf a) :=
      ⟨hinv.links, hinv.increasing, hinv.head_nonempty, hinv.head_full, hinv.ele_full,
        hinv.ele_max, hinv.head_max, hle⟩
    have hplace : SamePlace full { full with replayedLsn := lsn } := ⟨rfl, rfl, rfl, rfl, rfl⟩
    obtain ⟨heads', hw, hup⟩ := pageUpdate_of_write hm hr hplace hinv' ListFrame.refl
    have hcore : ({ full with replayedLsn := lsn } : HashNodeHead).core =
        { full.core with replayedLsn := max full.core.replayedLsn lsn } := by
      rw [show full.core.replayedLsn = full.replayedLsn from rfl, max_eq_right hlt.le]
      rfl
    rw [hcore] at hup
    exact ⟨_, _, by simp [hashMapUpdateReplayedLsn, hfind, hr, hlt, hw, HashNodeHead.core], hup⟩
  · refine ⟨m, chainOf, ?_, hm, ?_, fun _ _ => rfl⟩
    · simp [hashMapUpdateReplayedLsn, hfind, hr, hlt, HashNodeHead.core]
    · rw [hlist', max_eq_left (show lsn ≤ full.core.replayedLsn from not_lt.mp hlt)]

lemma getBlockReplayList_core (full : HashNodeHead) (eles : Heap HashNodeEle) (targetLsn : ℕ) :
    getBlockReplayList full.core eles targetLsn = getBlockReplayList full eles targetLsn := rfl

/-- **`HashMapGetBlockReplayList`** answers from the key's list and changes none. -/
theorem hashMapGetBlockReplayList_spec (hm : MapInv m chainOf) (key : KeyType) (targetLsn : ℕ) :
    (pageList m chainOf key = none ∧
      hashMapGetBlockReplayList m key targetLsn = some (m, ⟨none, []⟩)) ∨
    ∃ head chain, pageList m chainOf key = some (head, chain) ∧ ∃ m' answer,
      hashMapGetBlockReplayList m key targetLsn = some (m', answer) ∧
      getBlockReplayList head m.eles targetLsn = some answer ∧
      PageUpdate m chainOf key m' chainOf (some (head, chain)) := by
  have ⟨_, hs⟩ := hm
  rcases hs.find_cases key with ⟨hfind, hnone, _⟩ | ⟨a, full, hfind, hr, hkey, hlist⟩
  · exact Or.inl ⟨hnone, by simp [hashMapGetBlockReplayList, hfind]⟩
  · right
    obtain ⟨m', buckets', hrun, hs', hcore, heles, _⟩ := hs.moveToFront versionListInv_listProp hr
    have hm' : MapInv m' chainOf := ⟨buckets', hs'⟩
    obtain ⟨full', hr', hfc⟩ := hcore.symm.read hr
    obtain ⟨answer, hans⟩ : ∃ answer, getBlockReplayList full m.eles targetLsn = some answer := by
      rcases lt_trichotomy full.replayedLsn targetLsn with hlt | heq | hgt
      · exact ⟨_, getBlockReplayList_newer (hm.list hr) hlt⟩
      · exact ⟨_, heq ▸ getBlockReplayList_same full m.eles⟩
      · exact ⟨_, getBlockReplayList_older (hm.list hr) hgt⟩
    refine ⟨full.core, chainOf a, hlist, m', answer, ?_, hans, hm', ?_, ?_⟩
    · have hans' : getBlockReplayList full' m.eles targetLsn = some answer := by
        rw [← getBlockReplayList_core, ← hfc, getBlockReplayList_core, hans]
      simp [hashMapGetBlockReplayList, hfind, hrun, hr', heles, hans']
    · rw [pageList_of_sameCores hm hm' hcore, hlist]
    · exact fun k _ => pageList_of_sameCores hm hm' hcore k

lemma Replayed.core {eles eles' : Heap HashNodeEle} {full full' : HashNodeHead}
    {chain : EleNodes} {lsnList : List ℕ} {k : ℕ}
    (h : Replayed eles full chain lsnList k eles' full') :
    Replayed eles full.core chain lsnList k eles' full'.core :=
  ⟨h.inv.of_core rfl, h.frame, ⟨h.place.key, h.place.hashValue, h.place.bucket, rfl, rfl⟩,
    h.entries, h.maxLsn, h.applied, h.replayed, h.keeps_tail, h.freed_le⟩

/-- **A pass of the vacuumer** replays the list of the head it is given. -/
theorem backgroundReplay_spec (hm : MapInv m chainOf) {iter : ℕ}
    (hr : m.heads.read iter = some head) :
    ∃ m' chainOf' head' lsnList k, backgroundReplay m iter = some (m', lsnList) ∧
      PageUpdate m chainOf head.key m' chainOf'
        (some (head', unlinkFront ((chainOf iter).drop k))) ∧
      pageList m chainOf head.key = some (head.core, chainOf iter) ∧
      Replayed m.eles head.core (chainOf iter) lsnList k m'.eles head' := by
  obtain ⟨head', eles', lsnList, k, hrun, hrep⟩ := replayHeadNode_spec (hm.list hr)
  obtain ⟨heads', hw, hup⟩ := pageUpdate_of_write hm hr hrep.place hrep.inv hrep.frame
  have ⟨_, hs⟩ := hm
  refine ⟨{ m with heads := heads', eles := eles' }, _, head'.core, lsnList, k, ?_, hup,
    hs.pageList_eq_some.mpr ⟨iter, head, hr, rfl, rfl, rfl⟩, hrep.core⟩
  simp [backgroundReplay, hr, hrun, hw]

lemma headOf_eq_some (hm : MapInv m chainOf) {head : HashNodeHead} :
    m.headOf key = some head ↔ ∃ chain, OnList m key head chain := by
  constructor
  · intro hhead
    obtain ⟨buckets, hs⟩ := hm
    rcases hs.find_cases key with ⟨hfind, _, _⟩ | ⟨a, full, hfind, hr, _, _⟩
    · simp [HashMap.headOf, hfind] at hhead
    · obtain rfl : full = head := by simpa [HashMap.headOf, hfind, hr] using hhead
      exact ⟨chainOf a, by simp [HashMap.headOf, hfind, hr], (hs.lists a full hr).links⟩
  · rintro ⟨_, hhead, _⟩
    exact hhead

end GroundDB
