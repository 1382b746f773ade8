import GroundDB.HashMap.Runs

/-!
# The lower-bound lookup

`HashMapFindLowerBoundEntry` looks for the last entry of a version list whose LSN is at most a
target.  If the last LSN of the head array reaches the target, the entry is searched for in the
head array.  Otherwise the last entry of the head array is the default, and the element nodes are
visited from the tail back along `prevEle`: the first node met that starts at or below the target
is searched, and the walk ends there.

* `findLowerBound_eq`: on a well-formed list this is the last of the entries at most the target,
  whatever nodes the vacuumer has freed.
* `find_lower_bound_exact`: in every state reached by insertions without the empty first slot and
  background passes, the lookup returns the largest such LSN of the list and the page number last
  stored for it.  What was stored is recorded beside the map (`EntryState`).
-/

namespace GroundDB

open PtrHeap Function

/-! ## The lookup -/

/-- `LsnListFindLowerBound`, and the entry at the index it returns; `some none` stands for the
index `-1`. -/
def lowerBoundEntry (targetLsn : ℕ) (entryList : List LsnEntry) : Option (Option LsnEntry) := do
  let resultIndex ← lsnListFindLowerBound targetLsn entryList
  if resultIndex = -1 then some none
  else do
    let entry ← entryList[resultIndex.toNat]?
    some (some entry)

/-- The walk along `prevEle`, where `current` is the entry to fall back on. -/
def findInEles (eles : Heap HashNodeEle) (targetLsn : ℕ) :
    ℕ → Ptr → LsnEntry → Option LsnEntry
  | _, none, current => some current
  | 0, some _, _ => none
  | fuel + 1, some eleIter, current => do
      let ele ← eles.read eleIter
      let first ← ele.lsnEntry.toList[0]?
      if first.lsn > targetLsn then findInEles eles targetLsn fuel ele.prevEle current
      else do
        let found ← lowerBoundEntry targetLsn ele.lsnEntry.toList
        some (found.getD current)

/-- `HashMapFindLowerBoundEntry` on the head it has found. -/
def findLowerBound (head : HashNodeHead) (eles : Heap HashNodeEle) (targetLsn : ℕ) :
    Option (Option LsnEntry) := do
  let last ← head.lsnEntry.toList.getLast?
  if last.lsn ≥ targetLsn then lowerBoundEntry targetLsn head.lsnEntry.toList
  else do
    let current ← findInEles eles targetLsn eles.fresh head.tailEle last
    some (some current)

/-- `HashMapFindLowerBoundEntry`: `some none` when it returns false, otherwise what it stores
through `foundLsn` and `foundPageNum`. -/
def hashMapFindLowerBoundEntry (m : HashMap) (key : KeyType) (targetLsn : ℕ) :
    Option (Option LsnEntry) := do
  match ← m.find key with
  | none => some none
  | some iter => do
      let head ← m.heads.read iter
      findLowerBound head m.eles targetLsn

/-! ## On one version list -/

/-- The last of the entries at most `t`. -/
def lastUpTo (t : ℕ) (entries : List LsnEntry) : Option LsnEntry :=
  (entries.filter fun e => e.lsn ≤ t).getLast?

section List

variable {t : ℕ} {es fs : List LsnEntry}

lemma lastUpTo_append (t : ℕ) (es fs : List LsnEntry) :
    lastUpTo t (es ++ fs) = (lastUpTo t fs).or (lastUpTo t es) := by
  rw [lastUpTo, List.filter_append, List.getLast?_append]
  rfl

lemma lastUpTo_eq_none : lastUpTo t es = none ↔ ∀ e ∈ es, t < e.lsn := by
  simp [lastUpTo]

lemma lastUpTo_of_le {e : LsnEntry} (hlast : es.getLast? = some e) (hle : e.lsn ≤ t) :
    lastUpTo t es = some e := by
  obtain ⟨front, rfl⟩ := List.getLast?_eq_some_iff.mp hlast
  simp [lastUpTo, List.filter_append, hle]

lemma lastUpTo_isGreatest (hs : (entryLsns es).Pairwise (· < ·)) {e : LsnEntry}
    (he : lastUpTo t es = some e) : e ∈ es ∧ IsGreatest {x | x ∈ entryLsns es ∧ x ≤ t} e.lsn := by
  have hmem := List.mem_filter.mp (List.mem_of_getLast? he)
  refine ⟨hmem.1, ⟨List.mem_map_of_mem hmem.1, by simpa using hmem.2⟩, ?_⟩
  rintro _ ⟨hx, hle⟩
  obtain ⟨f, hf, rfl⟩ := List.mem_map.mp hx
  have hsorted : (entryLsns (es.filter fun e => e.lsn ≤ t)).Pairwise (· < ·) :=
    hs.sublist (List.filter_sublist.map _)
  refine le_of_getLast? hsorted ?_ (List.mem_map_of_mem (List.mem_filter.mpr ⟨hf, by simpa⟩))
  rw [entryLsns, List.getLast?_map, show List.getLast? _ = some e from he]
  rfl

lemma lowerBoundEntry_eq (hs : (entryLsns es).Pairwise (· < ·)) :
    lowerBoundEntry t es = some (lastUpTo t es) := by
  simp only [lowerBoundEntry, lsnListFindLowerBound_eq hs, Option.bind_eq_bind, Option.bind_some]
  split_ifs with hnone
  · have hzero : (es.filter fun e => e.lsn ≤ t).length = 0 := by
      rw [countLe] at hnone
      omega
    rw [lastUpTo, List.length_eq_zero_iff.mp hzero]
    rfl
  · have hindex : ((countLe t es : ℤ) - 1).toNat = countLe t es - 1 := by omega
    have hlt : countLe t es - 1 < (es.filter fun e => e.lsn ≤ t).length := by
      rw [← countLe]
      omega
    have hentry : es[countLe t es - 1]? = lastUpTo t es := calc
      es[countLe t es - 1]?
        = (es.filter (fun e => e.lsn ≤ t) ++ es.filter fun e => t < e.lsn)[countLe t es - 1]? := by
          rw [filter_append_filter_of_sorted LsnEntry.lsn hs t]
      _ = (es.filter fun e => e.lsn ≤ t)[countLe t es - 1]? := List.getElem?_append_left hlt
      _ = lastUpTo t es := List.getLast?_eq_getElem?.symm
    obtain ⟨e, he⟩ : ∃ e, es[countLe t es - 1]? = some e :=
      ⟨_, List.getElem?_eq_getElem (hlt.trans_le (List.length_filter_le _ _))⟩
    rw [hindex, ← hentry, he]
    rfl

end List

section VersionList

variable {eles : Heap HashNodeEle} {head : HashNodeHead} {chain : EleNodes} {t : ℕ}

lemma findInEles_eq {p tl q : Ptr} {fuel : ℕ} (current : LsnEntry)
    (hc : Chain HashNodeEle.nextEle (fun pr n => n.prevEle = pr) eles none p chain tl q)
    (hne : ∀ x ∈ chain, x.2.lsnEntry.toList ≠ [])
    (hs : (eleLsns chain).Pairwise (· < ·)) (hfuel : chain.length ≤ fuel) :
    findInEles eles t fuel tl current =
      some ((lastUpTo t (eleEntries chain)).getD current) := by
  -- induction from the tail: a node that starts above the target contributes nothing
  induction chain using List.reverseRecOn generalizing tl q fuel with
  | nil =>
      obtain rfl : tl = none := hc.2
      cases fuel <;> rfl
  | append_singleton init x ih =>
      obtain ⟨a, n⟩ := x
      obtain ⟨prev, hinit, hr, hprev, rfl, _⟩ := Chain.unsnoc hc
      obtain ⟨fuel, rfl⟩ : ∃ k, fuel = k + 1 := ⟨fuel - 1, by simp at hfuel; omega⟩
      rw [eleLsns_append] at hs
      obtain ⟨hsinit, hsn, _⟩ := List.pairwise_append.mp hs
      rw [eleLsns_cons, eleLsns_nil, List.append_nil] at hsn
      obtain ⟨first, rest, hentries⟩ := List.exists_cons_of_ne_nil (hne (a, n) (by simp))
      have hfirst : n.lsnEntry.toList[0]? = some first := by rw [hentries]; rfl
      have hbound : ∀ e ∈ n.lsnEntry.toList, first.lsn ≤ e.lsn := by
        rw [hentries] at hsn ⊢
        intro e he
        rcases List.mem_cons.mp he with rfl | he
        · exact le_rfl
        · exact ((List.pairwise_cons.mp hsn).1 e.lsn (List.mem_map_of_mem he)).le
      simp only [findInEles, hr, hfirst, Option.bind_eq_bind, Option.bind_some, eleEntries_append,
        eleEntries_cons, eleEntries_nil, List.append_nil, lastUpTo_append]
      split_ifs with hgt
      · have hnone : lastUpTo t n.lsnEntry.toList = none :=
          lastUpTo_eq_none.mpr fun e he => lt_of_lt_of_le hgt (hbound e he)
        rw [hnone, Option.none_or, hprev]
        exact ih hinit (fun x hx => hne x (List.mem_append_left _ hx)) hsinit (by simpa using hfuel)
      · rw [lowerBoundEntry_eq hsn]
        cases hfound : lastUpTo t n.lsnEntry.toList with
        | none => exact absurd (lastUpTo_eq_none.mp hfound first (List.mem_of_getElem? hfirst)) hgt
        | some e => rfl

/-- **The lookup on a version list** returns the last entry at most the target. -/
theorem findLowerBound_eq (hinv : VersionListInv eles head chain) :
    findLowerBound head eles t = some (lastUpTo t (listEntries head chain)) := by
  obtain ⟨last, hlast, _, _⟩ := hinv.head_last
  simp only [findLowerBound, hlast, Option.bind_eq_bind, Option.bind_some, listEntries,
    lastUpTo_append]
  split_ifs with hreach
  · -- the element nodes lie above the head array, so above the target
    have hnone : lastUpTo t (eleEntries chain) = none := by
      refine lastUpTo_eq_none.mpr fun e he => lt_of_le_of_lt hreach (hinv.head_lt_ele ?_ ?_)
      · exact List.mem_map_of_mem (List.mem_of_getLast? hlast)
      · rw [← entryLsns_eleEntries]
        exact List.mem_map_of_mem he
    rw [hnone, Option.none_or, lowerBoundEntry_eq hinv.head_sorted]
  · have hlinks : Chain HashNodeEle.nextEle _ eles none head.nextEle chain head.tailEle none :=
      hinv.links
    rw [findInEles_eq last hlinks (fun _ hx => hinv.ele_nonempty hx) hinv.eles_sorted
      hlinks.length_le, lastUpTo_of_le hlast (not_le.mp hreach).le]
    cases lastUpTo t (eleEntries chain) <;> rfl

end VersionList

/-- **`HashMapFindLowerBoundEntry`** answers from the key's list. -/
theorem hashMapFindLowerBoundEntry_spec {m : HashMap} {chainOf : ℕ → EleNodes}
    (hm : MapInv m chainOf) (key : KeyType) (targetLsn : ℕ) :
    hashMapFindLowerBoundEntry m key targetLsn =
      some ((pageList m chainOf key).bind fun list =>
        lastUpTo targetLsn (listEntries list.1 list.2)) := by
  obtain ⟨buckets, hs⟩ := hm
  rcases hs.find_cases key with ⟨hfind, hnone, _⟩ | ⟨a, full, hfind, hr, _, hlist⟩
  · simp [hashMapFindLowerBoundEntry, hfind, hnone]
  · simp only [hashMapFindLowerBoundEntry, hfind, hr, Option.bind_eq_bind, Option.bind_some, hlist]
    exact findLowerBound_eq (hs.lists a full hr)

/-! ## Runs -/

/-- The map, with the page number last stored for each LSN of each key. -/
structure EntryState where
  map : HashMap
  stored : KeyType → ℕ → Option ℤ

/-- The empty map, nothing stored yet. -/
def EntryState.init (n : ℕ) (hn : 0 < n) : EntryState := ⟨hashMapInit n hn, fun _ _ => none⟩

/-- Insertions that make no empty first slot, and background passes.  An insertion that returns
false stores nothing. -/
def EntryStep (s : EntryState) : VacOp → EntryState → Prop
  | .insertKey key lsn pageNum noEmptyFirstSlot, s' =>
      (key.blkNum = -1 ∨ noEmptyFirstSlot = true) ∧ ∃ result,
        hashMapInsertKey s.map key lsn pageNum noEmptyFirstSlot = some (s'.map, result) ∧
        s'.stored = if result then
            update s.stored key (update (s.stored key) lsn (some pageNum))
          else s.stored
  | .pass iter, s' =>
      ∃ head lsnList, s.map.heads.read iter = some head ∧
        backgroundReplay s.map iter = some (s'.map, lsnList) ∧ s'.stored = s.stored

/-- Every entry holds the page number last stored for its LSN. -/
def PageNumsOk (stored : ℕ → Option ℤ) (entries : List LsnEntry) : Prop :=
  ∀ e ∈ entries, ∃ pageNum, e.pageNum = some pageNum ∧ stored e.lsn = some pageNum

lemma PageNumsOk.store {stored : ℕ → Option ℤ} {entries : List LsnEntry}
    (h : PageNumsOk stored entries) (lsn : ℕ) (pageNum : ℤ) :
    PageNumsOk (update stored lsn (some pageNum))
      ((entries.filter fun e => e.lsn < lsn) ++ [⟨lsn, some pageNum⟩]) := by
  intro e he
  rcases List.mem_append.mp he with he | he
  · obtain ⟨hmem, hlt⟩ := List.mem_filter.mp he
    have hne : e.lsn ≠ lsn := (by simpa using hlt : e.lsn < lsn).ne
    rw [update_of_ne hne]
    exact h e hmem
  · obtain rfl := List.mem_singleton.mp he
    exact ⟨pageNum, rfl, update_self _ _ _⟩

/-- The invariant of such a run. -/
def EntryInv (s : EntryState) : Prop :=
  ∃ chainOf, MapInv s.map chainOf ∧ ∀ key head chain,
    pageList s.map chainOf key = some (head, chain) →
      PageNumsOk (s.stored key) (listEntries head chain)

lemma entryInv_init (n : ℕ) (hn : 0 < n) : EntryInv (EntryState.init n hn) := by
  refine ⟨fun _ => [], mapInv_init n hn _, fun key head chain hlist => ?_⟩
  exact absurd (hlist.symm.trans (pageList_init n hn _ key)) (by simp)

/-- An update of one list that keeps its page numbers right, what is stored for other keys being
the same. -/
lemma EntryInv.of_pageUpdate {s s' : EntryState} {chainOf chainOf' : ℕ → EleNodes}
    {key : KeyType} {head' : HashNodeHead} {chain' : EleNodes}
    (hok : ∀ k head chain, pageList s.map chainOf k = some (head, chain) →
      PageNumsOk (s.stored k) (listEntries head chain))
    (hup : PageUpdate s.map chainOf key s'.map chainOf' (some (head', chain')))
    (hothers : ∀ k, k ≠ key → s'.stored k = s.stored k)
    (hhere : PageNumsOk (s'.stored key) (listEntries head' chain')) : EntryInv s' := by
  refine ⟨chainOf', hup.inv, fun k head chain hlist => ?_⟩
  by_cases hk : k = key
  · subst hk
    obtain ⟨rfl, rfl⟩ : head' = head ∧ chain' = chain := by simpa [hup.here] using hlist
    exact hhere
  · rw [hothers k hk]
    exact hok k head chain ((hup.others k hk).symm.trans hlist)

lemma Replayed.listEntries_subset {eles eles' : Heap HashNodeEle} {head head' : HashNodeHead}
    {chain : EleNodes} {lsnList : List ℕ} {k : ℕ}
    (h : Replayed eles head chain lsnList k eles' head') :
    listEntries head' (unlinkFront (chain.drop k)) ⊆ listEntries head chain := by
  have hunlink : ∀ l, eleEntries (unlinkFront l) = eleEntries l := by
    intro l
    cases l <;> simp [unlinkFront]
  rw [listEntries, listEntries, h.entries, hunlink]
  exact (((List.drop_sublist k chain).flatMap _).append_left _).subset

/-- **One step**: stored page numbers stay with their entries. -/
theorem EntryStep.inv {s s' : EntryState} {op : VacOp} (hinv : EntryInv s)
    (h : EntryStep s op s') : EntryInv s' := by
  obtain ⟨chainOf, hm, hok⟩ := hinv
  cases op with
  | insertKey key lsn pageNum noEmptyFirstSlot =>
      obtain ⟨hslot, result, hcall, hstored⟩ := h
      have hno : ¬ (key.blkNum ≠ -1 ∧ noEmptyFirstSlot = false) := by
        rcases hslot with hblk | hflag
        · exact fun hc => hc.1 hblk
        · simp [hflag]
      have hlsn : key.blkNum ≠ -1 ∧ noEmptyFirstSlot = false → 1 ≤ lsn := fun hc => absurd hc hno
      rcases hashMapInsertKey_spec hm key pageNum noEmptyFirstSlot hlsn with
        ⟨hnone, m', chainOf', nextHead, hrun, hup⟩ |
        ⟨head, chain, hlist, m', chainOf', head', chain', hrun, hup, _, hentries⟩
      · obtain ⟨rfl, rfl⟩ : m' = s'.map ∧ true = result := by simpa [hrun] using hcall
        rw [if_pos rfl] at hstored
        refine .of_pageUpdate hok hup (fun k hk => by rw [hstored, update_of_ne hk]) ?_
        rw [hstored, update_self]
        have hnew : listEntries (newHead key (s.map.bucketPos key) lsn pageNum noEmptyFirstSlot
            nextHead).core [] = [⟨lsn, some pageNum⟩] := by
          simp [listEntries, newHead, HashNodeHead.core, hno]
        rw [hnew]
        have hempty : PageNumsOk (s.stored key) [] := by simp [PageNumsOk]
        exact hempty.store lsn pageNum
      · obtain ⟨rfl, rfl⟩ : m' = s'.map ∧ decide (head.maxLsn ≤ lsn) = result := by
          simpa [hrun] using hcall
        rw [storeEntry] at hentries
        by_cases hle : head.maxLsn ≤ lsn
        · rw [if_pos (by simpa using hle)] at hstored
          refine .of_pageUpdate hok hup (fun k hk => by rw [hstored, update_of_ne hk]) ?_
          rw [hstored, update_self, hentries, if_pos hle]
          exact (hok key head chain hlist).store lsn pageNum
        · rw [if_neg (by simpa using hle)] at hstored
          refine .of_pageUpdate hok hup (fun k _ => by rw [hstored]) ?_
          rw [hstored, hentries, if_neg hle]
          exact hok key head chain hlist
  | pass iter =>
      obtain ⟨head, lsnList, hr, hcall, hstored⟩ := h
      obtain ⟨m', chainOf', head', lsnList', k, hrun, hup, hlist, hrep⟩ :=
        backgroundReplay_spec hm hr
      obtain ⟨rfl, rfl⟩ : m' = s'.map ∧ lsnList' = lsnList := by simpa [hrun] using hcall
      refine .of_pageUpdate hok hup (fun k _ => by rw [hstored]) ?_
      rw [hstored]
      exact fun e he => hok head.key _ _ hlist e (hrep.listEntries_subset he)

/-- **The lower-bound lookup is exact.**  In every state reached by insertions without the empty
first slot and background passes, and for every target, `HashMapFindLowerBoundEntry` returns; it
returns false exactly when the key has no list or all LSNs of its list are above the target; and
otherwise it returns the largest LSN of the list at most the target, with the page number last
stored for it. -/
theorem find_lower_bound_exact {n : ℕ} {hn : 0 < n} {tr : List VacOp} {s : EntryState}
    (hrun : Lts.Run EntryStep (EntryState.init n hn) tr s) (key : KeyType) (targetLsn : ℕ) :
    ∃ answer, hashMapFindLowerBoundEntry s.map key targetLsn = some answer ∧
      (answer = none ↔ s.map.headOf key = none ∨
        ∃ head chain, OnList s.map key head chain ∧ ∀ x ∈ listLsns head chain, targetLsn < x) ∧
      ∀ entry, answer = some entry → ∃ head chain pageNum, OnList s.map key head chain ∧
        IsGreatest {x | x ∈ listLsns head chain ∧ x ≤ targetLsn} entry.lsn ∧
        entry.pageNum = some pageNum ∧ s.stored key entry.lsn = some pageNum := by
  obtain ⟨chainOf, hm, hok⟩ := hrun.invariant (entryInv_init n hn) fun _ _ _ hI hs => hs.inv hI
  refine ⟨_, hashMapFindLowerBoundEntry_spec hm key targetLsn, ?_⟩
  cases hlist : pageList s.map chainOf key with
  | none =>
      have habsent : s.map.headOf key = none := by
        by_contra hne
        obtain ⟨head, hhead⟩ := Option.ne_none_iff_exists'.mp hne
        obtain ⟨chain, hon⟩ := (headOf_eq_some hm).mp hhead
        rw [(onList_iff_pageList hm).mp ⟨head, hon, rfl⟩] at hlist
        cases hlist
      exact ⟨by simp [habsent], fun _ h => by cases h⟩
  | some list =>
      obtain ⟨_, chain⟩ := list
      obtain ⟨head, hon, rfl⟩ := (onList_iff_pageList hm).mpr hlist
      change (lastUpTo targetLsn (listEntries head chain) = none ↔ _) ∧
        ∀ entry, lastUpTo targetLsn (listEntries head chain) = some entry → _
      have hlsns := entryLsns_listEntries head chain
      refine ⟨?_, fun entry hentry => ?_⟩
      · have habove : (∀ e ∈ listEntries head chain, targetLsn < e.lsn) ↔
            ∀ x ∈ listLsns head chain, targetLsn < x := by
          simp [← hlsns, entryLsns]
        rw [lastUpTo_eq_none, habove]
        constructor
        · exact fun h => Or.inr ⟨head, chain, hon, h⟩
        · rintro (habsent | ⟨g, c, hon', h⟩)
          · rw [hon.1] at habsent
            cases habsent
          · obtain rfl : head = g := Option.some.inj (hon.1.symm.trans hon'.1)
            rwa [Chain.unique hon.2 hon'.2]
      · have hsorted := (hm.onList_inv hon).increasing
        rw [← hlsns] at hsorted
        obtain ⟨hmem, hgreatest⟩ := lastUpTo_isGreatest hsorted hentry
        obtain ⟨pageNum, hpage, hstored⟩ := hok key _ chain hlist entry hmem
        exact ⟨head, chain, pageNum, hon, by rwa [hlsns] at hgreatest, hpage, hstored⟩

/-- Two LSNs, the page number of the second stored twice, and a background pass over them. -/
theorem find_lower_bound_exact_at_25 :
    ∃ m stored, Lts.Run EntryStep (EntryState.init 1023 (by decide))
        [.insertKey (blockKey (-1)) 10 3 false,
          .insertKey (blockKey (-1)) 20 4 false,
          .insertKey (blockKey (-1)) 20 5 false, .pass 0] ⟨m, stored⟩ ∧
      hashMapFindLowerBoundEntry m (blockKey (-1)) 25 = some (some ⟨20, some 5⟩) ∧
      stored (blockKey (-1)) 20 = some 5 := by
  have hrun : ∃ m stored, Lts.Run EntryStep (EntryState.init 1023 (by decide))
      [.insertKey (blockKey (-1)) 10 3 false,
        .insertKey (blockKey (-1)) 20 4 false,
        .insertKey (blockKey (-1)) 20 5 false, .pass 0] ⟨m, stored⟩ ∧
      hashMapFindLowerBoundEntry m (blockKey (-1)) 25 = some (some ⟨20, some 5⟩) :=
    ⟨_, _, .cons (t := ⟨_, _⟩) ⟨Or.inl rfl, true, rfl, rfl⟩
      (.cons (t := ⟨_, _⟩) ⟨Or.inl rfl, true, rfl, rfl⟩
        (.cons (t := ⟨_, _⟩) ⟨Or.inl rfl, true, rfl, rfl⟩
          (.cons (t := ⟨_, _⟩) ⟨_, _, rfl, rfl, rfl⟩ .nil))), rfl⟩
  obtain ⟨m, stored, hrun, hcall⟩ := hrun
  obtain ⟨answer, hanswer, _, hsome⟩ :=
    find_lower_bound_exact hrun (blockKey (-1)) 25
  obtain rfl : answer = some ⟨20, some 5⟩ := Option.some.inj (hanswer.symm.trans hcall)
  obtain ⟨_, _, pageNum, _, _, hpage, hstored⟩ := hsome _ rfl
  obtain rfl : 5 = pageNum := Option.some.inj hpage
  exact ⟨m, stored, hrun, hcall, hstored⟩

end GroundDB
