import GroundDB.HashMap.VersionList

/-!
# Inserting into a version list

The part of `HashMapInsertKey` that works on the head it has found: an LSN below `maxLsn` is
refused, one equal to `maxLsn` updates the page number of the last entry, and a larger one is
appended, to the head array while it has room, then to the tail node, and to a new tail node when
that is full.

`insertEntry_spec` says all that later modules use: the call succeeds, keeps the invariant,
touches only the list's own nodes and new ones, and appends exactly the LSNs above `maxLsn`.
-/

namespace GroundDB

open PtrHeap

/-- A fresh element node, holding one entry. -/
def newEle (lsn : ℕ) (pageNum : ℤ) (prevEle : Ptr) : HashNodeEle :=
  { maxLsn := lsn, lsnEntry := ⟨[⟨lsn, some pageNum⟩], by simp [hashElemNum]⟩,
    nextEle := none, prevEle := prevEle }

/-- `maxLsn == lsn`: the page number of the last entry is updated in place. -/
def updatePageNum (head : HashNodeHead) (eles : Heap HashNodeEle) (pageNum : ℤ) :
    Option (HashNodeHead × Heap HashNodeEle) :=
  if head.lsnEntry.toList.length ≤ hashHeadNum ∧ head.nextEle = none then do
    let lsnEntry ← head.lsnEntry.modifyLast fun e => { e with pageNum := some pageNum }
    some ({ head with lsnEntry := lsnEntry }, eles)
  else do
    let tail ← head.tailEle
    let nodeEle ← eles.read tail
    let lsnEntry ← nodeEle.lsnEntry.modifyLast fun e => { e with pageNum := some pageNum }
    let eles ← eles.write tail { nodeEle with lsnEntry := lsnEntry }
    some (head, eles)

/-- `maxLsn < lsn`: the LSN becomes the last entry of the list. -/
def appendEntry (head : HashNodeHead) (eles : Heap HashNodeEle) (lsn : ℕ) (pageNum : ℤ) :
    Option (HashNodeHead × Heap HashNodeEle) :=
  if head.lsnEntry.toList.length < hashHeadNum then do
    let lsnEntry ← head.lsnEntry.push ⟨lsn, some pageNum⟩
    some ({ head with lsnEntry := lsnEntry, maxLsn := lsn }, eles)
  else
    match head.tailEle with
    | some tail => do
        let nodeEle ← eles.read tail
        if nodeEle.lsnEntry.toList.length < hashElemNum then do
          let lsnEntry ← nodeEle.lsnEntry.push ⟨lsn, some pageNum⟩
          let eles ← eles.write tail { nodeEle with lsnEntry := lsnEntry, maxLsn := lsn }
          some ({ head with maxLsn := lsn }, eles)
        else do
          let (eles, eleNode) := eles.alloc (newEle lsn pageNum (some tail))
          let eles ← eles.write tail { nodeEle with nextEle := some eleNode }
          some ({ head with maxLsn := lsn, tailEle := some eleNode }, eles)
    | none =>
        let (eles, eleNode) := eles.alloc (newEle lsn pageNum none)
        some ({ head with maxLsn := lsn, nextEle := some eleNode, tailEle := some eleNode }, eles)

/-- `HashMapInsertKey` on the head it has found. -/
def insertEntry (head : HashNodeHead) (eles : Heap HashNodeEle) (lsn : ℕ) (pageNum : ℤ) :
    Option (HashNodeHead × Heap HashNodeEle × Bool) :=
  if head.maxLsn > lsn then some (head, eles, false)
  else if head.maxLsn = lsn then do
    let (head, eles) ← updatePageNum head eles pageNum
    some (head, eles, true)
  else do
    let (head, eles) ← appendEntry head eles lsn pageNum
    some (head, eles, true)

variable {eles : Heap HashNodeEle} {head : HashNodeHead} {chain : EleNodes}
  {lsn : ℕ} (pageNum : ℤ)

/-! ## The nodes of the list -/

/-- Overwriting the tail node, with the back link kept, leaves a list with the new tail. -/
lemma EleChain.write_tail {p tl : Ptr} {init : EleNodes} {a : ℕ}
    {n n' : HashNodeEle} {eles' : Heap HashNodeEle} (hc : EleChain eles p (init ++ [(a, n)]) tl)
    (hread : ∀ x < eles.fresh, eles'.read x = if x = a then some n' else eles.read x)
    (hprev : n'.prevEle = n.prevEle) :
    Chain HashNodeEle.nextEle (fun pr n => n.prevEle = pr) eles' none p (init ++ [(a, n')])
      (some a) n'.nextEle := by
  have hnodup := Chain.nodup hc
  rw [List.map_append] at hnodup
  have hread' : ∀ x ∈ init.map Prod.fst, eles'.read x = eles.read x := by
    intro x hx
    have hne : x ≠ a := by
      rintro rfl
      exact (List.disjoint_of_nodup_append hnodup hx) (by simp)
    have hlt : x < eles.fresh := Chain.lt_fresh hc (by rw [List.map_append]; simp [hx])
    rw [hread x hlt, if_neg hne]
  refine Chain.write_last hc (fun t ht => hprev.trans ht) hread' ?_
  rw [hread a (Chain.lt_fresh hc (by simp)), if_pos rfl]

/-- What an insertion leaves, LSNs left aside. -/
structure Extended (eles : Heap HashNodeEle) (head : HashNodeHead)
    (chain : EleNodes) (eles' : Heap HashNodeEle) (head' : HashNodeHead)
    (chain' : EleNodes) : Prop where
  list : ListLinks eles' head' chain'
  place : SamePlace head head'
  frame : ListFrame eles eles' chain chain'

lemma ListLinks.headEntries (h : ListLinks eles head chain) {entries : Filled LsnEntry hashHeadNum}
    (hne : entries.toList ≠ []) (maxLsn : ℕ) :
    Extended eles head chain eles { head with lsnEntry := entries, maxLsn := maxLsn } chain :=
  ⟨⟨h.links, hne, h.ele_nonempty⟩, ⟨rfl, rfl, rfl, rfl, rfl⟩, ListFrame.refl⟩

section Tail

variable {init : EleNodes} {a : ℕ} {n n' : HashNodeEle}

lemma ListLinks.tail (h : ListLinks eles head (init ++ [(a, n)])) (maxLsn : ℕ)
    (hread : ∀ x, eles'.read x = if x = a then some n' else eles.read x)
    (hfresh : eles'.fresh = eles.fresh) (hprev : n'.prevEle = n.prevEle)
    (hnext : n'.nextEle = none) (hne : n'.lsnEntry.toList ≠ []) :
    Extended eles head (init ++ [(a, n)]) eles' { head with maxLsn := maxLsn }
      (init ++ [(a, n')]) := by
  refine ⟨⟨?_, h.head_nonempty, fun x hx => ?_⟩, ⟨rfl, rfl, rfl, rfl, rfl⟩, ⟨hfresh.ge, ?_, ?_⟩⟩
  · have hc := EleChain.write_tail h.links (fun x _ => hread x) hprev
    rw [hnext, ← h.tail_eq.1] at hc
    exact hc
  · rcases List.mem_append.mp hx with hx | hx
    · exact h.ele_nonempty x (List.mem_append_left _ hx)
    · rw [List.mem_singleton.mp hx]
      exact hne
  · intro x hx _
    rw [hread, if_neg]
    rintro rfl
    exact hx (by simp)
  · intro x hx
    exact Or.inl (by simpa using hx)

lemma ListLinks.newTail (h : ListLinks eles head (init ++ [(a, n)])) (hread : ∀ x, eles'.read x =
      if x = a then some { n with nextEle := some eles.fresh }
      else if x = eles.fresh then some (newEle lsn pageNum (some a)) else eles.read x)
    (hfresh : eles'.fresh = eles.fresh + 1) :
    Extended eles head (init ++ [(a, n)]) eles'
      { head with maxLsn := lsn, tailEle := some eles.fresh }
      (init ++ [(a, { n with nextEle := some eles.fresh })] ++
        [(eles.fresh, newEle lsn pageNum (some a))]) := by
  have ha : a < eles.fresh := Heap.lt_fresh h.tail_eq.2.1
  refine ⟨⟨?_, h.head_nonempty, fun x hx => ?_⟩, ⟨rfl, rfl, rfl, rfl, rfl⟩, ⟨by omega, ?_, ?_⟩⟩
  · have hread' : ∀ x < eles.fresh, eles'.read x =
        if x = a then some { n with nextEle := some eles.fresh } else eles.read x := by
      intro x hx
      rw [hread x, if_neg (show x ≠ eles.fresh by omega)]
    have hc := EleChain.write_tail h.links hread' rfl
    refine hc.snoc ?_ rfl
    rw [hread, if_neg (by omega), if_pos rfl]
  · rw [List.append_assoc] at hx
    rcases List.mem_append.mp hx with hx | hx
    · exact h.ele_nonempty x (List.mem_append_left _ hx)
    · rcases List.mem_cons.mp hx with rfl | hx
      · exact h.ele_nonempty (a, n) (by simp)
      · rw [List.mem_singleton.mp hx]
        exact List.cons_ne_nil _ _
  · intro x hx hxlt
    rw [hread, if_neg (by rintro rfl; exact hx (by simp)), if_neg (by omega)]
  · intro x hx
    simp only [List.map_append, List.map_cons, List.map_nil, List.mem_append,
      List.mem_singleton] at hx ⊢
    rcases hx with (hx | hx) | hx
    · exact Or.inl (Or.inl hx)
    · exact Or.inl (Or.inr hx)
    · exact Or.inr hx.ge

end Tail

lemma ListLinks.firstEle (h : ListLinks eles head []) (lsn : ℕ) (pageNum : ℤ) :
    Extended eles head [] (eles.alloc (newEle lsn pageNum none)).1
      { head with maxLsn := lsn, nextEle := some eles.fresh, tailEle := some eles.fresh }
      [(eles.fresh, newEle lsn pageNum none)] := by
  refine ⟨⟨⟨rfl, by simp [Heap.read_alloc], rfl, rfl, rfl⟩, h.head_nonempty, fun x hx => ?_⟩,
    ⟨rfl, rfl, rfl, rfl, rfl⟩, ⟨by simp, fun x _ hx => Heap.read_alloc_old hx, fun x hx => ?_⟩⟩
  · rw [List.mem_singleton.mp hx]
    exact List.cons_ne_nil _ _
  · simp only [List.map_cons, List.map_nil, List.mem_singleton] at hx
    exact Or.inr hx.ge

/-- **Where the page number goes**: into the last entry of the head array, or of the tail node. -/
lemma ListLinks.updatePageNum_cases (h : ListLinks eles head chain) (pageNum : ℤ) :
    (∃ b front x, chain = [] ∧
      GroundDB.updatePageNum head eles pageNum = some ({ head with lsnEntry := b }, eles) ∧
      head.lsnEntry.toList = front ++ [x] ∧
      b.toList = front ++ [{ x with pageNum := some pageNum }]) ∨
    ∃ init a n b front x eles', chain = init ++ [(a, n)] ∧
      GroundDB.updatePageNum head eles pageNum = some (head, eles') ∧
      (∀ y, eles'.read y = if y = a then some { n with lsnEntry := b } else eles.read y) ∧
      eles'.fresh = eles.fresh ∧ n.lsnEntry.toList = front ++ [x] ∧
      b.toList = front ++ [{ x with pageNum := some pageNum }] := by
  unfold GroundDB.updatePageNum
  rcases List.eq_nil_or_concat chain with rfl | ⟨init, ⟨a, n⟩, rfl⟩
  · have hcond : head.lsnEntry.toList.length ≤ hashHeadNum ∧ head.nextEle = none :=
      ⟨head.lsnEntry.length_le, h.links.1⟩
    obtain ⟨b, front, x, hb, hold, hnew⟩ :=
      Filled.modifyLast_spec h.head_nonempty fun e => { e with pageNum := some pageNum }
    exact Or.inl ⟨b, front, x, rfl, by simp [hcond, hb], hold, hnew⟩
  · rw [List.concat_eq_append] at h ⊢
    obtain ⟨htail, hr, _, hnext⟩ := h.tail_eq
    have hne : n.lsnEntry.toList ≠ [] := h.ele_nonempty (a, n) (by simp)
    obtain ⟨b, front, x, hb, hold, hnew⟩ :=
      Filled.modifyLast_spec hne fun e => { e with pageNum := some pageNum }
    obtain ⟨eles', hw, hfresh, hread⟩ := Heap.write_spec hr { n with lsnEntry := b }
    exact Or.inr ⟨init, a, n, b, front, x, eles', rfl, by simp [hnext, htail, hr, hb, hw], hread,
      hfresh, hold, hnew⟩

/-- **Where a new entry goes**: behind the entries of the head array while it has room, then into
the first element node, behind the entries of the tail node, or into a new tail node. -/
lemma ListLinks.appendEntry_cases (h : ListLinks eles head chain) (lsn : ℕ) (pageNum : ℤ) :
    (∃ b, head.lsnEntry.toList.length < hashHeadNum ∧
      GroundDB.appendEntry head eles lsn pageNum =
        some ({ head with lsnEntry := b, maxLsn := lsn }, eles) ∧
      b.toList = head.lsnEntry.toList ++ [⟨lsn, some pageNum⟩]) ∨
    head.lsnEntry.toList.length = hashHeadNum ∧
    ((chain = [] ∧ GroundDB.appendEntry head eles lsn pageNum =
        some ({ head with maxLsn := lsn, nextEle := some eles.fresh, tailEle := some eles.fresh },
          (eles.alloc (newEle lsn pageNum none)).1)) ∨
    ∃ init a n eles', chain = init ++ [(a, n)] ∧
      ((∃ b, GroundDB.appendEntry head eles lsn pageNum =
          some ({ head with maxLsn := lsn }, eles') ∧
        (∀ x, eles'.read x =
          if x = a then some { n with lsnEntry := b, maxLsn := lsn } else eles.read x) ∧
        eles'.fresh = eles.fresh ∧ b.toList = n.lsnEntry.toList ++ [⟨lsn, some pageNum⟩]) ∨
      n.lsnEntry.toList.length = hashElemNum ∧
        GroundDB.appendEntry head eles lsn pageNum =
          some ({ head with maxLsn := lsn, tailEle := some eles.fresh }, eles') ∧
        (∀ x, eles'.read x =
          if x = a then some { n with nextEle := some eles.fresh }
          else if x = eles.fresh then some (newEle lsn pageNum (some a)) else eles.read x) ∧
        eles'.fresh = eles.fresh + 1)) := by
  unfold GroundDB.appendEntry
  by_cases hroom : head.lsnEntry.toList.length < hashHeadNum
  · obtain ⟨b, hb, hbl⟩ := Filled.push_spec hroom ⟨lsn, some pageNum⟩
    exact Or.inl ⟨b, hroom, by simp [hroom, hb], hbl⟩
  refine Or.inr ⟨le_antisymm head.lsnEntry.length_le (not_lt.mp hroom), ?_⟩
  rcases List.eq_nil_or_concat chain with rfl | ⟨init, ⟨a, n⟩, rfl⟩
  · have htail : head.tailEle = none := h.links.2
    exact Or.inl ⟨rfl, by simp [hroom, htail]⟩
  · rw [List.concat_eq_append] at h ⊢
    obtain ⟨htail, hr, _, _⟩ := h.tail_eq
    right
    by_cases hsp : n.lsnEntry.toList.length < hashElemNum
    · obtain ⟨b, hb, hbl⟩ := Filled.push_spec hsp ⟨lsn, some pageNum⟩
      obtain ⟨eles', hw, hfresh, hread⟩ :=
        Heap.write_spec hr { n with lsnEntry := b, maxLsn := lsn }
      exact ⟨init, a, n, eles', rfl,
        Or.inl ⟨b, by simp [hroom, htail, hr, hsp, hb, hw], hread, hfresh, hbl⟩⟩
    · have hr' : (eles.alloc (newEle lsn pageNum (some a))).1.read a = some n := by
        rw [Heap.read_alloc_old (Heap.lt_fresh hr), hr]
      obtain ⟨eles', hw, hfresh, hread⟩ :=
        Heap.write_spec hr' { n with nextEle := some eles.fresh }
      exact ⟨init, a, n, eles', rfl,
        Or.inr ⟨le_antisymm n.lsnEntry.length_le (not_lt.mp hsp),
          by simp [hroom, htail, hr, hsp, hw], hread, hfresh⟩⟩

/-- Changing the last entry in place, wherever it stands. -/
lemma ListLinks.updatePageNum (h : ListLinks eles head chain) (pageNum : ℤ) :
    ∃ head' eles' chain' front e, GroundDB.updatePageNum head eles pageNum = some (head', eles') ∧
      Extended eles head chain eles' head' chain' ∧ listEntries head chain = front ++ [e] ∧
      listEntries head' chain' = front ++ [{ e with pageNum := some pageNum }] := by
  rcases h.updatePageNum_cases pageNum with
    ⟨b, front, x, rfl, hrun, hold, hnew⟩ |
    ⟨init, a, n, b, front, x, eles', rfl, hrun, hread, hfresh, hold, hnew⟩
  · exact ⟨_, eles, [], front, x, hrun, h.headEntries (by simp [hnew]) head.maxLsn,
      by simp [listEntries, hold], by simp [listEntries, hnew]⟩
  · exact ⟨head, eles', init ++ [(a, { n with lsnEntry := b })],
      head.lsnEntry.toList ++ eleEntries init ++ front, x, hrun,
      h.tail head.maxLsn hread hfresh rfl h.tail_eq.2.2.1 (by simp [hnew]),
      by simp [listEntries, hold], by simp [listEntries, hnew]⟩

/-- Storing a new entry, which becomes the last one where no node hangs behind a head with room. -/
lemma ListLinks.appendEntry (h : ListLinks eles head chain) (lsn : ℕ) (pageNum : ℤ) :
    ∃ head' eles' chain', GroundDB.appendEntry head eles lsn pageNum = some (head', eles') ∧
      Extended eles head chain eles' head' chain' ∧
      ((chain ≠ [] → head.lsnEntry.toList.length = hashHeadNum) →
        listEntries head' chain' = listEntries head chain ++ [⟨lsn, some pageNum⟩]) := by
  rcases h.appendEntry_cases lsn pageNum with
    ⟨b, hroom, hrun, hbl⟩ | ⟨_, ⟨rfl, hrun⟩ | ⟨init, a, n, eles', rfl,
      ⟨b, hrun, hread, hfresh, hbl⟩ | ⟨_, hrun, hread, hfresh⟩⟩⟩
  · refine ⟨_, eles, chain, hrun, h.headEntries (by simp [hbl]) lsn, fun hfull => ?_⟩
    obtain rfl : chain = [] := by_contra fun hne => hroom.ne (hfull hne)
    simp [listEntries, hbl]
  · exact ⟨_, _, _, hrun, h.firstEle lsn pageNum, fun _ => by simp [listEntries, newEle]⟩
  · exact ⟨_, eles', _, hrun, h.tail lsn hread hfresh rfl h.tail_eq.2.2.1 (by simp [hbl]),
      fun _ => by simp [listEntries, hbl]⟩
  · exact ⟨_, eles', _, hrun, h.newTail pageNum hread hfresh,
      fun _ => by simp [listEntries, newEle]⟩

/-- **An insertion** into a version list succeeds, whatever the LSNs. -/
lemma ListLinks.insertEntry (h : ListLinks eles head chain) (lsn : ℕ) (pageNum : ℤ) :
    ∃ head' eles' inserted chain',
      GroundDB.insertEntry head eles lsn pageNum = some (head', eles', inserted) ∧
      Extended eles head chain eles' head' chain' := by
  unfold GroundDB.insertEntry
  rcases lt_trichotomy head.maxLsn lsn with hlt | heq | hgt
  · obtain ⟨head', eles', chain', hrun, hext, _⟩ := h.appendEntry lsn pageNum
    exact ⟨head', eles', true, chain', by simp [not_lt.mpr hlt.le, hlt.ne, hrun], hext⟩
  · obtain ⟨head', eles', chain', _, _, hrun, hext, _⟩ := h.updatePageNum pageNum
    exact ⟨head', eles', true, chain', by simp [heq, hrun], hext⟩
  · exact ⟨head, eles, false, chain, by simp [hgt], h, SamePlace.refl head, ListFrame.refl⟩

/-! ## Lists in order -/

/-- What an insertion leaves behind when `new` was appended to the list. -/
structure Inserted (eles : Heap HashNodeEle) (head : HashNodeHead)
    (chain : EleNodes) (new : List ℕ) (eles' : Heap HashNodeEle)
    (head' : HashNodeHead) (chain' : EleNodes) : Prop where
  inv : VersionListInv eles' head' chain'
  frame : ListFrame eles eles' chain chain'
  place : SamePlace head head'
  replayed : head'.replayedLsn = head.replayedLsn
  lsns : listLsns head' chain' = listLsns head chain ++ new
  head_prefix : entryLsns head.lsnEntry.toList <+: entryLsns head'.lsnEntry.toList

namespace VersionListInv

variable (hinv : VersionListInv eles head chain)
include hinv

lemma increasing_append (hlt : head.maxLsn < lsn) :
    (listLsns head chain ++ [lsn]).Pairwise (· < ·) := by
  refine List.pairwise_append.mpr ⟨hinv.increasing, List.pairwise_singleton _ _, ?_⟩
  intro x hx y hy
  rw [List.mem_singleton.mp hy]
  exact lt_of_le_of_lt (hinv.le_maxLsn hx) hlt

lemma chain_eq_nil_of_room (hroom : head.lsnEntry.toList.length < hashHeadNum) : chain = [] := by
  by_contra hne
  have := hinv.head_full hne
  omega

lemma replayed_lt (hlt : head.maxLsn < lsn) : head.replayedLsn ≤ lsn :=
  hinv.replayed_le.trans hlt.le

end VersionListInv

section Tail

variable {init : EleNodes} {a : ℕ} {n n' : HashNodeEle} {new : List ℕ}
  {eles' : Heap HashNodeEle}

/-- Appending `new` to the entries of the tail node, in place. -/
lemma Inserted.of_write_tail (hinv : VersionListInv eles head (init ++ [(a, n)]))
    (hread : ∀ x, eles'.read x = if x = a then some n' else eles.read x)
    (hfresh : eles'.fresh = eles.fresh) (hprev : n'.prevEle = n.prevEle) (hnext : n'.nextEle = none)
    (hent : entryLsns n'.lsnEntry.toList = entryLsns n.lsnEntry.toList ++ new)
    (hmax : (entryLsns n'.lsnEntry.toList).getLast? = some n'.maxLsn)
    (hsorted : (listLsns head (init ++ [(a, n)]) ++ new).Pairwise (· < ·))
    (hle : head.maxLsn ≤ n'.maxLsn) :
    Inserted eles head (init ++ [(a, n)]) new eles' { head with maxLsn := n'.maxLsn }
      (init ++ [(a, n')]) := by
  have hlsns : listLsns { head with maxLsn := n'.maxLsn } (init ++ [(a, n')]) =
      listLsns head (init ++ [(a, n)]) ++ new := by
    simp [listLsns, hent]
  have hne : n'.lsnEntry.toList ≠ [] := by
    intro hnil
    rw [hnil] at hmax
    cases hmax
  have hext := hinv.listLinks.tail n'.maxLsn hread hfresh hprev hnext hne
  refine ⟨?_, hext.frame, hext.place, rfl, hlsns, List.prefix_rfl⟩
  refine ⟨hext.list.links, hlsns ▸ hsorted, hinv.head_nonempty, fun _ => hinv.head_full (by simp),
    ?_, ?_, ?_, hinv.replayed_le.trans hle⟩
  · intro x hx
    rw [List.dropLast_concat] at hx
    exact hinv.ele_full x (by rwa [List.dropLast_concat])
  · intro x hx
    rcases List.mem_append.mp hx with hx | hx
    · exact hinv.ele_max x (List.mem_append_left _ hx)
    · rw [List.mem_singleton.mp hx]
      exact hmax
  · obtain ⟨l, hl⟩ := List.getLast?_eq_some_iff.mp hmax
    simp [listLsns, hl, ← List.append_assoc]

lemma Inserted.of_new_tail (hinv : VersionListInv eles head (init ++ [(a, n)]))
    (hfull : n.lsnEntry.toList.length = hashElemNum) (hlt : head.maxLsn < lsn)
    (hread : ∀ x, eles'.read x =
      if x = a then some { n with nextEle := some eles.fresh }
      else if x = eles.fresh then some (newEle lsn pageNum (some a)) else eles.read x)
    (hfresh : eles'.fresh = eles.fresh + 1) :
    Inserted eles head (init ++ [(a, n)]) [lsn] eles'
      { head with maxLsn := lsn, tailEle := some eles.fresh }
      (init ++ [(a, { n with nextEle := some eles.fresh })] ++
        [(eles.fresh, newEle lsn pageNum (some a))]) := by
  have hnew : entryLsns (newEle lsn pageNum (some a)).lsnEntry.toList = [lsn] := rfl
  have hlsns : listLsns { head with maxLsn := lsn, tailEle := some eles.fresh }
      (init ++ [(a, { n with nextEle := some eles.fresh })] ++
        [(eles.fresh, newEle lsn pageNum (some a))]) =
      listLsns head (init ++ [(a, n)]) ++ [lsn] := by
    simp [listLsns, hnew]
  have hext := hinv.listLinks.newTail pageNum hread hfresh
  refine ⟨?_, hext.frame, hext.place, rfl, hlsns, List.prefix_rfl⟩
  refine ⟨hext.list.links, hlsns ▸ hinv.increasing_append hlt, hinv.head_nonempty,
    fun _ => hinv.head_full (by simp), ?_, ?_, ?_, hinv.replayed_lt hlt⟩
  · intro x hx
    rw [List.dropLast_concat] at hx
    rcases List.mem_append.mp hx with hx | hx
    · exact hinv.ele_full x (by rwa [List.dropLast_concat])
    · rw [List.mem_singleton.mp hx]
      exact hfull
  · intro x hx
    rw [List.append_assoc] at hx
    rcases List.mem_append.mp hx with hx | hx
    · exact hinv.ele_max x (List.mem_append_left _ hx)
    · rcases List.mem_cons.mp hx with rfl | hx
      · exact hinv.ele_max (a, n) (by simp)
      · rw [List.mem_singleton.mp hx]
        rfl
  · rw [hlsns, List.getLast?_concat]

end Tail

/-! ## Changing the head array -/

lemma Inserted.of_head {new : List ℕ} {head' : HashNodeHead}
    (hinv : VersionListInv eles head []) (hplace : SamePlace head head')
    (hrep : head'.replayedLsn = head.replayedLsn)
    (hnext : head'.nextEle = head.nextEle) (htail : head'.tailEle = head.tailEle)
    (hent : entryLsns head'.lsnEntry.toList = entryLsns head.lsnEntry.toList ++ new)
    (hsorted : (listLsns head [] ++ new).Pairwise (· < ·))
    (hmax : (entryLsns head'.lsnEntry.toList).getLast? = some head'.maxLsn)
    (hle : head.maxLsn ≤ head'.maxLsn) : Inserted eles head [] new eles head' [] := by
  have hlsns : listLsns head' [] = listLsns head [] ++ new := by simp [listLsns, hent]
  refine ⟨?_, ListFrame.refl, hplace, hrep, hlsns, hent ▸ List.prefix_append _ _⟩
  refine ⟨?_, hlsns ▸ hsorted, ?_, fun h => absurd rfl h, by simp, by simp, ?_,
    hrep ▸ hinv.replayed_le.trans hle⟩
  · rw [hnext, htail]
    exact hinv.links
  · intro hnil
    rw [hnil] at hmax
    cases hmax
  · simpa [listLsns] using hmax

lemma Inserted.of_first_ele (hinv : VersionListInv eles head [])
    (hfull : head.lsnEntry.toList.length = hashHeadNum) (hlt : head.maxLsn < lsn) :
    Inserted eles head [] [lsn] (eles.alloc (newEle lsn pageNum none)).1
      { head with maxLsn := lsn, nextEle := some eles.fresh, tailEle := some eles.fresh }
      [(eles.fresh, newEle lsn pageNum none)] := by
  have hnew : entryLsns (newEle lsn pageNum none).lsnEntry.toList = [lsn] := rfl
  have hext := hinv.listLinks.firstEle lsn pageNum
  refine ⟨?_, hext.frame, hext.place, rfl, by simp [listLsns, hnew], List.prefix_rfl⟩
  refine ⟨hext.list.links, ?_, hinv.head_nonempty, fun _ => hfull, by simp, ?_, ?_,
    hinv.replayed_lt hlt⟩
  · simpa [listLsns, hnew] using hinv.increasing_append hlt
  · intro x hx
    rw [List.mem_singleton.mp hx]
    rfl
  · simp [listLsns, hnew]

/-! ## The three cases of an insertion -/

lemma updatePageNum_spec (hinv : VersionListInv eles head chain) :
    ∃ head' eles' chain', updatePageNum head eles pageNum = some (head', eles') ∧
      Inserted eles head chain [] eles' head' chain' := by
  rcases hinv.listLinks.updatePageNum_cases pageNum with
    ⟨b, front, x, rfl, hrun, hold, hnew⟩ |
    ⟨init, a, n, b, front, x, eles', rfl, hrun, hread, hfresh, hold, hnew⟩
  · have hent : entryLsns b.toList = entryLsns head.lsnEntry.toList := by
      simp [entryLsns, hold, hnew]
    refine ⟨_, eles, [], hrun, ?_⟩
    refine Inserted.of_head hinv ⟨rfl, rfl, rfl, rfl, rfl⟩ rfl rfl rfl (by simpa using hent)
      (by simpa using hinv.increasing) ?_ le_rfl
    rw [hent]
    simpa [listLsns] using hinv.head_max
  · have hent : entryLsns b.toList = entryLsns n.lsnEntry.toList := by
      simp [entryLsns, hold, hnew]
    have hmax := hinv.ele_max (a, n) (by simp)
    have hins := Inserted.of_write_tail hinv hread hfresh rfl hinv.tail_eq.2.2.1
      (hent.trans (List.append_nil _).symm) (hent ▸ hmax) (by simpa using hinv.increasing)
      hinv.tail_max.ge
    exact ⟨head, eles', init ++ [(a, { n with lsnEntry := b })], hrun,
      by simpa only [hinv.tail_max] using hins⟩

lemma appendEntry_spec (hinv : VersionListInv eles head chain) (hlt : head.maxLsn < lsn) :
    ∃ head' eles' chain', appendEntry head eles lsn pageNum = some (head', eles') ∧
      Inserted eles head chain [lsn] eles' head' chain' := by
  rcases hinv.listLinks.appendEntry_cases lsn pageNum with
    ⟨b, hroom, hrun, hbl⟩ | ⟨hfull, ⟨rfl, hrun⟩ | ⟨init, a, n, eles', rfl,
      ⟨b, hrun, hread, hfresh, hbl⟩ | ⟨hfull', hrun, hread, hfresh⟩⟩⟩
  · obtain rfl := hinv.chain_eq_nil_of_room hroom
    refine ⟨_, eles, [], hrun, ?_⟩
    refine Inserted.of_head hinv ⟨rfl, rfl, rfl, rfl, rfl⟩ rfl rfl rfl ?_
      (hinv.increasing_append hlt) ?_ hlt.le
    · simp [hbl, entryLsns]
    · simp [hbl, entryLsns]
  · exact ⟨_, _, _, hrun, Inserted.of_first_ele pageNum hinv hfull hlt⟩
  · refine ⟨_, eles', init ++ [(a, { n with lsnEntry := b, maxLsn := lsn })], hrun, ?_⟩
    refine Inserted.of_write_tail hinv hread hfresh rfl hinv.tail_eq.2.2.1 ?_ ?_
      (hinv.increasing_append hlt) hlt.le
    · simp [hbl, entryLsns]
    · simp [hbl, entryLsns]
  · exact ⟨_, eles', _, hrun, Inserted.of_new_tail pageNum hinv hfull' hlt hread hfresh⟩

/-! ## The entries -/

/-- The entries after an insertion: an LSN from `maxLsn` on is stored behind the smaller ones. -/
def storeEntry (entries : List LsnEntry) (maxLsn lsn : ℕ) (pageNum : ℤ) : List LsnEntry :=
  if maxLsn ≤ lsn then (entries.filter fun e => e.lsn < lsn) ++ [⟨lsn, some pageNum⟩] else entries

section Entries

variable {eles' : Heap HashNodeEle} {head' : HashNodeHead} {chain' : EleNodes}

lemma updatePageNum_entries (hinv : VersionListInv eles head chain)
    (hrun : updatePageNum head eles pageNum = some (head', eles'))
    (hc : EleChain eles' head'.nextEle chain' head'.tailEle) :
    listEntries head' chain' =
      storeEntry (listEntries head chain) head.maxLsn head.maxLsn pageNum := by
  obtain ⟨head₁, eles₁, chain₁, front, e, hrun₁, hext, hold, hnew⟩ :=
    hinv.listLinks.updatePageNum pageNum
  obtain ⟨rfl, rfl⟩ : head₁ = head' ∧ eles₁ = eles' := by simpa [hrun₁] using hrun
  obtain rfl := Chain.unique hext.list.links hc
  -- the last entry holds the maximum, the others are below it
  have hsorted := hinv.increasing
  have hmax := hinv.head_max
  rw [← entryLsns_listEntries, hold, entryLsns, List.map_append] at hsorted hmax
  have hlast : e.lsn = head.maxLsn := by simpa using hmax
  have hfront : front.filter (fun x => x.lsn < e.lsn) = front := by
    rw [List.filter_eq_self]
    intro x hx
    simpa using (List.pairwise_append.mp hsorted).2.2 x.lsn (List.mem_map_of_mem hx) e.lsn
  simp [hnew, storeEntry, hold, ← hlast, hfront]

lemma appendEntry_entries (hinv : VersionListInv eles head chain) (hlt : head.maxLsn < lsn)
    (hrun : appendEntry head eles lsn pageNum = some (head', eles'))
    (hc : EleChain eles' head'.nextEle chain' head'.tailEle) :
    listEntries head' chain' = storeEntry (listEntries head chain) head.maxLsn lsn pageNum := by
  obtain ⟨head₁, eles₁, chain₁, hrun₁, hext, hnew⟩ := hinv.listLinks.appendEntry lsn pageNum
  obtain ⟨rfl, rfl⟩ : head₁ = head' ∧ eles₁ = eles' := by simpa [hrun₁] using hrun
  obtain rfl := Chain.unique hext.list.links hc
  have hall : (listEntries head chain).filter (fun x => x.lsn < lsn) = listEntries head chain := by
    rw [List.filter_eq_self]
    intro x hx
    have hmem : x.lsn ∈ listLsns head chain := by
      rw [← entryLsns_listEntries]
      exact List.mem_map_of_mem hx
    simpa using lt_of_le_of_lt (hinv.le_maxLsn hmem) hlt
  rw [hnew hinv.head_full, storeEntry, if_pos hlt.le, hall]

end Entries

/-- **What an insertion does to a version list**: it succeeds, appends the LSN exactly when it is
above the list's maximum, and stores the page number with it unless it is below. -/
theorem insertEntry_spec (hinv : VersionListInv eles head chain) (lsn : ℕ) (pageNum : ℤ) :
    ∃ head' eles' chain',
      insertEntry head eles lsn pageNum = some (head', eles', decide (head.maxLsn ≤ lsn)) ∧
      Inserted eles head chain (if head.maxLsn < lsn then [lsn] else []) eles' head' chain' ∧
      listEntries head' chain' =
        storeEntry (listEntries head chain) head.maxLsn lsn pageNum := by
  unfold insertEntry
  rcases lt_trichotomy head.maxLsn lsn with hlt | heq | hgt
  · obtain ⟨head', eles', chain', hrun, hins⟩ := appendEntry_spec pageNum hinv hlt
    refine ⟨head', eles', chain', ?_, by rwa [if_pos hlt],
      appendEntry_entries pageNum hinv hlt hrun hins.inv.links⟩
    simp [not_lt.mpr hlt.le, hlt.ne, hrun, hlt.le]
  · obtain ⟨head', eles', chain', hrun, hins⟩ := updatePageNum_spec pageNum hinv
    refine ⟨head', eles', chain', ?_, by rwa [if_neg heq.not_lt], ?_⟩
    · simp [heq, hrun]
    · rw [← heq]
      exact updatePageNum_entries pageNum hinv hrun hins.inv.links
  · refine ⟨head, eles, chain, by simp [hgt, not_le.mpr hgt], ?_⟩
    rw [if_neg (not_lt.mpr hgt.le), storeEntry, if_neg (not_le.mpr hgt)]
    exact ⟨⟨hinv, ListFrame.refl, SamePlace.refl head, rfl, by simp, List.prefix_rfl⟩, rfl⟩

/-- An LSN above the maximum becomes the maximum, and is pending. -/
lemma Inserted.append {eles' : Heap HashNodeEle} {head' : HashNodeHead}
    {chain' : EleNodes} (hinv : VersionListInv eles head chain)
    (h : Inserted eles head chain [lsn] eles' head' chain') (hlt : head.maxLsn < lsn) :
    head'.maxLsn = lsn ∧ pendingLsns head' chain' = pendingLsns head chain ++ [lsn] := by
  constructor
  · have hmax := h.inv.head_max
    rw [h.lsns, List.getLast?_concat, Option.some.injEq] at hmax
    exact hmax.symm
  · have hpos : head.replayedLsn < lsn := lt_of_le_of_lt hinv.replayed_le hlt
    simp [pendingLsns, h.lsns, h.replayed, hpos]

end GroundDB
