import GroundDB.HashMap.Operations

/-!
# Runs of the map

Any sequence of insertions, replay-list lookups, updates of `replayedLsn` and background passes,
starting from an empty map.  The results about version lists hold in every state such a run
reaches.

* `version_list_invariant`: every list is well formed and `replayedLsn` never decreases.
* `replay_list_exact`: what a lookup above `replayedLsn` returns.
* `background_pass_exact`: what one pass of the vacuumer does, and that over a whole run it
  applies every inserted LSN once and in order.
-/

namespace GroundDB

open PtrHeap Function

/-- A call on the map.  A background pass is given the head it works on. -/
inductive MapOp
  | insertKey (key : KeyType) (lsn : ℕ) (pageNum : ℤ) (noEmptyFirstSlot : Bool)
  | updateReplayedLsn (key : KeyType) (lsn : ℕ) (holdHeadLock : Bool)
  | getBlockReplayList (key : KeyType) (targetLsn : ℕ)
  | backgroundReplay (iter : ℕ)

/-- The map after a call. -/
def mapStep (m : HashMap) : MapOp → Option HashMap
  | .insertKey key lsn pageNum noEmptyFirstSlot =>
      (hashMapInsertKey m key lsn pageNum noEmptyFirstSlot).map Prod.fst
  | .updateReplayedLsn key lsn holdHeadLock =>
      (hashMapUpdateReplayedLsn m key lsn holdHeadLock).map Prod.fst
  | .getBlockReplayList key targetLsn => (hashMapGetBlockReplayList m key targetLsn).map Prod.fst
  | .backgroundReplay iter => (backgroundReplay m iter).map Prod.fst

/-- How the callers use the map: LSNs are positive, `replayedLsn` is only set to an LSN of the
key's own list, and a pass works on a head of the map. -/
def Allowed (m : HashMap) : MapOp → Prop
  | .insertKey _ lsn _ _ => 1 ≤ lsn
  | .updateReplayedLsn key lsn _ =>
      ∃ head chain, OnList m key head chain ∧ lsn ∈ listLsns head chain
  | .getBlockReplayList _ _ => True
  | .backgroundReplay iter => ∃ head, m.heads.read iter = some head

/-- One step of a run. -/
def MapStep (m : HashMap) (op : MapOp) (m' : HashMap) : Prop :=
  Allowed m op ∧ mapStep m op = some m'

/-- Every list is still there, and `replayedLsn` has not decreased. -/
def ReplayedGrows (m : HashMap) (chainOf : ℕ → EleNodes) (m' : HashMap)
    (chainOf' : ℕ → EleNodes) : Prop :=
  ∀ key head chain, pageList m chainOf key = some (head, chain) →
    ∃ head' chain', pageList m' chainOf' key = some (head', chain') ∧
      head.replayedLsn ≤ head'.replayedLsn

section Step

variable {m m' : HashMap} {chainOf chainOf' : ℕ → EleNodes} {key : KeyType}

lemma PageUpdate.replayedGrows {head' : HashNodeHead} {chain' : EleNodes}
    (h : PageUpdate m chainOf key m' chainOf' (some (head', chain')))
    (hle : ∀ head chain, pageList m chainOf key = some (head, chain) →
      head.replayedLsn ≤ head'.replayedLsn) : ReplayedGrows m chainOf m' chainOf' := by
  intro k head chain hlist
  by_cases hk : k = key
  · subst hk
    exact ⟨head', chain', h.here, hle head chain hlist⟩
  · exact ⟨head, chain, (h.others k hk).trans hlist, le_rfl⟩

/-- **One step**: an allowed call succeeds, and keeps the invariant. -/
theorem mapStep_spec (hm : MapInv m chainOf) {op : MapOp} (hop : Allowed m op) :
    ∃ m' chainOf', mapStep m op = some m' ∧ MapInv m' chainOf' ∧
      ReplayedGrows m chainOf m' chainOf' := by
  cases op with
  | insertKey key lsn pageNum noEmptyFirstSlot =>
      rcases hashMapInsertKey_spec hm key pageNum noEmptyFirstSlot fun _ => hop with
        ⟨hnone, m', chainOf', nextHead, hrun, hup⟩ |
        ⟨head, chain, hlist, m', chainOf', head', chain', hrun, hup, hins, _⟩
      · refine ⟨m', chainOf', by simp [mapStep, hrun], hup.inv, hup.replayedGrows ?_⟩
        intro head chain hlist
        rw [hnone] at hlist
        cases hlist
      · refine ⟨m', chainOf', by simp [mapStep, hrun], hup.inv, hup.replayedGrows ?_⟩
        intro g c hg
        obtain ⟨rfl, rfl⟩ : head = g ∧ chain = c := by simpa [hlist] using hg
        exact hins.replayed.ge
  | updateReplayedLsn key lsn holdHeadLock =>
      obtain ⟨full, chain, hon, hlsn⟩ := hop
      have hlist := (onList_iff_pageList hm).mp ⟨full, hon, rfl⟩
      have hle : lsn ≤ full.core.maxLsn := (hm.onList_inv hon).le_maxLsn hlsn
      obtain ⟨m', chainOf', hrun, hup⟩ := hashMapUpdateReplayedLsn_spec hm hlist hle holdHeadLock
      refine ⟨m', chainOf', by simp [mapStep, hrun], hup.inv, hup.replayedGrows ?_⟩
      intro g c hg
      obtain ⟨rfl, rfl⟩ : full.core = g ∧ chain = c := by simpa [hlist] using hg
      exact le_max_left _ _
  | getBlockReplayList key targetLsn =>
      rcases hashMapGetBlockReplayList_spec hm key targetLsn with
        ⟨_, hrun⟩ | ⟨head, chain, hlist, m', answer, hrun, _, hup⟩
      · exact ⟨m, chainOf, by simp [mapStep, hrun], hm, fun k g c hg => ⟨g, c, hg, le_rfl⟩⟩
      · refine ⟨m', chainOf, by simp [mapStep, hrun], hup.inv, hup.replayedGrows ?_⟩
        intro g c hg
        obtain ⟨rfl, rfl⟩ : head = g ∧ chain = c := by simpa [hlist] using hg
        exact le_rfl
  | backgroundReplay iter =>
      obtain ⟨full, hr⟩ := hop
      obtain ⟨m', chainOf', head', lsnList, k, hrun, hup, hlist, hrep⟩ :=
        backgroundReplay_spec hm hr
      refine ⟨m', chainOf', by simp [mapStep, hrun], hup.inv, hup.replayedGrows ?_⟩
      intro g c hg
      obtain ⟨rfl, rfl⟩ : full.core = g ∧ chainOf iter = c := by simpa [hlist] using hg
      exact hrep.replayed_ge

lemma MapStep.inv {op : MapOp} (h : MapStep m op m') (hm : MapInv m chainOf) :
    ∃ chainOf', MapInv m' chainOf' ∧ ReplayedGrows m chainOf m' chainOf' := by
  obtain ⟨m'', chainOf', hrun, hm', hgrow⟩ := mapStep_spec hm h.1
  obtain rfl : m'' = m' := by simpa [hrun] using h.2
  exact ⟨chainOf', hm', hgrow⟩

lemma ReplayedGrows.trans {m'' : HashMap} {chainOf'' : ℕ → EleNodes}
    (h : ReplayedGrows m chainOf m' chainOf') (h' : ReplayedGrows m' chainOf' m'' chainOf'') :
    ReplayedGrows m chainOf m'' chainOf'' := by
  intro key head chain hlist
  obtain ⟨head', chain', hlist', hle⟩ := h key head chain hlist
  obtain ⟨head'', chain'', hlist'', hle'⟩ := h' key head' chain' hlist'
  exact ⟨head'', chain'', hlist'', hle.trans hle'⟩

lemma run_inv {tr : List MapOp} (hrun : Lts.Run MapStep m tr m') (hm : MapInv m chainOf) :
    ∃ chainOf', MapInv m' chainOf' ∧ ReplayedGrows m chainOf m' chainOf' := by
  induction hrun with
  | nil => exact ⟨chainOf, hm, fun _ head chain hlist => ⟨head, chain, hlist, le_rfl⟩⟩
  | snoc _ hs ih =>
      obtain ⟨chainOf₁, hm₁, hgrow₁⟩ := ih
      obtain ⟨chainOf₂, hm₂, hgrow₂⟩ := hs.inv hm₁
      exact ⟨chainOf₂, hm₂, hgrow₁.trans hgrow₂⟩

lemma reachable_inv {n : ℕ} {hn : 0 < n} {tr : List MapOp}
    (hrun : Lts.Run MapStep (hashMapInit n hn) tr m) : ∃ chainOf, MapInv m chainOf := by
  obtain ⟨chainOf, hm, _⟩ := run_inv hrun (mapInv_init n hn fun _ => [])
  exact ⟨chainOf, hm⟩

/-! ### Heads stay where they are -/

/-- Every head is still at its address, for the same key, and its maximum has not decreased. -/
def HeadsStay (heads heads' : Heap HashNodeHead) : Prop :=
  ∀ a head, heads.read a = some head →
    ∃ head', heads'.read a = some head' ∧ head'.key = head.key ∧ head.maxLsn ≤ head'.maxLsn

lemma HeadsStay.trans {heads heads' heads'' : Heap HashNodeHead} (h : HeadsStay heads heads')
    (h' : HeadsStay heads' heads'') : HeadsStay heads heads'' := by
  intro a head hr
  obtain ⟨head', hr', hkey, hle⟩ := h a head hr
  obtain ⟨head'', hr'', hkey', hle'⟩ := h' a head' hr'
  exact ⟨head'', hr'', hkey'.trans hkey, hle.trans hle'⟩

lemma SameCores.headsStay {heads heads' : Heap HashNodeHead} (h : SameCores heads heads') :
    HeadsStay heads heads' := by
  intro a head hr
  obtain ⟨head', hr', hcore⟩ := h.symm.read hr
  exact ⟨head', hr', by rw [core_fields hcore.symm], by rw [core_fields hcore.symm]⟩

lemma HeadsStay.of_write {heads heads' : Heap HashNodeHead} {a : ℕ} {head head' : HashNodeHead}
    (hr : heads.read a = some head) (hw : heads.write a head' = some heads')
    (hkey : head'.key = head.key) (hle : head.maxLsn ≤ head'.maxLsn) :
    HeadsStay heads heads' := by
  obtain ⟨h₁, hw₁, _, hread⟩ := Heap.write_spec hr head'
  obtain rfl : h₁ = heads' := Option.some.inj (hw₁.symm.trans hw)
  intro b g hg
  by_cases hb : b = a
  · subst hb
    obtain rfl : head = g := Option.some.inj (hr.symm.trans hg)
    exact ⟨head', by rw [hread, if_pos rfl], hkey, hle⟩
  · exact ⟨g, by rw [hread, if_neg hb, hg], rfl, le_rfl⟩

lemma Inserted.maxLsn_le {eles eles' : Heap HashNodeEle} {head head' : HashNodeHead}
    {chain chain' : EleNodes} {new : List ℕ} (hinv : VersionListInv eles head chain)
    (h : Inserted eles head chain new eles' head' chain') : head.maxLsn ≤ head'.maxLsn := by
  refine h.inv.le_maxLsn ?_
  rw [h.lsns]
  exact List.mem_append_left _ (List.mem_of_getLast? hinv.head_max)

lemma hashMapUpdateReplayedLsn_headsStay (hm : MapInv m chainOf) {lsn : ℕ} {holdHeadLock : Bool}
    {result : HashMap × Bool × List LockOp}
    (hcall : hashMapUpdateReplayedLsn m key lsn holdHeadLock = some result) :
    HeadsStay m.heads result.1.heads := by
  obtain ⟨buckets, hs⟩ := hm
  rcases hs.find_cases key with ⟨hfind, _, _⟩ | ⟨a, full, hfind, hr, _, _⟩
  · obtain rfl : (m, false, []) = result := by
      simpa [hashMapUpdateReplayedLsn, hfind] using hcall
    exact SameCores.headsStay fun _ => rfl
  · obtain ⟨heads', hw, _⟩ := Heap.write_spec hr { full with replayedLsn := lsn }
    by_cases hlt : full.replayedLsn < lsn
    · simp only [hashMapUpdateReplayedLsn, hfind, hr, hlt, hw, Option.bind_eq_bind,
        Option.bind_some, if_true, Option.some.injEq] at hcall
      subst hcall
      exact .of_write hr hw rfl le_rfl
    · simp only [hashMapUpdateReplayedLsn, hfind, hr, hlt, Option.bind_eq_bind,
        Option.bind_some, if_false, Option.some.injEq] at hcall
      subst hcall
      exact SameCores.headsStay fun _ => rfl

lemma MapStep.headsStay {op : MapOp} (h : MapStep m op m') (hm : MapInv m chainOf) :
    HeadsStay m.heads m'.heads := by
  obtain ⟨hop, hstep⟩ := h
  have ⟨_, hs⟩ := hm
  cases op with
  | insertKey key lsn pageNum noEmptyFirstSlot =>
      rcases hs.find_cases key with ⟨hfind, _, hnew⟩ | ⟨a, full, hfind, hr, _, _⟩
      · obtain ⟨m₁, _, hrun, _, _, hcores, _⟩ := hs.createHead versionListInv_listProp
          (newHead_inv m.eles key _ pageNum noEmptyFirstSlot _ fun _ => hop) hnew
        obtain rfl : m₁ = m' := by simpa [mapStep, hashMapInsertKey, hfind, hrun] using hstep
        intro b g hg
        have hcore := hcores b (Heap.lt_fresh hg).ne
        rw [hg, Option.map_some] at hcore
        obtain ⟨g', hg', heq⟩ := Option.map_eq_some_iff.mp hcore
        exact ⟨g', hg', by rw [core_fields heq], by rw [core_fields heq]⟩
      · obtain ⟨m₁, _, hrun₁, hs₁, hcore₁, _⟩ := hs.moveToFront versionListInv_listProp hr
        obtain ⟨full₁, hr₁, _⟩ := hcore₁.symm.read hr
        obtain ⟨full', eles', chain', hrun, hins, _⟩ :=
          insertEntry_spec (hs₁.lists a full₁ hr₁) lsn pageNum
        obtain ⟨heads', hw, _⟩ := Heap.write_spec hr₁ full'
        obtain rfl : { m₁ with heads := heads', eles := eles' } = m' := by
          simpa [mapStep, hashMapInsertKey, hfind, hrun₁, hr₁, hrun, hw] using hstep
        exact hcore₁.headsStay.trans
          (.of_write hr₁ hw hins.place.key (hins.maxLsn_le (hs₁.lists a full₁ hr₁)))
  | updateReplayedLsn key lsn holdHeadLock =>
      obtain ⟨result, hcall, rfl⟩ := Option.map_eq_some_iff.mp hstep
      exact hashMapUpdateReplayedLsn_headsStay hm hcall
  | getBlockReplayList key targetLsn =>
      rcases hs.find_cases key with ⟨hfind, _, _⟩ | ⟨a, full, hfind, hr, _, _⟩
      · obtain rfl : m = m' := by simpa [mapStep, hashMapGetBlockReplayList, hfind] using hstep
        exact SameCores.headsStay fun _ => rfl
      · obtain ⟨m₁, _, hrun₁, _, hcore₁, _⟩ := hs.moveToFront versionListInv_listProp hr
        have hanswer : ((m₁.heads.read a).bind fun head =>
            (getBlockReplayList head m₁.eles targetLsn).bind fun _ => some m₁) = some m' := by
          simpa [mapStep, hashMapGetBlockReplayList, hfind, hrun₁] using hstep
        obtain ⟨_, _, hanswer⟩ := Option.bind_eq_some_iff.mp hanswer
        obtain ⟨_, _, hanswer⟩ := Option.bind_eq_some_iff.mp hanswer
        obtain rfl : m₁ = m' := Option.some.inj hanswer
        exact hcore₁.headsStay
  | backgroundReplay iter =>
      obtain ⟨full, hr⟩ := hop
      obtain ⟨head', eles', lsnList, k, hrun, hrep⟩ := replayHeadNode_spec (hm.list hr)
      obtain ⟨heads', hw, _⟩ := Heap.write_spec hr head'
      obtain rfl : { m with heads := heads', eles := eles' } = m' := by
        simpa [mapStep, backgroundReplay, hr, hrun, hw] using hstep
      exact .of_write hr hw hrep.place.key hrep.maxLsn.ge

end Step

/-- What can be decided of `Allowed`. -/
def HashMap.ready (m : HashMap) : MapOp → Bool
  | .insertKey _ lsn _ _ => 1 ≤ lsn
  | .updateReplayedLsn _ _ _ => false
  | .getBlockReplayList _ _ => true
  | .backgroundReplay iter => (m.heads.read iter).isSome

/-- The map after calls that can be decided to be allowed. -/
def HashMap.calls (m : HashMap) (tr : List MapOp) : Option HashMap :=
  tr.foldlM (fun m op => if HashMap.ready m op then mapStep m op else none) m

/-- A run that is computed, with what was computed of its last state. -/
lemma exists_mapRun {m : HashMap} {tr : List MapOp} {p : HashMap → Bool}
    (h : (m.calls tr).any p = true) :
    ∃ m', Lts.Run MapStep m tr m' ∧ p m' = true := by
  obtain ⟨m', hrun, hp⟩ :=
    Lts.exists_guarded_run_of_any (C := fun m op => HashMap.ready m op = true) h
  refine ⟨m', hrun.mono ?_, hp⟩
  rintro m op m' ⟨hready, hstep⟩
  refine ⟨?_, hstep⟩
  cases op with
  | insertKey key lsn pageNum noEmptyFirstSlot => exact of_decide_eq_true (p := 1 ≤ lsn) hready
  | updateReplayedLsn key lsn holdHeadLock => cases hready
  | getBlockReplayList key targetLsn => trivial
  | backgroundReplay iter => exact Option.isSome_iff_exists.mp hready

/-- Insertions of the LSNs 10, 20, …, 460 for a page: 15 fill the head, 30 an element node, and the
last is in a second one. -/
def longList : List MapOp :=
  (List.range 46).map fun i => .insertKey (blockKey 7) (10 * (i + 1)) 0 true

/-! ## Results -/

/-- **The version-list invariant.**  In every state a run reaches: every key's list is well formed
and acyclic; every allowed call succeeds; and however the run goes on, the list stays and its
`replayedLsn` does not decrease. -/
theorem version_list_invariant {n : ℕ} {hn : 0 < n} {tr : List MapOp} {m : HashMap}
    (hrun : Lts.Run MapStep (hashMapInit n hn) tr m) :
    (∀ key head, m.headOf key = some head →
      ∃ chain, VersionListInv m.eles head chain ∧ (chain.map Prod.fst).Nodup) ∧
    (∀ op, Allowed m op → ∃ m', MapStep m op m') ∧
    ∀ tr' m', Lts.Run MapStep m tr' m' → ∀ key head, m.headOf key = some head →
      ∃ head', m'.headOf key = some head' ∧ head.replayedLsn ≤ head'.replayedLsn := by
  obtain ⟨chainOf, hm⟩ := reachable_inv hrun
  refine ⟨fun key head hhead => ?_, fun op hop => ?_, fun tr' m' hrun' key head hhead => ?_⟩
  · obtain ⟨chain, hon⟩ := (headOf_eq_some hm).mp hhead
    exact ⟨chain, hm.onList_inv hon, Chain.nodup hon.2⟩
  · obtain ⟨m', _, hstep, _, _⟩ := mapStep_spec hm hop
    exact ⟨m', hop, hstep⟩
  · obtain ⟨chain, hon⟩ := (headOf_eq_some hm).mp hhead
    obtain ⟨chainOf', hm', hgrow⟩ := run_inv hrun' hm
    obtain ⟨head', chain', hlist', hle⟩ := hgrow key head.core chain
      ((onList_iff_pageList hm).mp ⟨head, hon, rfl⟩)
    obtain ⟨full, hon', rfl⟩ := (onList_iff_pageList hm').mpr hlist'
    exact ⟨full, hon'.1, hle⟩

/-- A list with two element nodes, replayed by three background passes: the first node is freed. -/
theorem version_list_invariant_freed_node :
    ∃ m m', Lts.Run MapStep (hashMapInit 1023 (by decide)) longList m ∧
      (m.eles.read 0).isSome = true ∧ (m.eles.read 1).isSome = true ∧
      Lts.Run MapStep m [.backgroundReplay 0, .backgroundReplay 0, .backgroundReplay 0] m' ∧
      (m'.eles.read 0).isSome = false ∧
      (∀ key head, m'.headOf key = some head →
        ∃ chain, VersionListInv m'.eles head chain ∧ (chain.map Prod.fst).Nodup) ∧
      ∀ head, m.headOf (blockKey 7) = some head →
        ∃ head', m'.headOf (blockKey 7) = some head' ∧ head.replayedLsn ≤ head'.replayedLsn := by
  have hrun : ∃ m, Lts.Run MapStep (hashMapInit 1023 (by decide)) longList m ∧
      ((m.eles.read 0).isSome && (m.eles.read 1).isSome &&
        (m.calls [.backgroundReplay 0, .backgroundReplay 0, .backgroundReplay 0]).any
          fun m => (m.eles.read 0).isNone) = true := exists_mapRun (by decide +kernel)
  obtain ⟨m, hrun, hp⟩ := hrun
  simp only [Bool.and_eq_true] at hp
  obtain ⟨m', hrun', hfreed⟩ := exists_mapRun hp.2
  exact ⟨m, m', hrun, hp.1.1, hp.1.2, hrun', by simpa using hfreed,
    (version_list_invariant (hrun.append hrun')).1,
    (version_list_invariant hrun).2.2 _ m' hrun' (blockKey 7)⟩

/-- **Replay lists are exact.**  On every list a run reaches, a lookup above `replayedLsn` reports
`replayedLsn` as the base and exactly the LSNs of the list in `(replayedLsn, targetLsn]`, in
increasing order. -/
theorem replay_list_exact {n : ℕ} {hn : 0 < n} {tr : List MapOp} {m : HashMap}
    (hrun : Lts.Run MapStep (hashMapInit n hn) tr m) {key : KeyType} {head : HashNodeHead}
    {chain : EleNodes} (hon : OnList m key head chain) {targetLsn : ℕ}
    (hlt : head.replayedLsn < targetLsn) :
    ∃ m' answer list, hashMapGetBlockReplayList m key targetLsn = some (m', answer) ∧
      answer.result = some list ∧ list.replayedLsn = head.replayedLsn ∧
      list.toReplayList =
        (listLsns head chain).filter (fun x => head.replayedLsn < x ∧ x ≤ targetLsn) ∧
      list.toReplayList.Pairwise (· < ·) ∧ list.listLen = list.toReplayList.length := by
  obtain ⟨chainOf, hm⟩ := reachable_inv hrun
  have hlist := (onList_iff_pageList hm).mp ⟨head, hon, rfl⟩
  have hinv := hm.onList_inv hon
  rcases hashMapGetBlockReplayList_spec hm key targetLsn with
    ⟨hnone, _⟩ | ⟨g, c, hg, m', answer, hcall, hans, _⟩
  · rw [hnone] at hlist
    cases hlist
  obtain ⟨rfl, rfl⟩ : head.core = g ∧ chain = c := by simpa [hlist] using hg
  rw [getBlockReplayList_core, getBlockReplayList_newer hinv hlt, Option.some.injEq] at hans
  subst hans
  exact ⟨m', _, _, hcall, rfl, rfl, rfl, hinv.increasing.filter _, rfl⟩

/-- Of the LSNs in the head and two element nodes the 45 up to 455 are to be replayed. -/
theorem replay_list_exact_up_to_455 :
    ∃ m head chain m' answer list, Lts.Run MapStep (hashMapInit 1023 (by decide)) longList m ∧
      OnList m (blockKey 7) head chain ∧ (m.eles.read 1).isSome = true ∧
      hashMapGetBlockReplayList m (blockKey 7) 455 = some (m', answer) ∧
      answer.result = some list ∧ list.replayedLsn = head.replayedLsn ∧
      list.toReplayList =
        (listLsns head chain).filter (fun x => head.replayedLsn < x ∧ x ≤ 455) ∧
      list.listLen = 45 := by
  have hrun : ∃ m, Lts.Run MapStep (hashMapInit 1023 (by decide)) longList m ∧
      ((m.eles.read 1).isSome && (m.headOf (blockKey 7)).any (·.replayedLsn < 455) &&
        (hashMapGetBlockReplayList m (blockKey 7) 455).any fun r =>
          r.2.result.any (·.listLen = 45)) = true := exists_mapRun (by decide +kernel)
  obtain ⟨m, hrun, hp⟩ := hrun
  simp only [Bool.and_eq_true] at hp
  obtain ⟨⟨hele, hhead⟩, hlen⟩ := hp
  obtain ⟨head, hhead, hlt⟩ := (Option.any_eq_true ..).mp hhead
  obtain ⟨chainOf, hm⟩ := reachable_inv hrun
  obtain ⟨chain, hon⟩ := (headOf_eq_some hm).mp hhead
  obtain ⟨m', answer, list, hcall, hres, hbase, hlist, -⟩ :=
    replay_list_exact hrun hon (of_decide_eq_true hlt)
  refine ⟨m, head, chain, m', answer, list, hrun, hon, hele, hcall, hres, hbase, hlist, ?_⟩
  simpa [hcall, hres] using hlen

/-! ### The vacuumer over whole runs -/

/-- The map, with the LSNs inserted for each key and those the vacuumer has applied. -/
structure VacState where
  map : HashMap
  inserted : KeyType → List ℕ
  applied : KeyType → List ℕ

/-- Insertions, and passes of the vacuumer. -/
inductive VacOp
  | insertKey (key : KeyType) (lsn : ℕ) (pageNum : ℤ) (noEmptyFirstSlot : Bool)
  | pass (iter : ℕ)

/-- A run that mixes passes with insertions of increasing LSNs. -/
def VacStep (s : VacState) : VacOp → VacState → Prop
  | .insertKey key lsn pageNum noEmptyFirstSlot, s' =>
      1 ≤ lsn ∧ (∀ x ∈ s.inserted key, x < lsn) ∧
      (∃ inserted, hashMapInsertKey s.map key lsn pageNum noEmptyFirstSlot =
        some (s'.map, inserted)) ∧
      s'.inserted = update s.inserted key (s.inserted key ++ [lsn]) ∧
      s'.applied = s.applied
  | .pass iter, s' =>
      ∃ head lsnList, s.map.heads.read iter = some head ∧
        backgroundReplay s.map iter = some (s'.map, lsnList) ∧
        s'.inserted = s.inserted ∧
        s'.applied = update s.applied head.key (s.applied head.key ++ lsnList)

/-- The empty map, nothing inserted or applied yet. -/
def VacState.init (n : ℕ) (hn : 0 < n) : VacState := ⟨hashMapInit n hn, fun _ => [], fun _ => []⟩

/-- What was applied and what is pending is what was inserted. -/
def LogOk (inserted applied : List ℕ) : Option (HashNodeHead × EleNodes) → Prop
  | none => inserted = [] ∧ applied = []
  | some (head, chain) =>
      applied ++ pendingLsns head chain = inserted ∧ inserted.Pairwise (· < ·) ∧
        head.maxLsn ∈ inserted

/-- The invariant of such a run. -/
def VacInv (s : VacState) : Prop :=
  ∃ chainOf, MapInv s.map chainOf ∧
    ∀ key, LogOk (s.inserted key) (s.applied key) (pageList s.map chainOf key)

lemma vacInv_init (n : ℕ) (hn : 0 < n) : VacInv (VacState.init n hn) := by
  refine ⟨fun _ => [], mapInv_init n hn _, fun key => ?_⟩
  change LogOk [] [] (pageList (hashMapInit n hn) _ key)
  rw [pageList_init]
  exact ⟨rfl, rfl⟩

lemma LogOk.insert {m m' : HashMap} {chainOf : ℕ → EleNodes} {key : KeyType}
    {lsn : ℕ} {pageNum : ℤ} {noEmptyFirstSlot result : Bool} {inserted applied : List ℕ}
    (hm : MapInv m chainOf) (hlsn : 1 ≤ lsn) (hgt : ∀ x ∈ inserted, x < lsn)
    (hlog : LogOk inserted applied (pageList m chainOf key))
    (hcall : hashMapInsertKey m key lsn pageNum noEmptyFirstSlot = some (m', result)) :
    ∃ chainOf' list, PageUpdate m chainOf key m' chainOf' list ∧
      LogOk (inserted ++ [lsn]) applied list := by
  rcases hashMapInsertKey_spec hm key pageNum noEmptyFirstSlot fun _ => hlsn with
    ⟨hnone, m'', chainOf', nextHead, hrun, hup⟩ |
    ⟨head, chain, hlist, m'', chainOf', head', chain', hrun, hup, hins, _⟩
  · obtain rfl : m'' = m' := by simpa [hrun] using congrArg (Option.map Prod.fst) hcall
    rw [hnone] at hlog
    obtain ⟨rfl, rfl⟩ := hlog
    refine ⟨chainOf', _, hup, ?_, by simp, by simp [newHead, HashNodeHead.core]⟩
    exact newHead_pending key _ pageNum noEmptyFirstSlot nextHead hlsn
  · obtain rfl : m'' = m' := by simpa [hrun] using congrArg (Option.map Prod.fst) hcall
    rw [hlist] at hlog
    obtain ⟨hsum, hsorted, hmax⟩ := hlog
    have hlt := hgt _ hmax
    rw [if_pos hlt] at hins
    obtain ⟨hmax', hpend⟩ := hins.append (hm.pageList_inv hlist).1 hlt
    refine ⟨chainOf', _, hup, ?_, ?_, ?_⟩
    · rw [hpend, ← List.append_assoc, hsum]
    · exact List.pairwise_append.mpr ⟨hsorted, by simp, by simpa using hgt⟩
    · rw [hmax']
      simp

/-- **The log along a run**: every step keeps what was applied and what is pending equal to what
was inserted. -/
theorem VacStep.inv {s s' : VacState} {op : VacOp} (hinv : VacInv s) (h : VacStep s op s') :
    VacInv s' := by
  obtain ⟨chainOf, hm, hlog⟩ := hinv
  cases op with
  | insertKey key lsn pageNum noEmptyFirstSlot =>
      obtain ⟨hlsn, hgt, ⟨result, hcall⟩, hinserted, happlied⟩ := h
      obtain ⟨chainOf', list, hup, hlog'⟩ := LogOk.insert hm hlsn hgt (hlog key) hcall
      refine ⟨chainOf', hup.inv, fun k => ?_⟩
      rw [hinserted, happlied]
      by_cases hk : k = key
      · subst hk
        rwa [update_self, hup.here]
      · rw [update_of_ne hk, hup.others k hk]
        exact hlog k
  | pass iter =>
      obtain ⟨head, lsnList, hr, hcall, hinserted, happlied⟩ := h
      obtain ⟨m', chainOf', head', lsnList', k, hrun, hup, hlist, hrep⟩ :=
        backgroundReplay_spec hm hr
      obtain ⟨rfl, rfl⟩ : m' = s'.map ∧ lsnList' = lsnList := by simpa [hrun] using hcall
      refine ⟨chainOf', hup.inv, fun k' => ?_⟩
      rw [hinserted, happlied]
      by_cases hk : k' = head.key
      · subst hk
        have hold := hlog head.key
        rw [hlist] at hold
        obtain ⟨hsum, hsorted, hmax⟩ := hold
        rw [update_self, hup.here]
        refine ⟨?_, hsorted, by rw [hrep.maxLsn]; exact hmax⟩
        rw [hrep.pending (hm.pageList_inv hlist).1, hrep.applied, List.append_assoc,
          List.take_append_drop, hsum]
      · rw [update_of_ne hk, hup.others k' hk]
        exact hlog k'

/-- **A pass of the vacuumer is exact.**  On every list a run reaches, a pass applies the first
`maxReplayVersionSize` pending LSNs, which stand next to each other in the list, sets `replayedLsn`
to the last of them, and frees only nodes of the list that are replayed entirely, never the tail.
Hence in every run of passes and insertions of increasing LSNs, what the vacuumer has applied,
followed by what is pending, is what was inserted. -/
theorem background_pass_exact (n : ℕ) (hn : 0 < n) :
    (∀ tr m, Lts.Run MapStep (hashMapInit n hn) tr m → ∀ iter head chain,
      m.heads.read iter = some head → OnList m head.key head chain →
      ∃ m' lsnList head', backgroundReplay m iter = some (m', lsnList) ∧
        m'.headOf head.key = some head' ∧
        lsnList = (pendingLsns head chain).take maxReplayVersionSize ∧
        (∃ rest, listLsns head chain =
          (listLsns head chain).filter (· ≤ head.replayedLsn) ++ lsnList ++ rest) ∧
        head'.replayedLsn = lsnList.getLast?.getD head.replayedLsn ∧
        ∀ a ele, m.eles.read a = some ele → m'.eles.read a = none →
          (a, ele) ∈ chain ∧ (∀ x ∈ entryLsns ele.lsnEntry.toList, x ≤ head'.replayedLsn) ∧
            head.tailEle ≠ some a) ∧
    ∀ tr s, Lts.Run VacStep (VacState.init n hn) tr s → ∀ key head chain,
      OnList s.map key head chain →
      s.applied key ++ pendingLsns head chain = s.inserted key ∧
        (s.inserted key).Pairwise (· < ·) := by
  constructor
  · intro tr m hrun iter head chain hr hon
    obtain ⟨chainOf, hm⟩ := reachable_inv hrun
    obtain ⟨m', chainOf', head', lsnList, k, hcall, hup, hlist, hrep⟩ :=
      backgroundReplay_spec hm hr
    have hlist' := (onList_iff_pageList hm).mp ⟨head, hon, rfl⟩
    obtain rfl : chainOf iter = chain := by simpa [hlist] using hlist'
    obtain ⟨full, hon', rfl⟩ := (onList_iff_pageList hup.inv).mpr hup.here
    have hinv : VersionListInv m.eles head.core (chainOf iter) := (hm.onList_inv hon).of_core rfl
    refine ⟨m', lsnList, full, hcall, hon'.1, hrep.applied, ?_, hrep.replayed, ?_⟩
    · refine ⟨(pendingLsns head (chainOf iter)).drop maxReplayVersionSize, ?_⟩
      have hsplit := filter_append_filter_of_sorted id (by simpa using hinv.increasing)
        head.replayedLsn
      rw [hrep.applied, List.append_assoc]
      exact hsplit.symm.trans (congrArg _ (List.take_append_drop _ _).symm)
    · intro a ele hra hra'
      exact hrep.freed hinv hra hra'
  · intro tr s hrun key head chain hon
    obtain ⟨chainOf, hm, hlog⟩ := hrun.invariant (vacInv_init n hn) fun _ _ _ => VacStep.inv
    have hk := hlog key
    rw [(onList_iff_pageList hm).mp ⟨head, hon, rfl⟩] at hk
    exact ⟨hk.1, hk.2.1⟩

/-- The third pass over the list applies the last six LSNs and frees the first element node, which
is not the tail. -/
theorem background_pass_exact_frees :
    ∃ m m' lsnList head, Lts.Run MapStep (hashMapInit 1023 (by decide))
        (longList ++ [.backgroundReplay 0, .backgroundReplay 0]) m ∧
      m.heads.read 0 = some head ∧ backgroundReplay m 0 = some (m', lsnList) ∧
      lsnList = [410, 420, 430, 440, 450, 460] ∧ (m.eles.read 0).isSome = true ∧
      m'.eles.read 0 = none ∧ head.tailEle ≠ some 0 := by
  have hrun : ∃ m, Lts.Run MapStep (hashMapInit 1023 (by decide))
      (longList ++ [.backgroundReplay 0, .backgroundReplay 0]) m ∧
      (m.find (blockKey 7) = some (some 0) && (m.heads.read 0).any (·.key = blockKey 7) &&
        (m.eles.read 0).isSome && (backgroundReplay m 0).any fun r =>
          r.2 = [410, 420, 430, 440, 450, 460] && (r.1.eles.read 0).isNone) = true :=
    exists_mapRun (by decide +kernel)
  obtain ⟨m, hrun, hp⟩ := hrun
  simp only [Bool.and_eq_true, decide_eq_true_eq, Option.any_eq_true, Option.isNone_iff_eq_none]
    at hp
  obtain ⟨⟨⟨hfind, head, hr, hkey⟩, hele⟩, ⟨m', lsnList⟩, hcall, hlist, hfreed⟩ := hp
  have hhead : m.headOf head.key = some head := by simp [HashMap.headOf, hkey, hfind, hr]
  obtain ⟨chainOf, hm⟩ := reachable_inv hrun
  obtain ⟨chain, hon⟩ := (headOf_eq_some hm).mp hhead
  obtain ⟨m'', lsnList', head', hcall', _, _, _, _, hnodes⟩ :=
    (background_pass_exact 1023 (by decide)).1 _ m hrun 0 head chain hr hon
  obtain ⟨rfl, rfl⟩ : m'' = m' ∧ lsnList' = lsnList := by simpa [hcall] using hcall'.symm
  obtain ⟨ele, hread⟩ := Option.isSome_iff_exists.mp hele
  exact ⟨m, m'', lsnList', head, hrun, hr, hcall, hlist, hele, hfreed,
    (hnodes 0 ele hread hfreed).2.2⟩

end GroundDB
