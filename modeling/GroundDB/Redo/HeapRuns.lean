import GroundDB.Redo.HeapTouch

/-!
# Running heap redo

One lemma per routine of `Redo.Heap`, for a record with the blocks its writer registers and a
process that holds no lock.  A full redo makes the touches of the record, but for the free space map
(`heapRedo_makes`, `heap2Redo_makes`); a single-page redo is a `SinglePage` of them
(`polarHeapIdxRedo_singlePage`, `polarHeap2IdxRedo_singlePage`).
-/

namespace GroundDB

open Touch

variable {C D : Type}

lemma mapTag_ne {heap tag : BufferTag} (h : tag.forkNum = 0) : mapTag heap ≠ tag := by
  rintro rfl
  simp [mapTag] at h

/-- A page that is not in the fork of the free space map. -/
def NotFsm (tag : BufferTag) : Prop := tag.forkNum ≠ 1

namespace HeapOps

variable {ops : HeapOps D C} {record : XLogRecord D} {s : RedoState C} {blk : DecodedBkpBlock}
  {tag heap : BufferTag} {flags : UInt8} {init : Bool} {f : C → C} {g : RedoPage C → RedoPage C}

/-! ## The visibility map -/

lemma initIfNew_body_ne_none (p : RedoPage C) : (ops.initIfNew p).body ≠ none := by
  rcases p with ⟨lsn, _ | c⟩ <;> simp [initIfNew]

/-- The loop of `vm_extend` touches the new blocks in turn. -/
lemma vmExtendLoop_touch (n : ℕ) (now : UInt32) (hfit : now.toNat + n ≤ 2 ^ 32) :
    vmExtendLoop (fun block s => s.touch { tag with blockNum := block } g) n now s =
      s.touches ((List.range' now.toNat n).map fun block =>
        ({ tag with blockNum := .ofNat block }, g)) := by
  induction n generalizing now s with
  | zero => rfl
  | succ n ih =>
      rw [vmExtendLoop, List.range'_succ, List.map_cons, UInt32.ofNat_toNat]
      rcases Nat.eq_zero_or_pos n with rfl | hpos
      · rfl
      · have hnext : (now + 1).toNat = now.toNat + 1 := by
          rw [UInt32.toNat_add]
          exact Nat.mod_eq_of_lt (by change now.toNat + 1 < 2 ^ 32; omega)
        rw [ih (now + 1) (by omega), hnext]
        rfl

lemma vmExtend_run {now : UInt32} (hnow : now ≤ tag.blockNum) :
    ops.vmExtend now tag s =
      .ok ((), (s.touches (ops.initBelow now tag)).touch tag ops.initIfNew) := by
  have hle : now.toNat ≤ tag.blockNum.toNat := UInt32.le_iff_toNat_le.mp hnow
  have hlt : tag.blockNum.toNat < 2 ^ 32 := tag.blockNum.toNat_lt
  have hcount : tag.blockNum.toNat + 1 - now.toNat = tag.blockNum.toNat - now.toNat + 1 := by
    omega
  have hlast : now.toNat + (tag.blockNum.toNat - now.toNat) = tag.blockNum.toNat := by omega
  rw [vmExtend, vmExtendLoop_touch _ _ (by omega), hcount, List.range'_1_concat, List.map_append,
    touches_append, hlast, List.map_singleton, UInt32.ofNat_toNat, touches_singleton, initBelow,
    blocksBelow, List.map_map]
  rfl

/-- Pinning a map page: the map is extended through it.  The lock is needed only if the page is in
the map and new. -/
lemma visibilitymapPin_eq (now : UInt32) :
    ops.visibilitymapPin now tag s =
      if ¬ now ≤ tag.blockNum ∧ (s.pages tag).body = none ∧ tag ∈ s.locked then
        .error .selfDeadlock
      else .ok ((), (s.touches (ops.initBelow now tag)).touch tag ops.initIfNew) := by
  rw [visibilitymapPin]
  by_cases hnow : now ≤ tag.blockNum
  · rw [if_pos hnow, redo_bind_ok (vmExtend_run hnow), if_neg (by simp [hnow])]
    beta_reduce
    rw [redo_bind_ok getPage_run, touch_pages_self]
    cases hbody : (ops.initIfNew ((s.touches (ops.initBelow now tag)).pages tag)).body with
    | none => exact absurd hbody (initIfNew_body_ne_none _)
    | some c => rfl
  · have hnone : ops.initBelow now tag = [] := by
      have hlt : tag.blockNum.toNat < now.toNat := by
        rw [UInt32.le_iff_toNat_le] at hnow
        omega
      simp [initBelow, blocksBelow, Nat.sub_eq_zero_of_le hlt.le]
    rw [if_neg hnow, hnone, touches_nil]
    beta_reduce
    rw [redo_bind_ok getPage_run]
    cases hbody : (s.pages tag).body with
    | none =>
        by_cases hmem : tag ∈ s.locked
        · simp [hnow, hmem, redo_bind, lockBuffer]
        · simp only [hmem, and_false, if_false]
          rw [redo_bind_ok (lockBuffer_run hmem), redo_bind_ok modifyPage_run, lock_touch,
            unlockBuffer_lock]
    | some c =>
        have hself : s.touch tag ops.initIfNew = s := touch_eq_self (by simp [initIfNew, hbody])
        simp [hself]

lemma visibilitymapPin_run {now : UInt32} (hfree : tag ∉ s.locked) :
    ops.visibilitymapPin now tag s =
      .ok ((), (s.touches (ops.initBelow now tag)).touch tag ops.initIfNew) := by
  rw [visibilitymapPin_eq, if_neg fun h => hfree h.2.2]

lemma clearVmIf_run (record : XLogRecord D) (flag : Bool) (hfree : mapTag heap ∉ s.locked) :
    ops.clearVmIf record flag heap flags s =
      .ok ((), s.touches (mapTouch ops.upstream record flag heap flags)) := by
  cases flag with
  | false => rfl
  | true =>
      simp only [clearVmIf, mapTouch, if_true, touches_append, touches_singleton]
      rw [redo_bind_ok (visibilitymapPin_run hfree), visibilitymapClear,
        redo_bind_ok (lockBuffer_run (by simpa using hfree)), redo_bind_ok modifyPage_run,
        lock_touch, unlockBuffer_lock, touch_touch]
      rfl

lemma polarHeapClearVm_run (hfree : mapTag heap ∉ s.locked) :
    ops.polarHeapClearVm record heap none flags s =
      .ok ((.needsRedo, some (mapTag heap)), ((s.touches
        (ops.initBelow (ops.polarVmNblocks record (mapTag heap)) (mapTag heap))).touch
          (mapTag heap) (ops.polar.clearMap record.endRecPtr heap.blockNum flags)).lock
            (mapTag heap)) := by
  have hpin : ops.pinAndLockVm record heap none s = .ok (mapTag heap, ((s.touches
      (ops.initBelow (ops.polarVmNblocks record (mapTag heap)) (mapTag heap))).touch
        (mapTag heap) ops.initIfNew).lock (mapTag heap)) := by
    rw [pinAndLockVm, redo_bind_ok (visibilitymapPin_run hfree),
      redo_bind_ok (lockBuffer_run (by simpa using hfree)), redo_pure]
  rw [polarHeapClearVm, redo_bind_ok hpin, redo_bind_ok modifyPage_run, lock_touch, touch_touch]
  rfl

lemma notMem_initBelow (now : UInt32) : tag ∉ touched (ops.initBelow now tag) := fun h =>
  UInt32.lt_irrefl _ (ops.mem_touched_initBelow h).2

/-- Clearing bits on a map page that is locked already; it is no longer new. -/
lemma polarHeapClearVm_again (hbody : (s.pages tag).body ≠ none) :
    ops.polarHeapClearVm record heap (some tag) flags (s.lock tag) =
      .ok ((.needsRedo, some tag), (s.touch tag
        (ops.polar.clearMap record.endRecPtr heap.blockNum flags)).lock tag) := by
  have hinit : ops.initIfNew (s.pages tag) = s.pages tag := by
    cases h : (s.pages tag).body with
    | none => exact absurd h hbody
    | some c => simp [initIfNew, h]
  rw [polarHeapClearVm, pinAndLockVm, redo_bind_ok (redo_pure tag), redo_bind_ok modifyPage_run,
    lock_touch]
  simp [RedoState.touch, RedoState.lock, polar, hinit, clearedPage]

lemma clearMap_body_ne_none (p : RedoPage C) (lsn : ℕ) (heapBlk : UInt32) :
    (ops.polar.clearMap lsn heapBlk flags p).body ≠ none := by
  rcases p with ⟨_, _ | c⟩ <;> simp [polar, clearedPage, initIfNew]

/-! ## The free space map -/

/-- Recording free space changes a page of the free space map only. -/
lemma noteFreeSpace_makes (space : RedoAction → Option C → Option ℕ) (r : RedoAction × Buffer)
    (hlocked : s.locked = []) : MakesOn NotFsm [] (ops.noteFreeSpace space r) s := by
  obtain ⟨action, _ | heap⟩ := r
  · exact .of_run rfl
  · cases hspace : space action (s.pages heap).body with
    | none =>
        refine .of_run ?_
        simp only [noteFreeSpace, redo_bind_ok getPage_run, hspace]
        rfl
    | some spaceAvail =>
        refine ⟨s.touch (fsmTag heap) (ops.recordedPage heap.blockNum spaceAvail), ?_, rfl,
          fun t ht => touch_pages_of_ne fun h => ht (by rw [h]; rfl)⟩
        simp only [noteFreeSpace, redo_bind_ok getPage_run, hspace]
        rw [xlogRecordPageWithFreeSpace, redo_bind_ok (lockBuffer_run (by simp [hlocked])),
          redo_bind_ok modifyPage_run, lock_touch, unlockBuffer_lock]

/-- A routine that makes touches and ends with the recording of free space. -/
lemma makes_of_note (ops : HeapOps D C) (space : RedoAction → Option C → Option ℕ)
    {l : Touches C} {m : Redo C Unit}
    (h : ∃ r, m s = ops.noteFreeSpace space r (s.touches l)) (hlocked : s.locked = []) :
    MakesOn NotFsm l m s := by
  obtain ⟨r, hm⟩ := h
  obtain ⟨s', hrun, hlocked', hpages⟩ := noteFreeSpace_makes space r (s := s.touches l) hlocked
  exact ⟨s', hm.trans hrun, hlocked', fun t ht => (hpages t ht).trans touches_pages⟩

/-! ## A heap page -/

@[simp] lemma heapPageAction_true (p : RedoPage C) :
    heapPageAction record blk true p = .needsRedo := rfl

@[simp] lemma heapPageAction_false (p : RedoPage C) :
    heapPageAction record blk false p = blockAction record blk .normal p := rfl

@[simp] lemma heapPageEffect_true :
    ops.heapPageEffect record blk true g = fun _ => g ⟨0, some ops.pageInit⟩ := rfl

@[simp] lemma heapPageEffect_false :
    ops.heapPageEffect record blk false g = blockEffect ops.image record 0 blk .normal g := rfl

lemma touch_heapPageEffect_of_notFound
    (h : heapPageAction record blk init (s.pages blk.tag) = .notFound) :
    s.touch blk.tag (ops.heapPageEffect record blk init g) = s := by
  cases init with
  | true => simp at h
  | false => exact touch_blockEffect_of_notFound h

lemma heapPageAction_ne_notFound {p : RedoPage C} (hbody : p.body ≠ none) :
    heapPageAction record blk init p ≠ .notFound := by
  cases init with
  | true => simp
  | false => exact blockAction_ne_notFound hbody

lemma readHeapPage_run (hblk : record.block? 0 = some blk) (hinit : blk.willInit = init)
    (hfree : blk.tag ∉ s.locked) :
    ops.readHeapPage record init none s =
      if heapPageAction record blk init (s.pages blk.tag) = .notFound then
        .ok ((.notFound, none), s)
      else .ok ((heapPageAction record blk init (s.pages blk.tag), some blk.tag),
        (s.touch blk.tag (ops.heapPageEffect record blk init fun p => p)).lock blk.tag) := by
  cases init with
  | true => exact initBlock_run hblk hinit hfree _ _
  | false => exact xlogReadBufferForRedoExtended_touch hblk (by simpa using hinit) hfree

lemma whenNeedsRedo_heapPage {action : RedoAction}
    (haction : action = heapPageAction record blk init (s.pages blk.tag)) :
    whenNeedsRedo (action, some blk.tag) g
        ((s.touch blk.tag (ops.heapPageEffect record blk init fun p => p)).lock blk.tag) =
      .ok ((), (s.touch blk.tag (ops.heapPageEffect record blk init g)).lock blk.tag) := by
  by_cases hneeds : action = .needsRedo
  · rw [hneeds, whenNeedsRedo_some, lock_touch, touch_touch]
    cases init with
    | true => rfl
    | false => simp [RedoState.touch, blockEffect_of_needsRedo (haction ▸ hneeds)]
  · rw [whenNeedsRedo_of_ne hneeds]
    cases init with
    | true => exact absurd haction hneeds
    | false =>
        have hcongr : blockEffect ops.image record 0 blk .normal (fun p => p) (s.pages blk.tag)
            = blockEffect ops.image record 0 blk .normal g (s.pages blk.tag) :=
          blockEffect_congr fun h => hneeds (haction.trans h)
        simp [RedoState.touch, hcongr]

lemma redoHeapPage_run (hblk : record.block? 0 = some blk) (hinit : blk.willInit = init)
    (hfree : blk.tag ∉ s.locked) :
    ops.redoHeapPage record init none f s =
      if heapPageAction record blk init (s.pages blk.tag) = .notFound then
        .ok ((.notFound, none), s)
      else .ok ((heapPageAction record blk init (s.pages blk.tag), some blk.tag),
        (s.touch blk.tag (ops.heapPageEffect record blk init
          (RedoPage.redo f record.endRecPtr))).lock blk.tag) := by
  rw [redoHeapPage, redo_bind, readHeapPage_run hblk hinit hfree]
  by_cases hnot : heapPageAction record blk init (s.pages blk.tag) = .notFound
  · simp only [if_pos hnot]
    rw [redo_bind_ok (whenNeedsRedo_of_ne (by simp)), redo_pure]
  · simp only [if_neg hnot]
    rw [redo_bind_ok (whenNeedsRedo_heapPage rfl), redo_pure]

lemma redoHeapPageRelease_run {space : RedoAction → Option C → Option ℕ}
    (hblk : record.block? 0 = some blk) (hinit : blk.willInit = init) (hfree : blk.tag ∉ s.locked) :
    ∃ r, ops.redoHeapPageRelease record init space f s =
      ops.noteFreeSpace space r (s.touch blk.tag
        (ops.heapPageEffect record blk init (RedoPage.redo f record.endRecPtr))) := by
  rw [redoHeapPageRelease, redo_bind, redoHeapPage_run hblk hinit hfree]
  by_cases hnot : heapPageAction record blk init (s.pages blk.tag) = .notFound
  · simp only [if_pos hnot, touch_heapPageEffect_of_notFound hnot]
    exact ⟨_, redo_bind_ok releaseIfValid_none⟩
  · simp only [if_neg hnot]
    exact ⟨_, redo_bind_ok releaseIfValid_lock⟩

/-! ## A heap page and its map page -/

section MapHeap

variable {side : HeapSide D C} {flag : Bool}

lemma touched_mapTouch : touched (mapTouch ops.polar record flag heap flags)
    = if flag then [mapTag heap] else [] := by
  cases flag <;> rfl

lemma notMem_mapTouch (hfork : tag.forkNum = 0) :
    tag ∉ touched (mapTouch side record flag heap flags) := by
  cases flag with
  | false => simp [mapTouch]
  | true =>
      simp only [mapTouch, if_true, touched_append, List.mem_append, not_or]
      refine ⟨fun hmem => ?_, by simpa using (mapTag_ne hfork).symm⟩
      have hmap := side.below_fork _ _ _ hmem
      simp [hfork, mapTag] at hmap

lemma touchAt_mapTouch (hfork : tag.forkNum = 0) (p : RedoPage C) :
    touchAt (mapTouch side record flag heap flags) tag p = p :=
  touchAt_of_notMem (notMem_mapTouch hfork)

lemma mapHeapTouches_eq (hblk : record.block? 0 = some blk) :
    ops.mapHeapTouches side record flags init f =
      mapTouch side record record.visibleCleared blk.tag flags ++
        [(blk.tag, ops.heapPageEffect record blk init (RedoPage.redo f record.endRecPtr))] := by
  simp [mapHeapTouches, hblk]

lemma mapHeapRedo_makes {space : RedoAction → Option C → Option ℕ}
    (hblk : record.block? 0 = some blk) (hinit : blk.willInit = init) (hlocked : s.locked = []) :
    MakesOn NotFsm (ops.mapHeapTouches ops.upstream record flags init f)
      (ops.mapHeapRedo record flags init space f) s := by
  refine makes_of_note ops space ?_ hlocked
  rw [mapHeapRedo, redo_bind_ok (polarGetLogTag_run hblk),
    redo_bind_ok (clearVmIf_run record _ (by simp [hlocked])), mapHeapTouches_eq hblk,
    touches_append]
  exact redoHeapPageRelease_run hblk hinit (by simp [hlocked])

lemma singlePage_heapPage {l : Touches C}
    {m : Redo C (RedoAction × Buffer)} (hm : m s = ops.redoHeapPage record init none f s)
    (hblk : record.block? 0 = some blk) (hinit : blk.willInit = init) (hlocked : s.locked = [])
    (hmem : blk.tag ∈ touched l) (hl : ∀ p, touchAt l blk.tag p
      = ops.heapPageEffect record blk init (RedoPage.redo f record.endRecPtr) p) :
    SinglePage l blk.tag m s :=
  .of_read hmem (funext hl) (hm.trans (redoHeapPage_run hblk hinit (by simp [hlocked])))
    heapPageAction_ne_notFound touch_heapPageEffect_of_notFound

/-- A page that is no heap page of the record: its map page or none. -/
lemma singlePage_mapPage {rest : Touches C} {m : Redo C (RedoAction × Buffer)} {cond : Bool}
    (hm : m s = ops.polarClearVmIf record cond heap (.notFound, none) flags s)
    (hcond : cond = true ↔ flag = true ∧ mapTag heap = tag) (hrest : tag ∉ touched rest)
    (hlocked : s.locked = []) :
    SinglePage (mapTouch ops.polar record flag heap flags ++ rest) tag m s := by
  cases hc : cond with
  | true =>
      obtain ⟨rfl, rfl⟩ := hcond.mp hc
      simp only [polarClearVmIf, hc, if_true] at hm
      refine .of_change (hm.trans (polarHeapClearVm_run (by simp [hlocked])))
        (notMem_initBelow _) rfl (by simp [touched_mapTouch]) fun p => ?_
      rw [touchAt_append, touchAt_of_notMem hrest]
      simp [mapTouch, polar]
  | false =>
      have hmap : ¬ (flag = true ∧ mapTag heap = tag) := by simp [← hcond, hc]
      refine .of_notMem ?_ (by simpa [polarClearVmIf, hc] using hm)
      simpa [touched_mapTouch, hrest, eq_comm (a := tag)] using hmap

lemma polarMapHeapRedo_singlePage (hblk : record.block? 0 = some blk)
    (hfork : blk.tag.forkNum = 0) (hinit : blk.willInit = init) (hlocked : s.locked = []) :
    SinglePage (ops.mapHeapTouches ops.polar record flags init f) tag
      (ops.polarMapHeapRedo record tag flags init f) s := by
  have hne : mapTag blk.tag ≠ blk.tag := mapTag_ne hfork
  rw [mapHeapTouches_eq hblk]
  by_cases htag : tag = blk.tag
  · subst htag
    have hrun : ops.polarMapHeapRedo record blk.tag flags init f s =
        ops.redoHeapPage record init none f s := by
      rw [polarMapHeapRedo, redo_bind_ok (polarGetLogTag_run hblk)]
      simp [hne.symm, polarClearVmIf, redo_bind]
    refine singlePage_heapPage hrun hblk hinit hlocked (by simp) fun p => ?_
    simp [touchAt_append, touchAt_mapTouch hfork]
  · have hrun : ops.polarMapHeapRedo record tag flags init f s = ops.polarClearVmIf record
        (tag = mapTag blk.tag && record.visibleCleared) blk.tag (.notFound, none) flags s := by
      rw [polarMapHeapRedo, redo_bind_ok (polarGetLogTag_run hblk)]
      simp [htag]
    exact singlePage_mapPage hrun (by simp [and_comm, eq_comm (a := tag)]) (by simpa using htag)
      hlocked

/-- The early return of the delete routine makes no difference: the map page is no heap page. -/
lemma polarHeapXlogDelete_eq (hblk : record.block? 0 = some blk) (hfork : blk.tag.forkNum = 0) :
    ops.polarHeapXlogDelete record tag s = ops.polarMapHeapRedo record tag visibilitymapValidBits
      false (ops.deletePage record) s := by
  have hne : mapTag blk.tag ≠ blk.tag := mapTag_ne hfork
  rw [polarHeapXlogDelete, polarMapHeapRedo, redo_bind_ok (polarGetLogTag_run hblk),
    redo_bind_ok (polarGetLogTag_run hblk)]
  by_cases hmap : tag = mapTag blk.tag
  · subst hmap
    simp [hne]
  · simp [hmap, polarClearVmIf, redo_bind]

lemma polarHeapXlogDelete_singlePage (hblk : record.block? 0 = some blk)
    (hfork : blk.tag.forkNum = 0) (hinit : blk.willInit = false) (hlocked : s.locked = []) :
    SinglePage (ops.mapHeapTouches ops.polar record visibilitymapValidBits false
      (ops.deletePage record)) tag (ops.polarHeapXlogDelete record tag) s := by
  obtain ⟨r, s', below, hrun, hrest⟩ : SinglePage _ tag _ s :=
    polarMapHeapRedo_singlePage hblk hfork hinit hlocked
  exact ⟨r, s', below, (polarHeapXlogDelete_eq hblk hfork).trans hrun, hrest⟩

end MapHeap

/-! ## One heap page -/

lemma onePageTouches_eq (hblk : record.block? 0 = some blk) :
    ops.onePageTouches record f =
      [(blk.tag, ops.heapPageEffect record blk false (RedoPage.redo f record.endRecPtr))] := by
  simp [onePageTouches, hblk]

lemma onePageRedo_makes {space : RedoAction → Option C → Option ℕ}
    (hblk : record.block? 0 = some blk) (hinit : blk.willInit = false) (hlocked : s.locked = []) :
    MakesOn NotFsm (ops.onePageTouches record f)
      (ops.redoHeapPageRelease record false space f) s := by
  refine makes_of_note ops space ?_ hlocked
  rw [onePageTouches_eq hblk, touches_singleton]
  exact redoHeapPageRelease_run hblk hinit (by simp [hlocked])

lemma polarOnePageRedo_singlePage (hblk : record.block? 0 = some blk)
    (hinit : blk.willInit = false) (hlocked : s.locked = []) :
    SinglePage (ops.onePageTouches record f) tag (ops.polarOnePageRedo record tag f) s := by
  rw [onePageTouches_eq hblk]
  by_cases htag : tag = blk.tag
  · subst htag
    have hrun : ops.polarOnePageRedo record blk.tag f s =
        ops.redoHeapPage record false none f s := by
      rw [polarOnePageRedo, redo_bind_ok (polarGetLogTag_run hblk)]
      simp
    exact singlePage_heapPage hrun hblk hinit hlocked (by simp) fun p => by simp
  · refine .of_notMem (by simpa using htag) ?_
    rw [polarOnePageRedo, redo_bind_ok (polarGetLogTag_run hblk)]
    simp [htag]

/-! ## An update on one page -/

section SamePage

variable {hotUpdate samePage : Bool}

lemma oldTuple_run {action : RedoAction} :
    oldTuple (action, some tag) s =
      .ok (if action = .needsRedo then (s.pages tag).body else none, s) := by
  cases action with
  | needsRedo => rfl
  | done | restored | notFound => rfl

lemma redoOldTuple_run (id : ℕ) (hid : (if samePage then 0 else 1) = id)
    (hblk : record.block? id = some blk) (hinit : blk.willInit = false)
    (hfree : blk.tag ∉ s.locked) :
    ops.redoOldTuple record samePage hotUpdate s =
      if blockAction record blk .normal (s.pages blk.tag) = .notFound then
        .ok (((.notFound, none), none), s)
      else .ok (((blockAction record blk .normal (s.pages blk.tag), some blk.tag),
          if blockAction record blk .normal (s.pages blk.tag) = .needsRedo then
            (ops.redoOldPage record hotUpdate (s.pages blk.tag)).body else none),
        (s.touch blk.tag (blockEffect ops.image record id blk .normal
          (ops.redoOldPage record hotUpdate))).lock blk.tag) := by
  rw [redoOldTuple, hid, redo_bind, polarRedoBlock_run hblk (by simpa using hinit) hfree]
  by_cases hnot : blockAction record blk .normal (s.pages blk.tag) = .notFound
  · simp only [if_pos hnot, oldTuple, redo_bind, redo_pure]
  · simp only [if_neg hnot]
    rw [redo_bind_ok oldTuple_run, redo_pure]
    by_cases hneeds : blockAction record blk .normal (s.pages blk.tag) = .needsRedo
    · simp [hneeds, blockEffect_of_needsRedo hneeds]
    · simp [hneeds]

lemma whenNeedsRedo_samePage {action : RedoAction}
    (haction : action = blockAction record blk .normal (s.pages blk.tag)) :
    whenNeedsRedo (action, some blk.tag) (ops.redoNewPage record
        (if action = .needsRedo then (ops.redoOldPage record hotUpdate (s.pages blk.tag)).body
          else none))
        ((s.touch blk.tag (blockEffect ops.image record 0 blk .normal
          (ops.redoOldPage record hotUpdate))).lock blk.tag) =
      .ok ((), (s.touch blk.tag (blockEffect ops.image record 0 blk .normal
        (ops.redoSamePage record hotUpdate))).lock blk.tag) := by
  by_cases hneeds : action = .needsRedo
  · have haction : blockAction record blk .normal (s.pages blk.tag) = .needsRedo :=
      haction.symm.trans hneeds
    rw [hneeds, if_pos rfl, whenNeedsRedo_some, lock_touch, touch_touch]
    simp [RedoState.touch, blockEffect_of_needsRedo haction, redoSamePage]
  · have hcongr : blockEffect ops.image record 0 blk .normal (ops.redoOldPage record hotUpdate)
          (s.pages blk.tag)
        = blockEffect ops.image record 0 blk .normal (ops.redoSamePage record hotUpdate)
          (s.pages blk.tag) :=
      blockEffect_congr fun h => hneeds (haction.trans h)
    rw [whenNeedsRedo_of_ne hneeds]
    simp [RedoState.touch, hcongr]

lemma updateTouches_samePage {side : HeapSide D C} (hblk : record.block? 0 = some blk)
    (hone : record.block? 1 = none) :
    ops.updateTouches side record hotUpdate =
      mapTouch side record record.visibleCleared blk.tag visibilitymapValidBits ++
      [(blk.tag, blockEffect ops.image record 0 blk .normal
        (ops.redoSamePage record hotUpdate))] := by
  simp [updateTouches, hblk, hone]

lemma heapXlogUpdate_samePage (hblk : record.block? 0 = some blk)
    (hinit : blk.willInit = false) (hone : record.block? 1 = none)
    (hflag : record.newVisibleCleared = false) (hlocked : s.locked = []) :
    MakesOn NotFsm (ops.updateTouches ops.upstream record hotUpdate)
      (ops.heapXlogUpdate record hotUpdate) s := by
  have hold : record.blockTag? 1 = none := by simp [XLogRecord.blockTag?, hone]
  refine makes_of_note ops (if hotUpdate then noSpace else ops.lowSpace) ?_ hlocked
  rw [updateTouches_samePage hblk hone, touches_append, touches_singleton]
  generalize hmid : s.touches (mapTouch ops.upstream record record.visibleCleared blk.tag
    visibilitymapValidBits) = mid
  have hmidLocked : blk.tag ∉ mid.locked := by simp [← hmid, hlocked]
  rw [heapXlogUpdate, redo_bind_ok (polarGetLogTag_run hblk)]
  simp only [hold, Option.map_none, Option.getD_none, decide_true]
  rw [redo_bind_ok (clearVmIf_run record _ (by simp [hlocked])), hmid, redo_bind,
    redoOldTuple_run 0 rfl hblk hinit hmidLocked]
  by_cases hnot : blockAction record blk .normal (mid.pages blk.tag) = .notFound
  · simp only [if_pos hnot, readNewPage, if_true, touch_blockEffect_of_notFound hnot]
    rw [redo_bind_ok (redo_pure _), redo_bind_ok (by rw [hflag]; rfl),
      redo_bind_ok (whenNeedsRedo_of_ne (by simp)), if_pos rfl, redo_bind_ok releaseIfValid_none]
    exact ⟨_, redo_bind_ok releaseIfValid_none⟩
  · simp only [if_neg hnot, readNewPage, if_true]
    rw [redo_bind_ok (redo_pure _), redo_bind_ok (by rw [hflag]; rfl),
      redo_bind_ok (whenNeedsRedo_samePage rfl), if_pos rfl, redo_bind_ok releaseIfValid_none]
    exact ⟨_, redo_bind_ok releaseIfValid_lock⟩

lemma polarHeapXlogUpdate_samePage (hblk : record.block? 0 = some blk)
    (hfork : blk.tag.forkNum = 0) (hinit : blk.willInit = false) (hone : record.block? 1 = none)
    (hlocked : s.locked = []) :
    SinglePage (ops.updateTouches ops.polar record hotUpdate) tag
      (ops.polarHeapXlogUpdate record tag hotUpdate) s := by
  have hne : mapTag blk.tag ≠ blk.tag := mapTag_ne hfork
  have hold : record.blockTag? 1 = none := by simp [XLogRecord.blockTag?, hone]
  rw [updateTouches_samePage hblk hone]
  by_cases htag : tag = blk.tag
  · subst htag
    have hrun : ops.polarHeapXlogUpdate record blk.tag hotUpdate s = (do
        let r ← ops.redoOldTuple record true hotUpdate
        whenNeedsRedo r.1 (ops.redoNewPage record r.2)
        return r.1) s := by
      rw [polarHeapXlogUpdate, redo_bind_ok (polarGetLogTag_run hblk)]
      simp [hold, hne, polarClearVmIf, readNewPage]
    rw [redo_bind, redoOldTuple_run 0 rfl hblk hinit (by simp [hlocked])] at hrun
    have hread : ops.polarHeapXlogUpdate record blk.tag hotUpdate s =
        if blockAction record blk .normal (s.pages blk.tag) = .notFound then
          .ok ((.notFound, none), s)
        else .ok ((blockAction record blk .normal (s.pages blk.tag), some blk.tag),
          (s.touch blk.tag (blockEffect ops.image record 0 blk .normal
            (ops.redoSamePage record hotUpdate))).lock blk.tag) := by
      by_cases hnot : blockAction record blk .normal (s.pages blk.tag) = .notFound
      · simp only [if_pos hnot] at hrun ⊢
        rw [hrun, redo_bind_ok (whenNeedsRedo_of_ne (by simp)), redo_pure]
      · simp only [if_neg hnot] at hrun ⊢
        rw [hrun, redo_bind_ok (whenNeedsRedo_samePage rfl), redo_pure]
    refine .of_read (by simp) (funext fun p => ?_) hread blockAction_ne_notFound
      touch_blockEffect_of_notFound
    simp [touchAt_append, touchAt_mapTouch hfork]
  · have hrun : ops.polarHeapXlogUpdate record tag hotUpdate s = ops.polarClearVmIf record
        (record.visibleCleared && mapTag blk.tag = tag) blk.tag (.notFound, none)
        visibilitymapValidBits s := by
      rw [polarHeapXlogUpdate, redo_bind_ok (polarGetLogTag_run hblk)]
      simp [hold, htag, polarClearVmIf]
    exact singlePage_mapPage hrun (by simp) (by simpa using htag) hlocked

end SamePage

/-! ## An update on two pages -/

section TwoPages

variable {new old : DecodedBkpBlock} {hotUpdate : Bool} {side : HeapSide D C} {flag : Bool}

lemma touches_mapTouch_touch (hfork : tag.forkNum = 0) :
    (s.touch tag g).touches (mapTouch side record flag heap flags) =
      (s.touches (mapTouch side record flag heap flags)).touch tag g :=
  touches_touch_comm (notMem_mapTouch hfork)

lemma touches_mapTouch_pages (hfork : tag.forkNum = 0) :
    (s.touches (mapTouch side record flag heap flags)).pages tag = s.pages tag := by
  rw [touches_pages, touchAt_mapTouch hfork]

/-- The old tuple is not looked at unless it is copied from. -/
lemma redoNewPage_eq (hcopy : record.fromOld = false) (c : Option C) :
    ops.redoNewPage record c = ops.redoNewPage record none := by
  simp [redoNewPage, hcopy]

lemma updateTouches_twoPages (hnew : record.block? 0 = some new)
    (hold : record.block? 1 = some old) :
    ops.updateTouches side record hotUpdate =
      mapTouch side record record.visibleCleared old.tag visibilitymapValidBits ++
      ([(old.tag, blockEffect ops.image record 1 old .normal
        (ops.redoOldPage record hotUpdate))] ++
      (mapTouch side record record.newVisibleCleared new.tag visibilitymapValidBits ++
      [(new.tag, ops.heapPageEffect record new record.initPage
        (ops.redoNewPage record none))])) := by
  simp [updateTouches, hnew, hold]

/-- The new page of an update, with the clearing of its map bits between the reading of the page and
its change. -/
lemma newPage_run (hnew : record.block? 0 = some new) (hinit : new.willInit = init)
    (hfork : new.tag.forkNum = 0) (hfree : new.tag ∉ s.locked)
    (hmapFree : mapTag new.tag ∉ s.locked) {obuffer : Buffer} (hother : obuffer ≠ some new.tag)
    (k : RedoAction × Buffer → Redo C Unit) :
    (do
      let nbuffer ← ops.readHeapPage record init none
      ops.clearVmIf record flag new.tag flags
      whenNeedsRedo nbuffer g
      releaseIfValid (if nbuffer.2 = obuffer then none else nbuffer.2)
      k nbuffer) s =
    k (if heapPageAction record new init (s.pages new.tag) = .notFound then (.notFound, none)
        else (heapPageAction record new init (s.pages new.tag), some new.tag))
      (s.touches (mapTouch ops.upstream record flag new.tag flags ++
        [(new.tag, ops.heapPageEffect record new init g)])) := by
  rw [touches_append, touches_singleton, redo_bind, readHeapPage_run hnew hinit hfree]
  generalize hmid : s.touches (mapTouch ops.upstream record flag new.tag flags) = mid
  have hpage : mid.pages new.tag = s.pages new.tag := by rw [← hmid, touches_mapTouch_pages hfork]
  by_cases hnot : heapPageAction record new init (s.pages new.tag) = .notFound
  · have hself : mid.touch new.tag (ops.heapPageEffect record new init g) = mid :=
      touch_heapPageEffect_of_notFound (hpage ▸ hnot)
    simp only [if_pos hnot]
    rw [redo_bind_ok (clearVmIf_run record _ hmapFree), hmid,
      redo_bind_ok (whenNeedsRedo_of_ne (by simp)), ite_self, redo_bind_ok releaseIfValid_none,
      hself]
  · have hlocked : mapTag new.tag ∉ ((s.touch new.tag
        (ops.heapPageEffect record new init fun p => p)).lock new.tag).locked := by
      simpa [mapTag_ne hfork] using hmapFree
    simp only [if_neg hnot, if_neg hother.symm]
    rw [redo_bind_ok (clearVmIf_run record _ hlocked), lock_touches, touches_mapTouch_touch hfork,
      hmid, redo_bind_ok (whenNeedsRedo_heapPage (by rw [hpage])),
      redo_bind_ok releaseIfValid_lock]

lemma heapXlogUpdate_twoPages (hnew : record.block? 0 = some new)
    (hold : record.block? 1 = some old) (hfork : new.tag.forkNum = 0)
    (hrel : old.tag = { new.tag with blockNum := old.tag.blockNum })
    (hne : old.tag.blockNum ≠ new.tag.blockNum) (hinit : new.willInit = record.initPage)
    (holdInit : old.willInit = false) (hcopy : record.fromOld = false) (hlocked : s.locked = []) :
    MakesOn NotFsm (ops.updateTouches ops.upstream record hotUpdate)
      (ops.heapXlogUpdate record hotUpdate) s := by
  have holdTag : record.blockTag? 1 = some old.tag :=
    XLogRecord.blockTag?_of_block? hold
  have hoff : old.tag ≠ new.tag := fun h => hne (congrArg _ h)
  refine makes_of_note ops (if hotUpdate then noSpace else ops.lowSpace) ?_ hlocked
  rw [updateTouches_twoPages hnew hold, touches_append, touches_append, touches_singleton]
  generalize hmid : s.touches (mapTouch ops.upstream record record.visibleCleared old.tag
    visibilitymapValidBits) = mid
  have hmidLocked : mid.locked = [] := by simp [← hmid, hlocked]
  rw [heapXlogUpdate, redo_bind_ok (polarGetLogTag_run hnew)]
  simp only [holdTag, Option.map_some, Option.getD_some, ← hrel, hne, decide_false]
  rw [redo_bind_ok (clearVmIf_run record _ (by simp [hlocked])), hmid, redo_bind,
    redoOldTuple_run 1 rfl hold holdInit (by simp [hmidLocked])]
  by_cases hnot : blockAction record old .normal (mid.pages old.tag) = .notFound
  · simp only [if_pos hnot, readNewPage, Bool.false_eq_true, if_false,
      touch_blockEffect_of_notFound hnot]
    rw [newPage_run hnew hinit hfork (by simp [hmidLocked]) (by simp [hmidLocked]) (by simp)]
    exact ⟨_, redo_bind_ok releaseIfValid_none⟩
  · have hoff' : some old.tag ≠ some new.tag := by simpa using hoff
    simp only [if_neg hnot, readNewPage, Bool.false_eq_true, if_false, redoNewPage_eq hcopy]
    rw [newPage_run hnew hinit hfork (by simp [hmidLocked, hoff.symm])
      (by
        have hmap : mapTag new.tag ≠ old.tag := mapTag_ne (by rw [hrel, hfork])
        simp [hmidLocked, hmap]) hoff', lock_touches]
    exact ⟨_, redo_bind_ok releaseIfValid_lock⟩

lemma singlePage_oldPage {l : Touches C} {m : Redo C (RedoAction × Buffer)} (hm : m s = (do
      let (r, _) ← ops.redoOldTuple record false hotUpdate
      return r) s)
    (hold : record.block? 1 = some old) (hinit : old.willInit = false) (hlocked : s.locked = [])
    (hmem : old.tag ∈ touched l) (hl : ∀ p, touchAt l old.tag p
      = blockEffect ops.image record 1 old .normal (ops.redoOldPage record hotUpdate) p) :
    SinglePage l old.tag m s := by
  rw [redo_bind, redoOldTuple_run 1 rfl hold hinit (by simp [hlocked])] at hm
  refine .of_read hmem (funext hl) ?_ blockAction_ne_notFound touch_blockEffect_of_notFound
  rw [hm]
  by_cases hnot : blockAction record old .normal (s.pages old.tag) = .notFound
  · simp only [if_pos hnot, redo_pure]
  · simp only [if_neg hnot, redo_pure]

/-- The map pages of an update on two pages, which may be one page. -/
lemma singlePage_mapPages {e e' : RedoPage C → RedoPage C} {m : Redo C (RedoAction × Buffer)}
    {flag' : Bool} {t t' : BufferTag} (hm : m s = (do
      let r ← ops.polarClearVmIf record (flag && mapTag t = tag) t (.notFound, none) flags
      ops.polarClearVmIf record (flag' && mapTag t' = tag) t' r flags) s)
    (htag : tag ≠ t) (htag' : tag ≠ t') (hlocked : s.locked = []) :
    SinglePage (mapTouch ops.polar record flag t flags ++ ([(t, e)] ++
      (mapTouch ops.polar record flag' t' flags ++ [(t', e')]))) tag m s := by
  by_cases hmap' : flag' = true ∧ mapTag t' = tag
  · obtain ⟨rfl, rfl⟩ := hmap'
    by_cases hmap : flag = true ∧ mapTag t = mapTag t'
    · obtain ⟨rfl, hmap⟩ := hmap
      -- both heap pages have the map page: it is locked once and cleared twice
      have hrun : ops.polarHeapClearVm record t none flags s = _ :=
        polarHeapClearVm_run (by simp [hlocked])
      simp only [polarClearVmIf, hmap, decide_true, Bool.and_self, if_true] at hm hrun
      rw [redo_bind_ok hrun, polarHeapClearVm_again (by
        rw [touch_pages_self]
        exact clearMap_body_ne_none _ _ _), touch_touch] at hm
      refine .of_change hm (notMem_initBelow _) rfl (by simp [touched_mapTouch]) fun p => ?_
      simp [mapTouch, polar, hmap, Ne.symm htag, Ne.symm htag']
    · have hcond : (flag && decide (mapTag t = mapTag t')) = false := by simpa using hmap
      simp only [polarClearVmIf, hcond, Bool.false_eq_true, if_false] at hm
      rw [← List.append_assoc]
      refine .append_left (singlePage_mapPage (hm.trans (redo_bind_ok (redo_pure _)))
        (by simp) (by simpa using htag') hlocked) ?_
      simpa [touched_mapTouch, htag, eq_comm (a := mapTag t')] using hmap
  · have hcond : (flag' && decide (mapTag t' = tag)) = false := by simpa using hmap'
    have hrun : m s = ops.polarClearVmIf record (flag && decide (mapTag t = tag)) t
        (.notFound, none) flags s := by
      rw [hm]
      simp [polarClearVmIf, hcond]
    refine singlePage_mapPage hrun (by simp) ?_ hlocked
    simpa [touched_mapTouch, htag, htag', eq_comm (a := tag)] using hmap'

lemma polarHeapXlogUpdate_twoPages (hnew : record.block? 0 = some new)
    (hold : record.block? 1 = some old) (hfork : new.tag.forkNum = 0)
    (hrel : old.tag = { new.tag with blockNum := old.tag.blockNum })
    (hne : old.tag.blockNum ≠ new.tag.blockNum) (hinit : new.willInit = record.initPage)
    (holdInit : old.willInit = false) (hlocked : s.locked = []) :
    SinglePage (ops.updateTouches ops.polar record hotUpdate) tag
      (ops.polarHeapXlogUpdate record tag hotUpdate) s := by
  have holdTag : record.blockTag? 1 = some old.tag :=
    XLogRecord.blockTag?_of_block? hold
  have hoff : old.tag ≠ new.tag := fun h => hne (congrArg _ h)
  have hmap (t : BufferTag) : mapTag t ≠ new.tag := mapTag_ne hfork
  have hforkOld : old.tag.forkNum = 0 := by rw [hrel, hfork]
  have hmap' (t : BufferTag) : mapTag t ≠ old.tag := mapTag_ne hforkOld
  rw [updateTouches_twoPages hnew hold]
  by_cases htag : tag = new.tag
  · subst htag
    have hrun : ops.polarHeapXlogUpdate record new.tag hotUpdate s =
        (do
          let r ← ops.readHeapPage record record.initPage none
          whenNeedsRedo r (ops.redoNewPage record none)
          return r) s := by
      rw [polarHeapXlogUpdate, redo_bind_ok (polarGetLogTag_run hnew)]
      simp [holdTag, hne, hmap, hoff.symm, polarClearVmIf, readNewPage]
    refine singlePage_heapPage hrun hnew hinit hlocked (by simp) fun p => ?_
    simp [touchAt_append, touchAt_mapTouch, hfork, hoff, redoNewPage]
  by_cases htagOld : tag = old.tag
  · subst htagOld
    have hrun : ops.polarHeapXlogUpdate record old.tag hotUpdate s =
        (do
          let (r, _) ← ops.redoOldTuple record false hotUpdate
          return r) s := by
      rw [polarHeapXlogUpdate, redo_bind_ok (polarGetLogTag_run hnew)]
      simp [holdTag, hne, hmap', hoff, polarClearVmIf]
    refine singlePage_oldPage hrun hold holdInit hlocked (by simp) fun p => ?_
    simp [touchAt_append, touchAt_mapTouch hforkOld, hoff.symm]
  · refine singlePage_mapPages ?_ htagOld htag hlocked
    rw [polarHeapXlogUpdate, redo_bind_ok (polarGetLogTag_run hnew)]
    simp [holdTag, hne, htag, htagOld]

end TwoPages

/-! ## `VISIBLE` -/

section Visible

variable {vm heapBlk : DecodedBkpBlock} {side : HeapSide D C}

lemma visibleTouches_eq (hvm : record.block? 0 = some vm) (hheap : record.block? 1 = some heapBlk) :
    ops.visibleTouches side record =
      [(heapBlk.tag, blockEffect ops.image record 1 heapBlk .normal
        (side.setVisible record.endRecPtr)),
      (vm.tag, blockEffect ops.image record 0 vm .zeroOnError
        (side.setMap record.endRecPtr heapBlk.tag.blockNum record.flags))] := by
  simp [visibleTouches, hvm, hheap]

lemma blockAction_zeroOnError_ne (p : RedoPage C) :
    blockAction record blk .zeroOnError p ≠ .notFound := by
  unfold blockAction
  split
  · simp
  · rw [if_neg (by simp)]
    split <;> simp

lemma visibilitymapSet_run {heapBlk : UInt32} {lsn : ℕ} (hfree : tag ∉ s.locked) :
    ops.visibilitymapSet tag heapBlk flags lsn s =
      .ok ((), s.touch tag (ops.setPage heapBlk flags lsn)) := by
  rw [visibilitymapSet, redo_bind_ok (lockBuffer_run hfree), redo_bind_ok modifyPage_run,
    lock_touch, unlockBuffer_lock]

lemma visibleMapPage_run (hmap : tag.blockNum = heapBlkToMapBlock heap.blockNum)
    (hfree : tag ∉ s.locked) :
    ops.visibleMapPage record heap (.needsRedo, some tag) (s.lock tag) =
      .ok ((), s.touch tag (ops.upstream.setMap record.endRecPtr heap.blockNum record.flags)) := by
  have hfree' : tag ∉ (s.touch tag ops.initIfNew).locked := hfree
  have hpin : ops.repin record heap tag (s.touch tag ops.initIfNew)
      = .ok (tag, s.touch tag ops.initIfNew) := by
    rw [repin, if_pos hmap, redo_pure]
  rw [visibleMapPage, redo_bind_ok modifyPage_run, lock_touch, redo_bind_ok unlockBuffer_lock,
    redo_bind_ok hpin, redo_bind_ok getPage_run, touch_pages_self]
  by_cases hlsn : (ops.initIfNew (s.pages tag)).lsn < record.endRecPtr
  · rw [if_pos hlsn, visibilitymapSet_run hfree', touch_touch]
    simp [RedoState.touch, upstream, hlsn]
  · rw [if_neg hlsn, redo_pure]
    simp [RedoState.touch, upstream, hlsn]

lemma visibleMapPage_of_ne {action : RedoAction} {buffer : Buffer} (h : action ≠ .needsRedo) :
    ops.visibleMapPage record heap (action, buffer) s = releaseIfValid buffer s := by
  cases action with
  | needsRedo => exact absurd rfl h
  | done | restored | notFound => rfl

lemma visibleMap_makes (hvm : record.block? 0 = some vm) (hvmInit : vm.willInit = false)
    (hmap : vm.tag.blockNum = heapBlkToMapBlock heap.blockNum) (hlocked : s.locked = []) :
    MakesOn NotFsm [(vm.tag, blockEffect ops.image record 0 vm .zeroOnError
        (ops.upstream.setMap record.endRecPtr heap.blockNum record.flags))]
      (xlogReadBufferForRedoExtended ops.image record 0 .zeroOnError >>=
        ops.visibleMapPage record heap) s := by
  have hfree : vm.tag ∉ s.locked := by simp [hlocked]
  refine .of_run ?_
  rw [touches_singleton, redo_bind,
    xlogReadBufferForRedoExtended_touch hvm (by simpa using hvmInit) hfree]
  simp only [if_neg (blockAction_zeroOnError_ne _)]
  by_cases hneeds : blockAction record vm .zeroOnError (s.pages vm.tag) = .needsRedo
  · have hself : s.touch vm.tag (blockEffect ops.image record 0 vm .zeroOnError fun p => p) = s :=
      touch_eq_self (blockEffect_of_needsRedo hneeds)
    rw [hneeds, hself, visibleMapPage_run hmap hfree]
    simp [RedoState.touch, blockEffect_of_needsRedo hneeds]
  · rw [visibleMapPage_of_ne hneeds, releaseIfValid_lock]
    simp only [RedoState.touch]
    rw [blockEffect_congr hneeds]

lemma redoBlock_makes {space : RedoAction → Option C → Option ℕ}
    (hblk : record.block? 1 = some blk) (hinit : blk.willInit = false) (hlocked : s.locked = []) :
    MakesOn NotFsm [(blk.tag, blockEffect ops.image record 1 blk .normal g)] (do
      let r ← polarRedoBlock ops.image record 1 .normal g
      releaseIfValid r.2
      ops.noteFreeSpace space r) s := by
  refine makes_of_note ops space ?_ hlocked
  rw [redo_bind, polarRedoBlock_run hblk (by simpa using hinit) (by simp [hlocked]),
    touches_singleton]
  by_cases hnot : blockAction record blk .normal (s.pages blk.tag) = .notFound
  · simp only [if_pos hnot, touch_blockEffect_of_notFound hnot]
    exact ⟨_, redo_bind_ok releaseIfValid_none⟩
  · simp only [if_neg hnot]
    exact ⟨_, redo_bind_ok releaseIfValid_lock⟩

lemma heapXlogVisible_makes (hvm : record.block? 0 = some vm)
    (hheap : record.block? 1 = some heapBlk) (hmap : vm.tag = mapTag heapBlk.tag)
    (hvmInit : vm.willInit = false) (hinit : heapBlk.willInit = false) (hlocked : s.locked = []) :
    MakesOn NotFsm (ops.visibleTouches ops.upstream record) (ops.heapXlogVisible record) s := by
  have hblock : vm.tag.blockNum = heapBlkToMapBlock heapBlk.tag.blockNum := by
    rw [hmap]
    rfl
  -- the space of the heap page is recorded before the map page is read
  obtain ⟨s', hrun, hrest⟩ := (redoBlock_makes hheap hinit hlocked).bind fun s' hs' =>
    visibleMap_makes hvm hvmInit hblock (hs'.trans hlocked)
  refine ⟨s', ?_, ?_⟩
  · rw [heapXlogVisible, redo_bind_ok (polarGetLogTag_run hheap), ← hrun]
    simp only [bind_assoc]
    rfl
  · rw [visibleTouches_eq hvm hheap]
    exact hrest

lemma polarHeapXlogVisible_singlePage (hvm : record.block? 0 = some vm)
    (hheap : record.block? 1 = some heapBlk) (hfork : heapBlk.tag.forkNum = 0)
    (hmap : vm.tag = mapTag heapBlk.tag) (hvmInit : vm.willInit = false)
    (hinit : heapBlk.willInit = false) (hlocked : s.locked = []) :
    SinglePage (ops.visibleTouches ops.polar record) tag
      (ops.polarHeapXlogVisible record tag) s := by
  have hne : vm.tag ≠ heapBlk.tag := by
    rw [hmap]
    exact mapTag_ne hfork
  rw [visibleTouches_eq hvm hheap]
  by_cases htag : tag = heapBlk.tag
  · subst htag
    have hrun : ops.polarHeapXlogVisible record heapBlk.tag s =
        polarRedoBlock ops.image record 1 .normal (ops.polar.setVisible record.endRecPtr) s := by
      rw [polarHeapXlogVisible, redo_bind_ok (polarGetLogTag_run hvm),
        redo_bind_ok (polarGetLogTag_run hheap)]
      simp [hne.symm, polar]
    refine .of_read (by simp) (funext fun p => by simp [hne])
      (hrun.trans (polarRedoBlock_run hheap (by simpa using hinit) (by simp [hlocked])))
      blockAction_ne_notFound touch_blockEffect_of_notFound
  by_cases htagVm : tag = vm.tag
  · subst htagVm
    have hrun : ops.polarHeapXlogVisible record vm.tag s =
        polarRedoBlock ops.image record 0 .zeroOnError
          (ops.polar.setMap record.endRecPtr heapBlk.tag.blockNum record.flags) s := by
      rw [polarHeapXlogVisible, redo_bind_ok (polarGetLogTag_run hvm),
        redo_bind_ok (polarGetLogTag_run hheap)]
      simp only [if_neg hne, if_true]
      rw [redo_bind_ok (redo_pure _)]
      rfl
    exact .of_read (by simp) (funext fun p => by simp [hne.symm])
      (hrun.trans (polarRedoBlock_run hvm (by simpa using hvmInit) (by simp [hlocked])))
      blockAction_ne_notFound touch_blockEffect_of_notFound
  · refine .of_notMem (by simp [htag, htagVm]) ?_
    rw [polarHeapXlogVisible, redo_bind_ok (polarGetLogTag_run hvm),
      redo_bind_ok (polarGetLogTag_run hheap)]
    simp [htag, htagVm]

end Visible

/-! ## Dispatch -/

/-- **Full redo of a heap record** makes its touches. -/
theorem heapRedo_makes (hform : HeapWellFormed record) (hflags : UpdateFlags record)
    (hlocked : s.locked = []) :
    MakesOn NotFsm (ops.heapTouches ops.upstream record) (ops.heapRedo record) s := by
  unfold HeapWellFormed at hform
  unfold heapRedo heapTouches
  have hupdate (hotUpdate : Bool) (hform : UpdateForm record)
      (hop : heapOp record.info = .update ∨ heapOp record.info = .hotUpdate) :
      MakesOn NotFsm (ops.updateTouches ops.upstream record hotUpdate)
        (ops.heapXlogUpdate record hotUpdate) s := by
    cases hform with
    | samePage blk hblk hfork hinit hone htwo =>
        exact heapXlogUpdate_samePage hblk hinit hone (hflags hop hone) hlocked
    | twoPages new old hnew hold hfork hrel hne hinit holdInit htwo hthree hcopy =>
        exact heapXlogUpdate_twoPages hnew hold hfork hrel hne hinit holdInit hcopy hlocked
  cases hop : heapOp record.info with
  | insert | delete | lock =>
      rw [hop] at hform
      obtain ⟨blk, hblk, -, hinit, -⟩ := hform
      exact mapHeapRedo_makes hblk hinit hlocked
  | confirm | inplace =>
      rw [hop] at hform
      obtain ⟨blk, hblk, -, hinit, -⟩ := hform
      exact onePageRedo_makes hblk hinit hlocked
  | update =>
      rw [hop] at hform
      exact hupdate false hform (.inl hop)
  | hotUpdate =>
      rw [hop] at hform
      exact hupdate true hform.1 (.inr hop)
  | truncate => exact .of_run rfl

/-- **Single-page redo of a heap record** makes its touches of one page. -/
theorem polarHeapIdxRedo_singlePage (hform : HeapWellFormed record) (hlocked : s.locked = []) :
    SinglePage (ops.heapTouches ops.polar record) tag (ops.polarHeapIdxRedo record tag) s := by
  unfold HeapWellFormed at hform
  unfold polarHeapIdxRedo heapTouches
  have hupdate (hotUpdate : Bool) (hform : UpdateForm record) :
      SinglePage (ops.updateTouches ops.polar record hotUpdate) tag
        (ops.polarHeapXlogUpdate record tag hotUpdate) s := by
    cases hform with
    | samePage blk hblk hfork hinit hone htwo =>
        exact polarHeapXlogUpdate_samePage hblk hfork hinit hone hlocked
    | twoPages new old hnew hold hfork hrel hne hinit holdInit htwo hthree hcopy =>
        exact polarHeapXlogUpdate_twoPages hnew hold hfork hrel hne hinit holdInit hlocked
  cases hop : heapOp record.info with
  | insert | lock =>
      rw [hop] at hform
      obtain ⟨blk, hblk, hfork, hinit, -⟩ := hform
      exact polarMapHeapRedo_singlePage hblk hfork hinit hlocked
  | delete =>
      rw [hop] at hform
      obtain ⟨blk, hblk, hfork, hinit, -⟩ := hform
      exact polarHeapXlogDelete_singlePage hblk hfork hinit hlocked
  | confirm | inplace =>
      rw [hop] at hform
      obtain ⟨blk, hblk, -, hinit, -⟩ := hform
      exact polarOnePageRedo_singlePage hblk hinit hlocked
  | update =>
      rw [hop] at hform
      exact hupdate false hform
  | hotUpdate =>
      rw [hop] at hform
      exact hupdate true hform.1
  | truncate => exact .of_notMem (by simp) rfl

/-- **Full redo of a record of the second resource manager** makes its touches. -/
theorem heap2Redo_makes (hform : Heap2WellFormed record) (hlocked : s.locked = []) :
    MakesOn NotFsm (ops.heap2Touches ops.upstream record) (ops.heap2Redo record) s := by
  unfold Heap2WellFormed at hform
  unfold heap2Redo heap2Touches
  cases hop : heap2Op record.info with
  | clean | freezePage =>
      rw [hop] at hform
      obtain ⟨blk, hblk, -, hinit, -⟩ := hform
      exact onePageRedo_makes hblk hinit hlocked
  | multiInsert | lockUpdated =>
      rw [hop] at hform
      obtain ⟨blk, hblk, -, hinit, -⟩ := hform
      exact mapHeapRedo_makes hblk hinit hlocked
  | visible =>
      rw [hop] at hform
      obtain ⟨vm, heap, hvm, hheap, -, hmap, hvmInit, hinit⟩ := hform
      exact heapXlogVisible_makes hvm hheap hmap hvmInit hinit hlocked
  | cleanupInfo | newCid | rewrite => exact .of_run rfl

/-- **Single-page redo of a record of the second resource manager.** -/
theorem polarHeap2IdxRedo_singlePage (hform : Heap2WellFormed record) (hlocked : s.locked = []) :
    SinglePage (ops.heap2Touches ops.polar record) tag (ops.polarHeap2IdxRedo record tag) s := by
  unfold Heap2WellFormed at hform
  unfold polarHeap2IdxRedo heap2Touches
  cases hop : heap2Op record.info with
  | clean | freezePage =>
      rw [hop] at hform
      obtain ⟨blk, hblk, -, hinit, -⟩ := hform
      exact polarOnePageRedo_singlePage hblk hinit hlocked
  | multiInsert | lockUpdated =>
      rw [hop] at hform
      obtain ⟨blk, hblk, hfork, hinit, -⟩ := hform
      exact polarMapHeapRedo_singlePage hblk hfork hinit hlocked
  | visible =>
      rw [hop] at hform
      obtain ⟨vm, heap, hvm, hheap, hfork, hmap, hvmInit, hinit⟩ := hform
      exact polarHeapXlogVisible_singlePage hvm hheap hfork hmap hvmInit hinit hlocked
  | cleanupInfo | newCid | rewrite => exact .of_notMem (by simp) rfl

end HeapOps

end GroundDB
