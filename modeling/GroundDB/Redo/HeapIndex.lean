import GroundDB.Redo.HeapRuns

/-!
# The index of a heap record is complete

Three computations name the pages of a heap record: the decoder adds the visibility-map pages as
blocks, the save routine inserts pages by block id, and the single-page redo derives the map pages
from the heap blocks again.  For every well-formed record they agree: the pages that are indexed are
the pages the record touches (`heap_indexed`, `heap2_indexed`), and those are the pages for which
single-page redo returns something other than `BLK_NOTFOUND`.

The page that is asked for has to exist: a page that is new or not in its file is reported as
missing whatever the record says.
-/

namespace GroundDB

open Touch

variable {C D : Type} {record decoded : XLogRecord D} {blk : DecodedBkpBlock}

/-- The map page of a heap block is added under a free id, and nothing else changes. -/
lemma saveVmBlockIf_some {blockId vmBlockId : ℕ} (cleared : Bool)
    (hblk : record.block? blockId = some blk) (hfree : record.block? vmBlockId = none) :
    ∃ decoded, saveVmBlockIf cleared blockId vmBlockId record = some decoded ∧
      decoded = { record with blocks := decoded.blocks } ∧
      ∀ id, decoded.block? id =
        if cleared ∧ id = vmBlockId then some ⟨mapTag blk.tag, false, false⟩
        else record.block? id := by
  cases cleared with
  | false => exact ⟨record, rfl, rfl, by simp⟩
  | true =>
      exact ⟨_, polarHeapSaveVmBlock_eq_some.mpr ⟨blk, hblk, hfree, rfl⟩, rfl, by simp⟩

namespace HeapOps

variable {ops : HeapOps D C} {flags : UInt8} {init : Bool} {f : C → C}

lemma mapHeap_indexes (hform : OneHeapBlock record init)
    (hdecode : polarXlogDecodeData record = saveVmBlockIf record.visibleCleared 0 1 record)
    (hsave : ∀ decoded : XLogRecord D, decoded.rmid = record.rmid → decoded.info = record.info →
      parseLogIndexXlog decoded = .handled (mapThenHeap decoded)) :
    Indexes record (touched (ops.mapHeapTouches ops.polar record flags init f)) := by
  obtain ⟨blk, hblk, -, -, hfree⟩ := hform
  obtain ⟨decoded, hdec, heq, hblocks⟩ := saveVmBlockIf_some record.visibleCleared hblk hfree
  have hflag : decoded.visibleCleared = record.visibleCleared := by rw [heq]; rfl
  refine ⟨decoded, _, hdecode.trans hdec, hsave decoded (by rw [heq]) (by rw [heq]; rfl),
    fun tag => ?_⟩
  rw [mapHeapTouches_eq hblk]
  cases hf : record.visibleCleared <;>
    simp [mem_savedTags, mapThenHeap, hflag, hf, touched_mapTouch, XLogRecord.blockTag?, hblocks,
      hblk, eq_comm (a := tag)]

lemma onePage_indexes (hform : OneHeapBlock record init)
    (hdecode : polarXlogDecodeData record = some record)
    (hsave : parseLogIndexXlog record = .handled [0]) :
    Indexes record (touched (ops.onePageTouches record f)) := by
  obtain ⟨blk, hblk, -⟩ := hform
  have htag : record.blockTag? 0 = some blk.tag :=
    XLogRecord.blockTag?_of_block? hblk
  refine ⟨record, _, hdecode, hsave, fun tag => ?_⟩
  simp [mem_savedTags, onePageTouches_eq hblk, htag, eq_comm (a := tag)]

lemma noPage_indexes (hdecode : polarXlogDecodeData record = some record)
    (hsave : parseLogIndexXlog record = .handled []) : Indexes record [] :=
  ⟨record, _, hdecode, hsave, by simp [mem_savedTags]⟩

lemma update_saved_samePage {hotUpdate : Bool} (hblk : record.block? 0 = some blk)
    (hone : record.block? 1 = none) (htwo : record.block? 2 = none) :
    ∃ decoded ids, polarHeapUpdateSaveVmLogindex record = some decoded ∧
      polarHeapXlogUpdateSave decoded = some ids ∧
      ∀ tag, tag ∈ decoded.savedTags ids ↔
        tag ∈ touched (ops.updateTouches ops.polar record hotUpdate) := by
  obtain ⟨decoded, hdec, heq, hblocks⟩ := saveVmBlockIf_some record.visibleCleared hblk htwo
  have hflag : decoded.visibleCleared = record.visibleCleared := by rw [heq]; rfl
  have hnew : decoded.blockTag? 0 = some blk.tag := by simp [XLogRecord.blockTag?, hblocks, hblk]
  have hold : decoded.blockTag? 1 = none := by simp [XLogRecord.blockTag?, hblocks, hone]
  have hvm : decoded.visibleCleared = true → decoded.blockTag? 2 = some (mapTag blk.tag) := by
    intro h
    simp [XLogRecord.blockTag?, hblocks, ← hflag, h]
  refine ⟨decoded, _, ?_, updateSave_samePage hnew (by simp [hold]) hvm, fun tag => ?_⟩
  · simp [polarHeapUpdateSaveVmLogindex, hblk, hone, hdec]
  · rw [updateTouches_samePage hblk hone]
    cases hf : record.visibleCleared <;>
      simp [mem_savedTags, touched_mapTouch, hflag, hf, hnew, hvm, eq_comm (a := tag)]

lemma update_saved_twoPages {hotUpdate : Bool} {new old : DecodedBkpBlock}
    (hnew : record.block? 0 = some new) (hold : record.block? 1 = some old)
    (hne : old.tag.blockNum ≠ new.tag.blockNum) (htwo : record.block? 2 = none)
    (hthree : record.block? 3 = none) :
    ∃ decoded ids, polarHeapUpdateSaveVmLogindex record = some decoded ∧
      polarHeapXlogUpdateSave decoded = some ids ∧
      ∀ tag, tag ∈ decoded.savedTags ids ↔
        tag ∈ touched (ops.updateTouches ops.polar record hotUpdate) := by
  obtain ⟨mid, hmid, hmidEq, hmidBlocks⟩ := saveVmBlockIf_some record.visibleCleared hold hthree
  have hmidNew : mid.block? 0 = some new := by simp [hmidBlocks, hnew]
  have hmidTwo : mid.block? 2 = none := by simp [hmidBlocks, htwo]
  obtain ⟨decoded, hdec, heq, hblocks⟩ :=
    saveVmBlockIf_some record.newVisibleCleared hmidNew hmidTwo
  have hflag : decoded.visibleCleared = record.visibleCleared := by rw [heq, hmidEq]; rfl
  have hnflag : decoded.newVisibleCleared = record.newVisibleCleared := by rw [heq, hmidEq]; rfl
  have hnewTag : decoded.blockTag? 0 = some new.tag := by
    simp [XLogRecord.blockTag?, hblocks, hmidNew]
  have holdTag : decoded.blockTag? 1 = some old.tag := by
    simp [XLogRecord.blockTag?, hblocks, hmidBlocks, hold]
  have hvmOld : decoded.visibleCleared = true → decoded.blockTag? 3 = some (mapTag old.tag) := by
    intro h
    simp [XLogRecord.blockTag?, hblocks, hmidBlocks, ← hflag, h]
  have hvmNew : decoded.newVisibleCleared = true →
      decoded.blockTag? 2 = some (mapTag new.tag) := by
    intro h
    simp [XLogRecord.blockTag?, hblocks, ← hnflag, h]
  refine ⟨decoded, _, ?_, updateSave_twoPages hnewTag holdTag hne hvmOld hvmNew, fun tag => ?_⟩
  · simp [polarHeapUpdateSaveVmLogindex, hnew, hold, hne.symm, hmid, hdec]
  · rw [updateTouches_twoPages hnew hold]
    -- a map page that both heap pages share is saved once
    by_cases hmap : mapTag old.tag = mapTag new.tag <;>
      cases hf : record.visibleCleared <;> cases hn : record.newVisibleCleared <;>
      simp [mem_savedTags, touched_mapTouch, hflag, hnflag, hf, hn, hmap, hnewTag, holdTag, hvmOld,
        hvmNew, eq_comm (a := tag)] <;> grind

lemma update_indexes {hotUpdate : Bool} (hform : UpdateForm record)
    (hdecode : polarXlogDecodeData record = polarHeapUpdateSaveVmLogindex record)
    (hsave : ∀ decoded : XLogRecord D, decoded.rmid = record.rmid → decoded.info = record.info →
      parseLogIndexXlog decoded = .ofOption (polarHeapXlogUpdateSave decoded)) :
    Indexes record (touched (ops.updateTouches ops.polar record hotUpdate)) := by
  obtain ⟨decoded, ids, hdec, hids, htags⟩ : ∃ decoded ids,
      polarHeapUpdateSaveVmLogindex record = some decoded ∧
      polarHeapXlogUpdateSave decoded = some ids ∧
      ∀ tag, tag ∈ decoded.savedTags ids ↔
        tag ∈ touched (ops.updateTouches ops.polar record hotUpdate) := by
    cases hform with
    | samePage blk hblk hfork hinit hone htwo => exact update_saved_samePage hblk hone htwo
    | twoPages new old hnew hold hfork hrel hne hinit holdInit htwo hthree hcopy =>
        exact update_saved_twoPages hnew hold hne htwo hthree
  have heq := polarHeapUpdateSaveVmLogindex_eq hdec
  refine ⟨decoded, ids, hdecode.trans hdec, ?_, htags⟩
  rw [hsave decoded (by rw [heq]) (by rw [heq]; rfl), hids, IdxResult.ofOption_some]

/-! ## Records -/

/-- The pages a heap record touches. -/
def recordTouches (ops : HeapOps D C) (side : HeapSide D C) (record : XLogRecord D) :
    Touches C :=
  match record.rmid with
  | .heap => ops.heapTouches side record
  | .heap2 => ops.heap2Touches side record
  | _ => []

/-- Single-page redo of a heap record. -/
def polarIdxRedo (ops : HeapOps D C) (record : XLogRecord D) (tag : BufferTag) :
    Redo C (RedoAction × Buffer) :=
  match record.rmid with
  | .heap => ops.polarHeapIdxRedo record tag
  | .heap2 => ops.polarHeap2IdxRedo record tag
  | _ => pure (.notFound, none)

end HeapOps

/-- A record of one of the heap resource managers, with the blocks its writer registers. -/
def HeapRecord (record : XLogRecord D) : Prop :=
  (record.rmid = .heap ∧ HeapWellFormed record) ∨ (record.rmid = .heap2 ∧ Heap2WellFormed record)

section Records

variable (ops : HeapOps D C)

/-- The pages of a heap record. -/
theorem heap_indexed (hrmid : record.rmid = .heap) (hform : HeapWellFormed record) :
    Indexes record (touched (ops.heapTouches ops.polar record)) := by
  have hdecode : polarXlogDecodeData record = polarXlogQueueDecodeHeap record := by
    simp [polarXlogDecodeData, hrmid]
  have hparse (decoded : XLogRecord D) (h : decoded.rmid = record.rmid) :
      parseLogIndexXlog decoded = polarHeapIdxSave decoded := by
    simp [parseLogIndexXlog, h, hrmid]
  unfold polarXlogQueueDecodeHeap at hdecode
  unfold HeapWellFormed at hform
  unfold HeapOps.heapTouches
  cases hop : heapOp record.info with
  | insert | delete | lock =>
      rw [hop] at hform hdecode
      refine HeapOps.mapHeap_indexes hform hdecode fun decoded hid hinfo => ?_
      rw [hparse decoded hid, polarHeapIdxSave, hinfo, hop]
      rfl
  | confirm | inplace =>
      rw [hop] at hform hdecode
      refine HeapOps.onePage_indexes hform hdecode ?_
      rw [hparse record rfl, polarHeapIdxSave, hop]
  | update =>
      rw [hop] at hform hdecode
      refine HeapOps.update_indexes hform hdecode fun decoded hid hinfo => ?_
      rw [hparse decoded hid, polarHeapIdxSave, hinfo, hop]
  | hotUpdate =>
      rw [hop] at hform hdecode
      have hone : record.hasBlockRef 1 = false := by simp [XLogRecord.hasBlockRef, hform.2]
      simp only [hone, Bool.false_eq_true, if_false] at hdecode
      refine HeapOps.update_indexes hform.1 hdecode fun decoded hid hinfo => ?_
      rw [hparse decoded hid, polarHeapIdxSave, hinfo, hop]
  | truncate =>
      rw [hop] at hdecode
      refine HeapOps.noPage_indexes hdecode ?_
      rw [hparse record rfl, polarHeapIdxSave, hop]

/-- The pages of a record of the second resource manager. -/
theorem heap2_indexed (hrmid : record.rmid = .heap2) (hform : Heap2WellFormed record) :
    Indexes record (touched (ops.heap2Touches ops.polar record)) := by
  have hdecode : polarXlogDecodeData record = polarXlogQueueDecodeHeap2 record := by
    simp [polarXlogDecodeData, hrmid]
  have hparse (decoded : XLogRecord D) (h : decoded.rmid = record.rmid) :
      parseLogIndexXlog decoded = polarHeap2IdxSave decoded := by
    simp [parseLogIndexXlog, h, hrmid]
  unfold polarXlogQueueDecodeHeap2 at hdecode
  unfold Heap2WellFormed at hform
  unfold HeapOps.heap2Touches
  cases hop : heap2Op record.info with
  | clean | freezePage =>
      rw [hop] at hform hdecode
      refine HeapOps.onePage_indexes hform hdecode ?_
      rw [hparse record rfl, polarHeap2IdxSave, hop]
  | multiInsert | lockUpdated =>
      rw [hop] at hform hdecode
      refine HeapOps.mapHeap_indexes hform hdecode fun decoded hid hinfo => ?_
      rw [hparse decoded hid, polarHeap2IdxSave, hinfo, hop]
      rfl
  | visible =>
      rw [hop] at hform hdecode
      obtain ⟨vm, heap, hvm, hheap, -⟩ := hform
      refine ⟨record, [1, 0], hdecode, ?_, fun tag => ?_⟩
      · rw [hparse record rfl, polarHeap2IdxSave, hop]
      · simp [mem_savedTags, HeapOps.visibleTouches_eq hvm hheap, XLogRecord.blockTag?, hvm, hheap,
          eq_comm (a := tag)]
  | cleanupInfo | newCid | rewrite =>
      rw [hop] at hdecode
      refine HeapOps.noPage_indexes hdecode ?_
      rw [hparse record rfl, polarHeap2IdxSave, hop]

/-- The indexed pages are the ones single-page redo touches. -/
theorem heapRecord_indexed (hform : HeapRecord record) :
    Indexes record (touched (ops.recordTouches ops.polar record)) := by
  unfold HeapOps.recordTouches
  rcases hform with ⟨hrmid, hform⟩ | ⟨hrmid, hform⟩ <;> rw [hrmid]
  · exact heap_indexed ops hrmid hform
  · exact heap2_indexed ops hrmid hform

/-- Single-page redo of a heap record makes its touches of one page. -/
theorem polarIdxRedo_singlePage (hform : HeapRecord record) {s : RedoState C}
    (hlocked : s.locked = []) (tag : BufferTag) :
    SinglePage (ops.recordTouches ops.polar record) tag (ops.polarIdxRedo record tag) s := by
  unfold HeapOps.recordTouches HeapOps.polarIdxRedo
  rcases hform with ⟨hrmid, hform⟩ | ⟨hrmid, hform⟩ <;> rw [hrmid]
  · exact HeapOps.polarHeapIdxRedo_singlePage hform hlocked
  · exact HeapOps.polarHeap2IdxRedo_singlePage hform hlocked

/-- **The heap index is complete.**  For every well-formed heap record, whatever its flags and
whether an update stays on its page or not, decoding succeeds and saving does not panic; and single-
page redo returns `BLK_NOTFOUND` for every page that is not indexed, and for no page that is, if it
exists. -/
theorem heap_index_complete (hform : HeapRecord record) :
    ∃ decoded ids, polarXlogDecodeData record = some decoded ∧
      parseLogIndexXlog decoded = .handled ids ∧
      ∀ (tag : BufferTag) (s : RedoState C), s.locked = [] →
        ∃ r s', ops.polarIdxRedo record tag s = .ok (r, s') ∧
          (tag ∉ decoded.savedTags ids → r.1 = .notFound) ∧
          (tag ∈ decoded.savedTags ids → (s.pages tag).body ≠ none → r.1 ≠ .notFound) := by
  obtain ⟨decoded, ids, hdec, hsave, htags⟩ := heapRecord_indexed ops hform
  refine ⟨decoded, ids, hdec, hsave, fun tag s hlocked => ?_⟩
  obtain ⟨r, s', -, hrun, -, -, -, hnot, hfound⟩ := polarIdxRedo_singlePage ops hform hlocked tag
  exact ⟨r, s', hrun, fun h => hnot fun hmem => h ((htags tag).mpr hmem),
    fun h => hfound ((htags tag).mp h)⟩

end Records

/-- An update from page 7 to page 8, which have one map page, with both flags set. -/
def sharedMapUpdate : XLogRecord Unit where
  rmid := .heap
  xlInfo := 0x20
  flags := 0x03
  blocks := [some ⟨⟨1663, 5, 16384, 0, 8⟩, false, false⟩,
    some ⟨⟨1663, 5, 16384, 0, 7⟩, false, false⟩]
  endRecPtr := 100
  data := ()

/-- Pages that count their tuples. -/
def countTuples : HeapOps Unit ℕ where
  pageInit := 0
  image _ _ := none
  clearAllVisible := id
  setAllVisible := id
  mapClear _ _ := id
  mapSet _ _ := id
  mapHas _ _ _ := true
  insert _ n := n + 1
  multiInsert _ n := n + 1
  delete _ := id
  deleteCtid _ := id
  updateOld _ _ := id
  updateNew _ _ n := n + 1
  confirm _ := id
  lock _ := id
  inplace _ := id
  clean _ := id
  freezePage _ := id
  lockUpdated _ := id
  heapFreeSpace n := 8192 - n.getD 0
  freeSpace n := 8192 - n.getD 0
  fsmSetAvail _ spaceAvail _ := spaceAvail
  vmNblocks _ _ := 0
  polarVmNblocks _ _ := 0

theorem heap_index_complete_shared_map :
    HeapRecord sharedMapUpdate ∧
    ∃ decoded ids, polarXlogDecodeData sharedMapUpdate = some decoded ∧
      parseLogIndexXlog decoded = .handled ids ∧
      ∀ (tag : BufferTag) (s : RedoState ℕ), s.locked = [] →
        ∃ r s', countTuples.polarIdxRedo sharedMapUpdate tag s = .ok (r, s') ∧
          (tag ∉ decoded.savedTags ids → r.1 = .notFound) ∧
          (tag ∈ decoded.savedTags ids → (s.pages tag).body ≠ none → r.1 ≠ .notFound) := by
  have hform : HeapRecord sharedMapUpdate :=
    .inl ⟨rfl, UpdateForm.twoPages _ _ rfl rfl rfl rfl (by decide) rfl rfl rfl rfl rfl⟩
  exact ⟨hform, heap_index_complete countTuples hform⟩

end GroundDB
