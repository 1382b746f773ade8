import GroundDB.PageStore.Tag

/-!
# A decoded WAL record

The part of `XLogReaderState` that indexing and redo read: the resource manager, the info byte,
the blocks the record refers to, and its main data.  Block `i` is entry `i` of `blocks`, `none` if
the id is not in use; the list ends at `max_block_id`.

The heap resource managers leave out of the record the visibility-map pages a record clears bits
on.  `polarXlogDecodeData` adds them before the record is indexed: it derives the map block from the
heap block and files it under the first free id.  Its assertions are failures here (`none`).
-/

namespace GroundDB

/-- The resource managers of `rmgrlist.h`. -/
inductive RmgrId
  | xlog | xact | smgr | clog | dbase | tblspc | multixact | relmap | standby | heap2 | heap
  | btree | hash | gin | gist | seq | spgist | brin | commitTs | replorigin | generic | logicalmsg
deriving DecidableEq, Repr

/-- `DecodedBkpBlock`: the page a block reference names, whether the record carries a page image
that has to be applied, and whether redo initialises the page (`BKPBLOCK_WILL_INIT`). -/
structure DecodedBkpBlock where
  tag : BufferTag
  applyImage : Bool
  willInit : Bool
deriving DecidableEq, Repr

/-- A decoded record.  `flags` is the `flags` byte of the heap main-data structs, `data` stands for
the rest of the main data and for the blocks' data and images, which only page item operations
read. -/
structure XLogRecord (D : Type) where
  rmid : RmgrId
  xlInfo : UInt8
  flags : UInt8
  blocks : List (Option DecodedBkpBlock)
  endRecPtr : ℕ
  data : D
deriving DecidableEq, Repr

namespace XLogRecord

variable {D : Type} (record : XLogRecord D) (i j : ℕ)

/-- `XLogRecGetInfo(record) & ~XLR_INFO_MASK`. -/
def info : UInt8 := record.xlInfo &&& 0xF0

/-- The block reference with id `i`, if it is in use. -/
def block? : Option DecodedBkpBlock := record.blocks[i]?.join

/-- `XLogRecHasBlockRef`. -/
def hasBlockRef : Bool := (record.block? i).isSome

/-- `XLogRecGetBlockTag`: the page a block reference names. -/
def blockTag? : Option BufferTag := (record.block? i).map (·.tag)

/-- File a block under id `i`, raising `max_block_id` to it if necessary. -/
def setBlock (b : DecodedBkpBlock) : XLogRecord D :=
  { record with
    blocks := (record.blocks ++ List.replicate (i + 1 - record.blocks.length) none).set i (some b) }

variable {record i j}

lemma blockTag?_of_block? {blk : DecodedBkpBlock} (h : record.block? i = some blk) :
    record.blockTag? i = some blk.tag := by
  simp [blockTag?, h]

lemma tag_of_blockTag? {blk : DecodedBkpBlock} {t : BufferTag} (h : record.block? i = some blk)
    (ht : record.blockTag? i = some t) : blk.tag = t :=
  Option.some.inj ((blockTag?_of_block? h).symm.trans ht)

lemma hasBlockRef_eq : record.hasBlockRef i = (record.blockTag? i).isSome := by
  simp [hasBlockRef, blockTag?]

@[simp] lemma block?_setBlock (b : DecodedBkpBlock) :
    (record.setBlock i b).block? j = if j = i then some b else record.block? j := by
  by_cases hj : j = i
  · subst hj
    have hlen : j < record.blocks.length + (j + 1 - record.blocks.length) := by omega
    simp [block?, setBlock, hlen]
  · rw [if_neg hj]
    simp only [block?, setBlock, List.getElem?_set, Ne.symm hj, if_false]
    by_cases hlt : j < record.blocks.length
    · rw [List.getElem?_append_left hlt]
    · -- ids past the old end are filled with unused references
      rw [List.getElem?_append_right (by omega), List.getElem?_replicate]
      rw [List.getElem?_eq_none (by omega)]
      split <;> rfl

lemma blockTag?_setBlock (b : DecodedBkpBlock) :
    (record.setBlock i b).blockTag? j = if j = i then some b.tag else record.blockTag? j := by
  simp only [blockTag?, block?_setBlock]
  split <;> rfl

end XLogRecord

/-! ## Visibility-map blocks -/

/-- `HEAPBLK_TO_MAPBLOCK`: a map page holds two bits for each of 8168 · 4 heap pages. -/
def heapBlkToMapBlock (blkno : UInt32) : UInt32 := blkno / 32672

/-- The visibility-map page of a heap page. -/
def mapTag (tag : BufferTag) : BufferTag :=
  { tag with forkNum := 2, blockNum := heapBlkToMapBlock tag.blockNum }

/-- The loop of `vm_extend`: `n` blocks are added to a map of `now` blocks, each by `extend`. -/
def vmExtendLoop {σ : Type*} (extend : UInt32 → σ → σ) : ℕ → UInt32 → σ → σ
  | 0, _, s => s
  | n + 1, now, s => vmExtendLoop extend n (now + 1) (extend now s)

/-- The operations of the heap resource manager. -/
inductive HeapOp
  | insert | delete | update | truncate | hotUpdate | confirm | lock | inplace
deriving DecidableEq, Repr

/-- The operations of the second heap resource manager. -/
inductive Heap2Op
  | rewrite | clean | freezePage | cleanupInfo | visible | multiInsert | lockUpdated | newCid
deriving DecidableEq, Repr

/-- `info & XLOG_HEAP_OPMASK`: every value is an operation. -/
def heapOp (info : UInt8) : HeapOp :=
  match info &&& 0x70 with
  | 0x00 => .insert
  | 0x10 => .delete
  | 0x20 => .update
  | 0x30 => .truncate
  | 0x40 => .hotUpdate
  | 0x50 => .confirm
  | 0x60 => .lock
  | _ => .inplace

/-- `info & XLOG_HEAP_OPMASK` of the second resource manager. -/
def heap2Op (info : UInt8) : Heap2Op :=
  match info &&& 0x70 with
  | 0x00 => .rewrite
  | 0x10 => .clean
  | 0x20 => .freezePage
  | 0x30 => .cleanupInfo
  | 0x40 => .visible
  | 0x50 => .multiInsert
  | 0x60 => .lockUpdated
  | _ => .newCid

/-- Bit 0 of the main data's flags: `XLH_INSERT_ALL_VISIBLE_CLEARED`,
`XLH_DELETE_ALL_VISIBLE_CLEARED`, `XLH_UPDATE_OLD_ALL_VISIBLE_CLEARED` or
`XLH_LOCK_ALL_FROZEN_CLEARED`. -/
def XLogRecord.visibleCleared {D : Type} (record : XLogRecord D) : Bool :=
  record.flags &&& 1 != 0

/-- Bit 1 of an update's flags: `XLH_UPDATE_NEW_ALL_VISIBLE_CLEARED`. -/
def XLogRecord.newVisibleCleared {D : Type} (record : XLogRecord D) : Bool :=
  record.flags &&& 2 != 0

variable {D : Type}

@[simp] lemma XLogRecord.setBlock_visibleCleared (record : XLogRecord D) (i : ℕ)
    (b : DecodedBkpBlock) : (record.setBlock i b).visibleCleared = record.visibleCleared := rfl

@[simp] lemma XLogRecord.setBlock_newVisibleCleared (record : XLogRecord D) (i : ℕ)
    (b : DecodedBkpBlock) :
    (record.setBlock i b).newVisibleCleared = record.newVisibleCleared := rfl

/-- `polar_heap_save_vm_block`: file the map page of block `blockId` under `vmBlockId`. -/
def polarHeapSaveVmBlock (record : XLogRecord D) (blockId vmBlockId : ℕ) :
    Option (XLogRecord D) := do
  let blk ← record.block? blockId
  if record.hasBlockRef vmBlockId then none
  else some (record.setBlock vmBlockId ⟨mapTag blk.tag, false, false⟩)

lemma polarHeapSaveVmBlock_eq_some {record decoded : XLogRecord D} {blockId vmBlockId : ℕ} :
    polarHeapSaveVmBlock record blockId vmBlockId = some decoded ↔
      ∃ blk, record.block? blockId = some blk ∧ record.block? vmBlockId = none ∧
        decoded = record.setBlock vmBlockId ⟨mapTag blk.tag, false, false⟩ := by
  simp only [polarHeapSaveVmBlock, XLogRecord.hasBlockRef, Option.bind_eq_bind,
    Option.bind_eq_some_iff]
  refine exists_congr fun blk => and_congr_right fun _ => ?_
  by_cases hfree : record.block? vmBlockId = none
  · simp [hfree, eq_comm]
  · simp [hfree, Option.isSome_iff_ne_none]

/-- The map page of block `blockId` is filed under `vmBlockId` if its bits were cleared. -/
def saveVmBlockIf (cleared : Bool) (blockId vmBlockId : ℕ) (record : XLogRecord D) :
    Option (XLogRecord D) :=
  if cleared then polarHeapSaveVmBlock record blockId vmBlockId else some record

lemma saveVmBlockIf_cases {cleared : Bool} {record decoded : XLogRecord D} {blockId vmBlockId : ℕ}
    (h : saveVmBlockIf cleared blockId vmBlockId record = some decoded) :
    (cleared = true ∧ ∃ blk, record.block? blockId = some blk ∧ record.block? vmBlockId = none ∧
      decoded = record.setBlock vmBlockId ⟨mapTag blk.tag, false, false⟩) ∨
    (cleared = false ∧ decoded = record) := by
  cases cleared with
  | true => exact .inl ⟨rfl, polarHeapSaveVmBlock_eq_some.mp h⟩
  | false => exact .inr ⟨rfl, (Option.some.inj h).symm⟩

/-- `polar_heap_update_save_vm_logindex`.  On one page the new tuple's flag is not looked at. -/
def polarHeapUpdateSaveVmLogindex (record : XLogRecord D) : Option (XLogRecord D) := do
  let new ← record.block? 0
  let blknoOld := ((record.block? 1).map (·.tag.blockNum)).getD new.tag.blockNum
  if new.tag.blockNum ≠ blknoOld then
    (saveVmBlockIf record.visibleCleared 1 3 record).bind
      (saveVmBlockIf record.newVisibleCleared 0 2)
  else saveVmBlockIf record.visibleCleared 0 2 record

/-- `polar_xlog_queue_decode_heap`.  A hot update never leaves its page. -/
def polarXlogQueueDecodeHeap (record : XLogRecord D) : Option (XLogRecord D) :=
  match heapOp record.info with
  | .insert | .delete | .lock => saveVmBlockIf record.visibleCleared 0 1 record
  | .update => polarHeapUpdateSaveVmLogindex record
  | .hotUpdate =>
    if record.hasBlockRef 1 then none else polarHeapUpdateSaveVmLogindex record
  | .truncate | .confirm | .inplace => some record

/-- `polar_xlog_queue_decode_heap2`. -/
def polarXlogQueueDecodeHeap2 (record : XLogRecord D) : Option (XLogRecord D) :=
  match heap2Op record.info with
  | .multiInsert | .lockUpdated => saveVmBlockIf record.visibleCleared 0 1 record
  | .rewrite | .clean | .freezePage | .cleanupInfo | .visible | .newCid => some record

/-- `polar_xlog_decode_data`. -/
def polarXlogDecodeData (record : XLogRecord D) : Option (XLogRecord D) :=
  match record.rmid with
  | .heap => polarXlogQueueDecodeHeap record
  | .heap2 => polarXlogQueueDecodeHeap2 record
  | _ => some record

/-! ### Decoding moves nothing but the blocks -/

section Decode

variable {record decoded : XLogRecord D}

lemma saveVmBlockIf_eq {cleared : Bool} {blockId vmBlockId : ℕ}
    (h : saveVmBlockIf cleared blockId vmBlockId record = some decoded) :
    decoded = { record with blocks := decoded.blocks } := by
  rcases saveVmBlockIf_cases h with ⟨-, _, -, -, rfl⟩ | ⟨-, rfl⟩ <;> rfl

lemma polarHeapUpdateSaveVmLogindex_eq (h : polarHeapUpdateSaveVmLogindex record = some decoded) :
    decoded = { record with blocks := decoded.blocks } := by
  obtain ⟨new, -, h⟩ := Option.bind_eq_some_iff.mp h
  simp only at h
  split at h
  · obtain ⟨mid, hmid, h⟩ := Option.bind_eq_some_iff.mp h
    rw [saveVmBlockIf_eq h, saveVmBlockIf_eq hmid]
  · exact saveVmBlockIf_eq h

lemma polarXlogQueueDecodeHeap_eq (h : polarXlogQueueDecodeHeap record = some decoded) :
    decoded = { record with blocks := decoded.blocks } := by
  unfold polarXlogQueueDecodeHeap at h
  split at h
  · exact saveVmBlockIf_eq h
  · exact saveVmBlockIf_eq h
  · exact saveVmBlockIf_eq h
  · exact polarHeapUpdateSaveVmLogindex_eq h
  · split at h
    · cases h
    · exact polarHeapUpdateSaveVmLogindex_eq h
  all_goals
    obtain rfl := Option.some.inj h
    rfl

lemma polarXlogQueueDecodeHeap2_eq (h : polarXlogQueueDecodeHeap2 record = some decoded) :
    decoded = { record with blocks := decoded.blocks } := by
  unfold polarXlogQueueDecodeHeap2 at h
  split at h
  · exact saveVmBlockIf_eq h
  · exact saveVmBlockIf_eq h
  all_goals
    obtain rfl := Option.some.inj h
    rfl

lemma polarXlogDecodeData_eq (h : polarXlogDecodeData record = some decoded) :
    decoded = { record with blocks := decoded.blocks } := by
  unfold polarXlogDecodeData at h
  split at h
  · exact polarXlogQueueDecodeHeap_eq h
  · exact polarXlogQueueDecodeHeap2_eq h
  · obtain rfl := Option.some.inj h
    rfl

end Decode

end GroundDB
