import GroundDB.Redo.Buffer

/-!
# Heap redo, whole and page by page

`heap_redo` and `heap2_redo` apply a record to every page it concerns.  `polar_heap_idx_redo` and
`polar_heap2_idx_redo` apply it to one page, which they are told by its tag; they leave the buffer
locked for the caller and return what was done.

A record that clears bits of the visibility map does not refer to the map page: both sides derive it
from the heap block.  A map that does not reach it yet is extended through it, block by block.  The
upstream routines leave the LSN of the map page alone when they clear bits, and that of the heap
page when they set its all-visible flag; the single-page routines set both.

Only the full redo records free space: it notes the space of a heap page on a page of the free space
map, which the record does not refer to either.

What is done to the items of a page, and to the bits of a map page, are functions of the record and
the contents, the same for both sides.  Recovery conflicts and the files of a logical rewrite are
left out.
-/

namespace GroundDB

variable {C D : Type}

/-- `XLogRecGetInfo(record) & XLOG_HEAP_INIT_PAGE`. -/
def XLogRecord.initPage (record : XLogRecord D) : Bool := record.xlInfo &&& 0x80 != 0

/-- `XLH_UPDATE_PREFIX_FROM_OLD | XLH_UPDATE_SUFFIX_FROM_OLD`: part of the new tuple is copied from
the old one. -/
def XLogRecord.fromOld (record : XLogRecord D) : Bool := record.flags &&& 0x60 != 0

/-- `VISIBILITYMAP_VALID_BITS`. -/
def visibilitymapValidBits : UInt8 := 0x03

/-- `VISIBILITYMAP_ALL_FROZEN`. -/
def visibilitymapAllFrozen : UInt8 := 0x02

/-- `BLCKSZ / 5`: a page with less free space is running low. -/
def lowFreeSpace : ℕ := 8192 / 5

/-- The page of the free space map with the space of a heap page: `fsm_logical_to_physical` of
`fsm_get_location`.  A page has 4069 slots, and the tree has three levels. -/
def fsmTag (heap : BufferTag) : BufferTag :=
  let leaf := heap.blockNum / 4069
  { heap with forkNum := 1, blockNum := leaf + leaf / 4069 + leaf / 4069 / 4069 + 2 }

/-- What redo does to the contents of pages. -/
structure HeapOps (D C : Type) where
  /-- `PageInit` -/
  pageInit : C
  /-- `RestoreBlockImage` for a block of a record -/
  image : D → ℕ → Option C
  /-- `PageClearAllVisible` -/
  clearAllVisible : C → C
  /-- `PageSetAllVisible` -/
  setAllVisible : C → C
  /-- clear bits of a heap block on its map page -/
  mapClear : (heapBlk : UInt32) → (flags : UInt8) → C → C
  /-- set bits of a heap block on its map page -/
  mapSet : (heapBlk : UInt32) → (flags : UInt8) → C → C
  /-- the bits of a heap block are the given ones -/
  mapHas : (heapBlk : UInt32) → (flags : UInt8) → C → Bool
  /-- add the tuple of an insert -/
  insert : XLogRecord D → C → C
  /-- add the tuples of a multi-insert -/
  multiInsert : XLogRecord D → C → C
  /-- mark the tuple of a delete -/
  delete : XLogRecord D → C → C
  /-- set `t_ctid` of the tuple of a delete -/
  deleteCtid : XLogRecord D → C → C
  /-- mark the old tuple of an update -/
  updateOld : XLogRecord D → (hotUpdate : Bool) → C → C
  /-- add the new tuple of an update, given the page of the old one if it is copied from -/
  updateNew : XLogRecord D → Option C → C → C
  confirm : XLogRecord D → C → C
  lock : XLogRecord D → C → C
  inplace : XLogRecord D → C → C
  /-- `heap_page_prune_execute` -/
  clean : XLogRecord D → C → C
  freezePage : XLogRecord D → C → C
  lockUpdated : XLogRecord D → C → C
  /-- `PageGetHeapFreeSpace` -/
  heapFreeSpace : Option C → ℕ
  /-- `PageGetFreeSpace` -/
  freeSpace : Option C → ℕ
  /-- `fsm_set_avail` in the slot of a heap block -/
  fsmSetAvail : (heapBlk : UInt32) → (spaceAvail : ℕ) → C → C
  /-- the size of the map a page belongs to, as full redo of a record finds it -/
  vmNblocks : XLogRecord D → (vm : BufferTag) → UInt32
  /-- the same for single-page redo -/
  polarVmNblocks : XLogRecord D → (vm : BufferTag) → UInt32

namespace HeapOps

variable (ops : HeapOps D C) (record : XLogRecord D) (tag : BufferTag)

/-! ## Page contents -/

/-- `if (flag) PageClearAllVisible(page)`. -/
def clearVisibleIf (flag : Bool) (c : C) : C := if flag then ops.clearAllVisible c else c

/-- The page of an insert. -/
def insertPage (c : C) : C := ops.clearVisibleIf record.visibleCleared (ops.insert record c)

/-- The page of a multi-insert. -/
def multiInsertPage (c : C) : C :=
  ops.clearVisibleIf record.visibleCleared (ops.multiInsert record c)

/-- The page of a delete; `t_ctid` is set last. -/
def deletePage (c : C) : C :=
  ops.deleteCtid record (ops.clearVisibleIf record.visibleCleared (ops.delete record c))

/-- The old page of an update. -/
def redoOldPage (hotUpdate : Bool) : RedoPage C → RedoPage C :=
  RedoPage.redo (fun c => ops.clearVisibleIf record.visibleCleared
    (ops.updateOld record hotUpdate c)) record.endRecPtr

/-- The new page of an update.  The old tuple is looked at only if it is copied from. -/
def redoNewPage (old : Option C) : RedoPage C → RedoPage C :=
  RedoPage.redo (fun c => ops.clearVisibleIf record.newVisibleCleared
    (ops.updateNew record (if record.fromOld then old else none) c)) record.endRecPtr

/-- `if (PageIsNew(page)) PageInit(page)`. -/
def initIfNew (p : RedoPage C) : RedoPage C :=
  match p.body with
  | none => ⟨0, some ops.pageInit⟩
  | some _ => p

/-- Clear bits on a map page. -/
def clearedPage (heapBlk : UInt32) (flags : UInt8) (p : RedoPage C) : RedoPage C :=
  ⟨p.lsn, p.body.map (ops.mapClear heapBlk flags)⟩

/-- Set bits on a map page, if they are not the ones that are there. -/
def setBits (heapBlk : UInt32) (flags : UInt8) (c : C) : C :=
  if ops.mapHas heapBlk flags c then c else ops.mapSet heapBlk flags c

/-- The map page after `visibilitymap_set`, which sets the LSN if it sets bits. -/
def setPage (heapBlk : UInt32) (flags : UInt8) (lsn : ℕ) (p : RedoPage C) : RedoPage C :=
  match p.body with
  | none => p
  | some c =>
    if ops.mapHas heapBlk flags c then p else ⟨lsn, some (ops.mapSet heapBlk flags c)⟩

/-- The map page after `polar_visibilitymap_set` and `PageSetLSN`, unless replay has passed this
point. -/
def polarSetPage (heapBlk : UInt32) (flags : UInt8) (lsn : ℕ) (p : RedoPage C) : RedoPage C :=
  if p.lsn < lsn then p.redo (ops.setBits heapBlk flags) lsn else p

/-! ## The visibility map -/

/-- `vm_extend` of a map of `now` blocks through `vm`.  The new blocks are written as initialised
pages; past the end of the map there was nothing. -/
def vmExtend (now : UInt32) (vm : BufferTag) : Redo C Unit := fun s =>
  .ok ((), vmExtendLoop (fun block s => s.touch { vm with blockNum := block } ops.initIfNew)
    (vm.blockNum.toNat + 1 - now.toNat) now s)

/-- `visibilitymap_pin`, which is `vm_readbuf` with `extend`, on a map of `now` blocks.  A map page
that is new is initialised under a lock of its own. -/
def visibilitymapPin (now : UInt32) (vm : BufferTag) : Redo C Unit := do
  if now ≤ vm.blockNum then ops.vmExtend now vm else pure ()
  let page ← getPage vm
  match page.body with
  | none => do
    lockBuffer vm
    modifyPage vm ops.initIfNew
    unlockBuffer vm
  | some _ => pure ()

/-- `visibilitymap_clear`. -/
def visibilitymapClear (heap : BufferTag) (flags : UInt8) : Redo C Unit := do
  lockBuffer (mapTag heap)
  modifyPage (mapTag heap) (ops.clearedPage heap.blockNum flags)
  unlockBuffer (mapTag heap)

/-- `visibilitymap_set`. -/
def visibilitymapSet (vm : BufferTag) (heapBlk : UInt32) (flags : UInt8) (lsn : ℕ) :
    Redo C Unit := do
  lockBuffer vm
  modifyPage vm (ops.setPage heapBlk flags lsn)
  unlockBuffer vm

/-- The map bits of a heap page are cleared if the record says so. -/
def clearVmIf (flag : Bool) (heap : BufferTag) (flags : UInt8) : Redo C Unit :=
  if flag then do
    ops.visibilitymapPin (ops.vmNblocks record (mapTag heap)) (mapTag heap)
    ops.visibilitymapClear heap flags
  else pure ()

/-- The buffer `polar_heap_clear_vm` works on: the caller's, or the map page, pinned and locked. -/
def pinAndLockVm (heap : BufferTag) (buffer : Buffer) : Redo C BufferTag :=
  match buffer with
  | some vm => pure vm
  | none => do
    ops.visibilitymapPin (ops.polarVmNblocks record (mapTag heap)) (mapTag heap)
    lockBuffer (mapTag heap)
    return mapTag heap

/-- `polar_heap_clear_vm`: the LSN is raised to that of the record. -/
def polarHeapClearVm (heap : BufferTag) (buffer : Buffer) (flags : UInt8) :
    Redo C (RedoAction × Buffer) := do
  let vm ← ops.pinAndLockVm record heap buffer
  modifyPage vm fun p => { ops.clearedPage heap.blockNum flags p with
    lsn := max p.lsn record.endRecPtr }
  return (.needsRedo, some vm)

/-- A branch of a single-page routine for a map page. -/
def polarClearVmIf (cond : Bool) (heap : BufferTag) (r : RedoAction × Buffer) (flags : UInt8) :
    Redo C (RedoAction × Buffer) :=
  if cond then ops.polarHeapClearVm record heap r.2 flags else pure r

/-! ## The free space map -/

/-- The page of the free space map after `fsm_set_avail`.  Its LSN is left alone. -/
def recordedPage (heapBlk : UInt32) (spaceAvail : ℕ) (p : RedoPage C) : RedoPage C :=
  ⟨(ops.initIfNew p).lsn, (ops.initIfNew p).body.map (ops.fsmSetAvail heapBlk spaceAvail)⟩

/-- `XLogRecordPageWithFreeSpace`. -/
def xlogRecordPageWithFreeSpace (heap : BufferTag) (spaceAvail : ℕ) : Redo C Unit := do
  lockBuffer (fsmTag heap)
  modifyPage (fsmTag heap) (ops.recordedPage heap.blockNum spaceAvail)
  unlockBuffer (fsmTag heap)

/-- The space to record if the page was changed and is running low on it. -/
def lowSpace (action : RedoAction) (body : Option C) : Option ℕ :=
  if action = .needsRedo ∧ ops.heapFreeSpace body < lowFreeSpace then
    some (ops.heapFreeSpace body)
  else none

/-- Nothing is recorded. -/
def noSpace (_ : RedoAction) (_ : Option C) : Option ℕ := none

/-- The space of a heap page that was read is recorded if `space` says so. -/
def noteFreeSpace (space : RedoAction → Option C → Option ℕ) (r : RedoAction × Buffer) :
    Redo C Unit :=
  match r with
  | (_, none) => pure ()
  | (action, some heap) => do
    let page ← getPage heap
    match space action page.body with
    | none => pure ()
    | some spaceAvail => ops.xlogRecordPageWithFreeSpace heap spaceAvail

/-! ## Parts both sides have -/

/-- Block 0 is made from scratch, `PageInit` included, or read. -/
def readHeapPage (init : Bool) (buffer : Buffer) : Redo C (RedoAction × Buffer) :=
  if init then do
    let buffer ← polarInitBufferForRedo ops.image record 0 buffer
    writePage buffer fun _ => ⟨0, some ops.pageInit⟩
    return (.needsRedo, buffer)
  else xlogReadBufferForRedo ops.image record 0

/-- Block 0 is made from scratch or read, and changed. -/
def redoHeapPage (init : Bool) (buffer : Buffer) (f : C → C) : Redo C (RedoAction × Buffer) := do
  let r ← ops.readHeapPage record init buffer
  whenNeedsRedo r (RedoPage.redo f record.endRecPtr)
  return r

/-- Block 0 is made from scratch or read, changed and released, and its space recorded if `space`
says so. -/
def redoHeapPageRelease (init : Bool) (space : RedoAction → Option C → Option ℕ) (f : C → C) :
    Redo C Unit := do
  let r ← ops.redoHeapPage record init none f
  releaseIfValid r.2
  ops.noteFreeSpace space r

/-- The page of the old tuple, if it was marked. -/
def oldTuple (r : RedoAction × Buffer) : Redo C (Option C) :=
  match r with
  | (.needsRedo, some t) => do
    let page ← getPage t
    return page.body
  | _ => pure none

/-- The old tuple of an update is marked. -/
def redoOldTuple (samePage hotUpdate : Bool) : Redo C ((RedoAction × Buffer) × Option C) := do
  let r ← polarRedoBlock ops.image record (if samePage then 0 else 1) .normal
    (ops.redoOldPage record hotUpdate)
  let old ← oldTuple r
  return (r, old)

/-- The page the new tuple of an update goes into, if different from the old one. -/
def readNewPage (samePage : Bool) (r : RedoAction × Buffer) (buffer : Buffer) :
    Redo C (RedoAction × Buffer) :=
  if samePage then pure r else ops.readHeapPage record record.initPage buffer

/-! ## Single-page redo -/

/-- The routines for a heap page and the map page it may clear bits on. -/
def polarMapHeapRedo (flags : UInt8) (init : Bool) (f : C → C) : Redo C (RedoAction × Buffer) := do
  let tag0 ← polarGetLogTag record 0
  let r ← ops.polarClearVmIf record (tag = mapTag tag0 && record.visibleCleared) tag0
    (.notFound, none) flags
  if tag = tag0 then ops.redoHeapPage record init r.2 f else return r

/-- `polar_heap_xlog_insert`. -/
def polarHeapXlogInsert : Redo C (RedoAction × Buffer) :=
  ops.polarMapHeapRedo record tag visibilitymapValidBits record.initPage (ops.insertPage record)

/-- `polar_heap_xlog_multi_insert`. -/
def polarHeapXlogMultiInsert : Redo C (RedoAction × Buffer) :=
  ops.polarMapHeapRedo record tag visibilitymapValidBits record.initPage
    (ops.multiInsertPage record)

/-- `polar_heap_xlog_lock`. -/
def polarHeapXlogLock : Redo C (RedoAction × Buffer) :=
  ops.polarMapHeapRedo record tag visibilitymapAllFrozen false (ops.lock record)

/-- `polar_heap_xlog_lock_updated`. -/
def polarHeapXlogLockUpdated : Redo C (RedoAction × Buffer) :=
  ops.polarMapHeapRedo record tag visibilitymapAllFrozen false (ops.lockUpdated record)

/-- `polar_heap_xlog_delete`, which returns from the branch of the map page. -/
def polarHeapXlogDelete : Redo C (RedoAction × Buffer) := do
  let tag0 ← polarGetLogTag record 0
  if tag = mapTag tag0 then
    ops.polarClearVmIf record record.visibleCleared tag0 (.notFound, none) visibilitymapValidBits
  else if tag = tag0 then ops.redoHeapPage record false none (ops.deletePage record)
  else return (.notFound, none)

/-- `polar_heap_xlog_update`. -/
def polarHeapXlogUpdate (hotUpdate : Bool) : Redo C (RedoAction × Buffer) := do
  let tag0 ← polarGetLogTag record 0
  let oldTag := (record.blockTag? 1).getD tag0
  let samePage : Bool := oldTag.blockNum = tag0.blockNum
  let oldVm := if samePage then mapTag tag0 else mapTag oldTag
  let r ← ops.polarClearVmIf record (record.visibleCleared && oldVm = tag) oldTag
    (.notFound, none) visibilitymapValidBits
  let r ← ops.polarClearVmIf record (!samePage && record.newVisibleCleared && mapTag tag0 = tag)
    tag0 r visibilitymapValidBits
  let (r, old) ←
    if tag = oldTag then ops.redoOldTuple record samePage hotUpdate else pure (r, none)
  if tag = tag0 then do
    let r ← ops.readNewPage record samePage r r.2
    whenNeedsRedo r (ops.redoNewPage record old)
    return r
  else return r

/-- The routines for one heap page. -/
def polarOnePageRedo (f : C → C) : Redo C (RedoAction × Buffer) := do
  let tag0 ← polarGetLogTag record 0
  if tag ≠ tag0 then return (.notFound, none) else ops.redoHeapPage record false none f

/-- `polar_heap_xlog_confirm`. -/
def polarHeapXlogConfirm : Redo C (RedoAction × Buffer) :=
  ops.polarOnePageRedo record tag (ops.confirm record)

/-- `polar_heap_xlog_inplace`. -/
def polarHeapXlogInplace : Redo C (RedoAction × Buffer) :=
  ops.polarOnePageRedo record tag (ops.inplace record)

/-- `polar_heap_xlog_clean`. -/
def polarHeapXlogClean : Redo C (RedoAction × Buffer) :=
  ops.polarOnePageRedo record tag (ops.clean record)

/-- `polar_heap_xlog_freeze_page`. -/
def polarHeapXlogFreezePage : Redo C (RedoAction × Buffer) :=
  ops.polarOnePageRedo record tag (ops.freezePage record)

/-- The map page of a `VISIBLE` record. -/
def polarVisibleMapPage (heapBlk : UInt32) (p : RedoPage C) : RedoPage C :=
  ops.polarSetPage heapBlk record.flags record.endRecPtr (ops.initIfNew p)

/-- `polar_heap_xlog_visible`. -/
def polarHeapXlogVisible : Redo C (RedoAction × Buffer) := do
  let tag0 ← polarGetLogTag record 0
  let tag1 ← polarGetLogTag record 1
  let r ←
    if tag = tag1 then
      polarRedoBlock ops.image record 1 .normal (RedoPage.redo ops.setAllVisible record.endRecPtr)
    else pure (.notFound, none)
  if tag = tag0 then
    polarRedoBlock ops.image record 0 (if r.2.isSome then .normal else .zeroOnError)
      (ops.polarVisibleMapPage record tag1.blockNum)
  else return r

/-- `polar_heap_idx_redo`. -/
def polarHeapIdxRedo : Redo C (RedoAction × Buffer) :=
  match heapOp record.info with
  | .insert => ops.polarHeapXlogInsert record tag
  | .delete => ops.polarHeapXlogDelete record tag
  | .update => ops.polarHeapXlogUpdate record tag false
  | .truncate => pure (.notFound, none)
  | .hotUpdate => ops.polarHeapXlogUpdate record tag true
  | .confirm => ops.polarHeapXlogConfirm record tag
  | .lock => ops.polarHeapXlogLock record tag
  | .inplace => ops.polarHeapXlogInplace record tag

/-- `polar_heap2_idx_redo`. -/
def polarHeap2IdxRedo : Redo C (RedoAction × Buffer) :=
  match heap2Op record.info with
  | .clean => ops.polarHeapXlogClean record tag
  | .freezePage => ops.polarHeapXlogFreezePage record tag
  | .visible => ops.polarHeapXlogVisible record tag
  | .multiInsert => ops.polarHeapXlogMultiInsert record tag
  | .lockUpdated => ops.polarHeapXlogLockUpdated record tag
  | .cleanupInfo | .newCid | .rewrite => pure (.notFound, none)

/-! ## Full redo -/

/-- The routines for a heap page and the map page it may clear bits on. -/
def mapHeapRedo (flags : UInt8) (init : Bool) (space : RedoAction → Option C → Option ℕ)
    (f : C → C) : Redo C Unit := do
  let tag0 ← polarGetLogTag record 0
  ops.clearVmIf record record.visibleCleared tag0 flags
  ops.redoHeapPageRelease record init space f

/-- `heap_xlog_insert`. -/
def heapXlogInsert : Redo C Unit :=
  ops.mapHeapRedo record visibilitymapValidBits record.initPage ops.lowSpace
    (ops.insertPage record)

/-- `heap_xlog_multi_insert`. -/
def heapXlogMultiInsert : Redo C Unit :=
  ops.mapHeapRedo record visibilitymapValidBits record.initPage ops.lowSpace
    (ops.multiInsertPage record)

/-- `heap_xlog_delete`. -/
def heapXlogDelete : Redo C Unit :=
  ops.mapHeapRedo record visibilitymapValidBits false noSpace (ops.deletePage record)

/-- `heap_xlog_lock`. -/
def heapXlogLock : Redo C Unit :=
  ops.mapHeapRedo record visibilitymapAllFrozen false noSpace (ops.lock record)

/-- `heap_xlog_lock_updated`. -/
def heapXlogLockUpdated : Redo C Unit :=
  ops.mapHeapRedo record visibilitymapAllFrozen false noSpace (ops.lockUpdated record)

/-- `heap_xlog_update`.  The old page is not unlocked before the new tuple is on its page. -/
def heapXlogUpdate (hotUpdate : Bool) : Redo C Unit := do
  let tag0 ← polarGetLogTag record 0
  let oldblk := ((record.blockTag? 1).map (·.blockNum)).getD tag0.blockNum
  let samePage : Bool := oldblk = tag0.blockNum
  ops.clearVmIf record record.visibleCleared { tag0 with blockNum := oldblk }
    visibilitymapValidBits
  let (obuffer, old) ← ops.redoOldTuple record samePage hotUpdate
  let nbuffer ← ops.readNewPage record samePage obuffer none
  ops.clearVmIf record record.newVisibleCleared tag0 visibilitymapValidBits
  whenNeedsRedo nbuffer (ops.redoNewPage record old)
  releaseIfValid (if nbuffer.2 = obuffer.2 then none else nbuffer.2)
  releaseIfValid obuffer.2
  ops.noteFreeSpace (if hotUpdate then noSpace else ops.lowSpace) nbuffer

/-- `heap_xlog_confirm`. -/
def heapXlogConfirm : Redo C Unit :=
  ops.redoHeapPageRelease record false noSpace (ops.confirm record)

/-- `heap_xlog_inplace`. -/
def heapXlogInplace : Redo C Unit :=
  ops.redoHeapPageRelease record false noSpace (ops.inplace record)

/-- `heap_xlog_clean`, which records the space also of a page that was not changed. -/
def heapXlogClean : Redo C Unit :=
  ops.redoHeapPageRelease record false (fun _ body => some (ops.heapFreeSpace body))
    (ops.clean record)

/-- `heap_xlog_freeze_page`. -/
def heapXlogFreezePage : Redo C Unit :=
  ops.redoHeapPageRelease record false noSpace (ops.freezePage record)

/-- The buffer `visibilitymap_pin` returns for a heap page when it is handed `vm`: the same if that
is the map block of the page, which only a record that names a wrong map page violates. -/
def repin (heap vm : BufferTag) : Redo C BufferTag :=
  if vm.blockNum = heapBlkToMapBlock heap.blockNum then pure vm
  else do
    ops.visibilitymapPin (ops.vmNblocks record (mapTag heap)) (mapTag heap)
    return mapTag heap

/-- The map page of a `VISIBLE` record, in the buffer `vm`.  `visibilitymap_set` locks it again. -/
def visibleMapPage (heap : BufferTag) (r : RedoAction × Buffer) : Redo C Unit :=
  match r with
  | (.needsRedo, some vm) => do
    modifyPage vm ops.initIfNew
    unlockBuffer vm
    let pinned ← ops.repin record heap vm
    let page ← getPage vm
    if page.lsn < record.endRecPtr then
      ops.visibilitymapSet pinned heap.blockNum record.flags record.endRecPtr
    else pure ()
  | r => releaseIfValid r.2

/-- `heap_xlog_visible`. -/
def heapXlogVisible : Redo C Unit := do
  let tag1 ← polarGetLogTag record 1
  let r ← polarRedoBlock ops.image record 1 .normal fun p =>
    ⟨p.lsn, p.body.map ops.setAllVisible⟩
  releaseIfValid r.2
  ops.noteFreeSpace (fun _ body =>
    if record.flags &&& visibilitymapValidBits != 0 then some (ops.freeSpace body) else none) r
  let r ← xlogReadBufferForRedoExtended ops.image record 0 .zeroOnError
  ops.visibleMapPage record tag1 r

/-- `heap_redo`. -/
def heapRedo : Redo C Unit :=
  match heapOp record.info with
  | .insert => ops.heapXlogInsert record
  | .delete => ops.heapXlogDelete record
  | .update => ops.heapXlogUpdate record false
  | .truncate => pure ()
  | .hotUpdate => ops.heapXlogUpdate record true
  | .confirm => ops.heapXlogConfirm record
  | .lock => ops.heapXlogLock record
  | .inplace => ops.heapXlogInplace record

/-- `heap2_redo`. -/
def heap2Redo : Redo C Unit :=
  match heap2Op record.info with
  | .clean => ops.heapXlogClean record
  | .freezePage => ops.heapXlogFreezePage record
  | .visible => ops.heapXlogVisible record
  | .multiInsert => ops.heapXlogMultiInsert record
  | .lockUpdated => ops.heapXlogLockUpdated record
  | .cleanupInfo | .newCid | .rewrite => pure ()

end HeapOps

end GroundDB
