import GroundDB.Redo.Heap
import GroundDB.Redo.SinglePage

/-!
# The pages a heap record touches

For a record with the blocks its writer registers, a full redo and the single-page redos are
described by lists of touches: a page, and what becomes of it.  The two lists of a record differ in
three page functions, and in the map pages a full redo adds below the one it clears bits on
(`HeapSide`).

The pages of free space maps are in neither list: no record is indexed for them.
-/

namespace GroundDB

open Touch

variable {C D : Type}

/-! ## Touches of a record -/

/-- The blocks below a map page that `vm_extend` adds to a map of `now` blocks. -/
def blocksBelow (now : UInt32) (vm : BufferTag) : List BufferTag :=
  (List.range' now.toNat (vm.blockNum.toNat - now.toNat)).map fun block =>
    { vm with blockNum := .ofNat block }

/-- What the two sides differ in. -/
structure HeapSide (D C : Type) where
  /-- the map pages below the one bits are cleared on -/
  below : XLogRecord D → (vm : BufferTag) → Touches C
  /-- they are pages of the same fork -/
  below_fork : ∀ record vm, ∀ t ∈ touched (below record vm), t.forkNum = vm.forkNum
  /-- the map page when bits are cleared -/
  clearMap : (lsn : ℕ) → (heapBlk : UInt32) → (flags : UInt8) → RedoPage C → RedoPage C
  /-- the map page when bits are set -/
  setMap : (lsn : ℕ) → (heapBlk : UInt32) → (flags : UInt8) → RedoPage C → RedoPage C
  /-- the heap page that becomes all-visible -/
  setVisible : (lsn : ℕ) → RedoPage C → RedoPage C

namespace HeapOps

variable (ops : HeapOps D C)

/-- The pages `vm_extend` initialises below a map page. -/
def initBelow (now : UInt32) (vm : BufferTag) : Touches C :=
  (blocksBelow now vm).map fun t => (t, ops.initIfNew)

lemma mem_initBelow {now : UInt32} {vm : BufferTag} {e : BufferTag × (RedoPage C → RedoPage C)}
    (h : e ∈ ops.initBelow now vm) :
    ∃ block < vm.blockNum.toNat, e = ({ vm with blockNum := .ofNat block }, ops.initIfNew) := by
  simp only [initBelow, blocksBelow, List.mem_map, List.mem_range'_1] at h
  obtain ⟨_, ⟨block, hblock, rfl⟩, rfl⟩ := h
  exact ⟨block, by omega, rfl⟩

lemma mem_touched_initBelow {now : UInt32} {vm t : BufferTag}
    (h : t ∈ touched (ops.initBelow now vm)) :
    t.forkNum = vm.forkNum ∧ t.blockNum < vm.blockNum := by
  obtain ⟨e, he, rfl⟩ := List.mem_map.mp h
  obtain ⟨block, hblock, rfl⟩ := ops.mem_initBelow he
  refine ⟨rfl, UInt32.lt_iff_toNat_lt.mpr ?_⟩
  rwa [UInt32.toNat_ofNat_of_lt' (hblock.trans vm.blockNum.toNat_lt)]

/-- The full redo. -/
def upstream : HeapSide D C where
  below record vm := ops.initBelow (ops.vmNblocks record vm) vm
  below_fork _ _ _ h := (ops.mem_touched_initBelow h).1
  clearMap _ heapBlk flags p := ops.clearedPage heapBlk flags (ops.initIfNew p)
  setMap lsn heapBlk flags p :=
    if (ops.initIfNew p).lsn < lsn then ops.setPage heapBlk flags lsn (ops.initIfNew p)
    else ops.initIfNew p
  setVisible _ p := ⟨p.lsn, p.body.map ops.setAllVisible⟩

/-- The single-page redo, which is about one page. -/
def polar : HeapSide D C where
  below _ _ := []
  below_fork _ _ _ h := by simp at h
  clearMap lsn heapBlk flags p :=
    { ops.clearedPage heapBlk flags (ops.initIfNew p) with lsn := max (ops.initIfNew p).lsn lsn }
  setMap lsn heapBlk flags p := ops.polarSetPage heapBlk flags lsn (ops.initIfNew p)
  setVisible lsn := RedoPage.redo ops.setAllVisible lsn

variable (side : HeapSide D C) (record : XLogRecord D)

/-- What is reported about block 0 if it is made from scratch or read. -/
def heapPageAction (blk : DecodedBkpBlock) (init : Bool) (p : RedoPage C) : RedoAction :=
  if init then .needsRedo else blockAction record blk .normal p

/-- What becomes of block 0 if it is made from scratch or read, and changed by `f`. -/
def heapPageEffect (blk : DecodedBkpBlock) (init : Bool) (f : RedoPage C → RedoPage C)
    (p : RedoPage C) : RedoPage C :=
  if init then f ⟨0, some ops.pageInit⟩ else blockEffect ops.image record 0 blk .normal f p

/-- The map page of a heap page, if bits are cleared on it, after the pages below it. -/
def mapTouch (flag : Bool) (heap : BufferTag) (flags : UInt8) :
    Touches C :=
  if flag then side.below record (mapTag heap) ++
    [(mapTag heap, side.clearMap record.endRecPtr heap.blockNum flags)]
  else []

/-- A heap page and the map page it may clear bits on. -/
def mapHeapTouches (flags : UInt8) (init : Bool) (f : C → C) :
    Touches C :=
  match record.block? 0 with
  | none => []
  | some blk => mapTouch side record record.visibleCleared blk.tag flags ++
      [(blk.tag, ops.heapPageEffect record blk init (RedoPage.redo f record.endRecPtr))]

/-- One heap page. -/
def onePageTouches (f : C → C) : Touches C :=
  match record.block? 0 with
  | none => []
  | some blk =>
    [(blk.tag, ops.heapPageEffect record blk false (RedoPage.redo f record.endRecPtr))]

/-- The page of an update that stays on it: the old tuple is there to copy from. -/
def redoSamePage (hotUpdate : Bool) (p : RedoPage C) : RedoPage C :=
  ops.redoNewPage record (ops.redoOldPage record hotUpdate p).body
    (ops.redoOldPage record hotUpdate p)

/-- The pages of an update. -/
def updateTouches (hotUpdate : Bool) : Touches C :=
  match record.block? 0, record.block? 1 with
  | none, _ => []
  | some new, none =>
    mapTouch side record record.visibleCleared new.tag visibilitymapValidBits ++
      [(new.tag, blockEffect ops.image record 0 new .normal (ops.redoSamePage record hotUpdate))]
  | some new, some old =>
    mapTouch side record record.visibleCleared old.tag visibilitymapValidBits ++
      [(old.tag, blockEffect ops.image record 1 old .normal (ops.redoOldPage record hotUpdate))] ++
      mapTouch side record record.newVisibleCleared new.tag visibilitymapValidBits ++
      [(new.tag, ops.heapPageEffect record new record.initPage (ops.redoNewPage record none))]

/-- The pages of a `VISIBLE` record. -/
def visibleTouches : Touches C :=
  match record.block? 0, record.block? 1 with
  | some vm, some heap =>
    [(heap.tag, blockEffect ops.image record 1 heap .normal (side.setVisible record.endRecPtr)),
      (vm.tag, blockEffect ops.image record 0 vm .zeroOnError
        (side.setMap record.endRecPtr heap.tag.blockNum record.flags))]
  | _, _ => []

/-- The pages a record of the heap resource manager touches. -/
def heapTouches : Touches C :=
  match heapOp record.info with
  | .insert => ops.mapHeapTouches side record visibilitymapValidBits record.initPage
      (ops.insertPage record)
  | .delete => ops.mapHeapTouches side record visibilitymapValidBits false (ops.deletePage record)
  | .update => ops.updateTouches side record false
  | .truncate => []
  | .hotUpdate => ops.updateTouches side record true
  | .confirm => ops.onePageTouches record (ops.confirm record)
  | .lock => ops.mapHeapTouches side record visibilitymapAllFrozen false (ops.lock record)
  | .inplace => ops.onePageTouches record (ops.inplace record)

/-- The pages a record of the second heap resource manager touches. -/
def heap2Touches : Touches C :=
  match heap2Op record.info with
  | .clean => ops.onePageTouches record (ops.clean record)
  | .freezePage => ops.onePageTouches record (ops.freezePage record)
  | .visible => ops.visibleTouches side record
  | .multiInsert => ops.mapHeapTouches side record visibilitymapValidBits record.initPage
      (ops.multiInsertPage record)
  | .lockUpdated =>
    ops.mapHeapTouches side record visibilitymapAllFrozen false (ops.lockUpdated record)
  | .cleanupInfo | .newCid | .rewrite => []

end HeapOps

/-! ## Well-formed records -/

/-- A record with one block, a heap page, which redo initialises if `init`. -/
def OneHeapBlock (record : XLogRecord D) (init : Bool) : Prop :=
  ∃ blk, record.block? 0 = some blk ∧ blk.tag.forkNum = 0 ∧ blk.willInit = init ∧
    record.block? 1 = none

/-- The blocks of an update.  `log_heap_update` copies from the old tuple only on one page, and
registers the old page, if it is another, as block 1. -/
inductive UpdateForm (record : XLogRecord D) : Prop
  | samePage (blk : DecodedBkpBlock) (hblk : record.block? 0 = some blk)
      (hfork : blk.tag.forkNum = 0) (hinit : blk.willInit = false)
      (hone : record.block? 1 = none) (htwo : record.block? 2 = none)
  | twoPages (new old : DecodedBkpBlock) (hnew : record.block? 0 = some new)
      (hold : record.block? 1 = some old) (hfork : new.tag.forkNum = 0)
      (hrel : old.tag = { new.tag with blockNum := old.tag.blockNum })
      (hne : old.tag.blockNum ≠ new.tag.blockNum) (hinit : new.willInit = record.initPage)
      (holdInit : old.willInit = false) (htwo : record.block? 2 = none)
      (hthree : record.block? 3 = none) (hcopy : record.fromOld = false)

/-- The blocks of a `VISIBLE` record: the map page and the heap page. -/
def VisibleForm (record : XLogRecord D) : Prop :=
  ∃ vm heap, record.block? 0 = some vm ∧ record.block? 1 = some heap ∧ heap.tag.forkNum = 0 ∧
    vm.tag = mapTag heap.tag ∧ vm.willInit = false ∧ heap.willInit = false

/-- A heap record with the blocks its writer registers. -/
def HeapWellFormed (record : XLogRecord D) : Prop :=
  match heapOp record.info with
  | .insert => OneHeapBlock record record.initPage
  | .delete | .lock | .confirm | .inplace => OneHeapBlock record false
  | .update => UpdateForm record
  | .hotUpdate => UpdateForm record ∧ record.block? 1 = none
  | .truncate => True

/-- A record of the second resource manager with the blocks its writer registers. -/
def Heap2WellFormed (record : XLogRecord D) : Prop :=
  match heap2Op record.info with
  | .clean | .freezePage | .lockUpdated => OneHeapBlock record false
  | .visible => VisibleForm record
  | .multiInsert => OneHeapBlock record record.initPage
  | .cleanupInfo | .newCid | .rewrite => True

/-- `heap_update` sets the flag of the new page only if that is not the old one. -/
def UpdateFlags (record : XLogRecord D) : Prop :=
  heapOp record.info = .update ∨ heapOp record.info = .hotUpdate →
    record.block? 1 = none → record.newVisibleCleared = false

end GroundDB
