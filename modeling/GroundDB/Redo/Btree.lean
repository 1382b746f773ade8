import GroundDB.LogIndex.IndexTags
import GroundDB.Redo.Buffer

/-!
# B-tree redo, whole and page by page

`btree_redo` applies a record to every page it concerns; `polar_btree_redo` applies it to one page,
which it is told by its tag, and leaves the buffer locked for the caller.

The single-page routines compare the tag with the blocks of the record in the order in which full
redo treats them, and return from the branch of the first that matches.  Two branches stand out.
The one for the leaf of a `MARK_PAGE_HALFDEAD` record rewrites the page and sets no return value, so
`BLK_NOTFOUND` is returned with the buffer locked.  `META_CLEANUP` does not look at the tag.

What is done to the items of a page enters as functions of the record and the contents; the links of
a page to its siblings are passed to them where the routines compute them.
-/

namespace GroundDB

variable {C D : Type}

/-- What redo does to the contents of pages. -/
structure BtreeOps (D C : Type) where
  /-- `RestoreBlockImage` for a block of a record -/
  image : D → ℕ → Option C
  /-- `level` of a split or a new root -/
  level : D → UInt32
  /-- `leftsib` of an unlink -/
  leftsib : D → UInt32
  /-- `rightsib` of an unlink -/
  rightsib : D → UInt32
  /-- `btpo_flags &= ~BTP_INCOMPLETE_SPLIT` -/
  clearIncompleteSplit : C → C
  /-- `btpo_prev = blkno` -/
  setPrev : (blkno : UInt32) → C → C
  /-- `btpo_next = blkno` -/
  setNext : (blkno : UInt32) → C → C
  /-- add the item of an insert -/
  insert : (posting : Bool) → XLogRecord D → C → C
  /-- the right page of a split -/
  restoreRight : XLogRecord D → (leftsib rnext : UInt32) → C
  /-- the left page of a split -/
  reconstructLeft : (newitemonleft : Bool) → XLogRecord D → (rightsib : UInt32) → C → C
  dedup : XLogRecord D → C → C
  vacuum : XLogRecord D → C → C
  delete : XLogRecord D → C → C
  /-- move the downlink of a half-dead page to its right sibling in the parent -/
  removeDownlink : XLogRecord D → C → C
  /-- the leaf page that is marked half-dead -/
  halfdeadLeaf : XLogRecord D → C
  /-- the page that is unlinked -/
  deletedPage : XLogRecord D → (leftsib rightsib : UInt32) → C
  /-- the half-dead leaf page whose parent is unlinked -/
  halfdeadBranch : XLogRecord D → C
  /-- the new root page -/
  rootPage : XLogRecord D → C
  /-- the metapage, from the data of a block -/
  metaPage : XLogRecord D → ℕ → C

namespace BtreeOps

variable (ops : BtreeOps D C) (record : XLogRecord D) (tag : BufferTag)

/-- `rnext` of a split: the page to the right of the new page, `P_NONE` without block 2. -/
def rnext (record : XLogRecord D) : UInt32 := ((record.blockTag? 2).map (·.blockNum)).getD 0

/-- A page that is made from scratch. -/
def madePage (c : C) : RedoPage C := ⟨record.endRecPtr, some c⟩

/-- `if (cond)` a part of a full redo. -/
def redoIf (cond : Bool) (m : Redo C Unit) : Redo C Unit := if cond then m else pure ()

/-! ## Full redo -/

/-- Read a block, change it and release it. -/
def redoRead (id : ℕ) (f : C → C) : Redo C Unit :=
  redoBlock ops.image record id .normal (RedoPage.redo f record.endRecPtr)

/-- Make a block from scratch and release it. -/
def redoMake (id : ℕ) (c : C) : Redo C Unit :=
  redoInitBlock ops.image record id fun _ => madePage record c

/-- `_bt_clear_incomplete_split`. -/
def btClearIncompleteSplit (id : ℕ) : Redo C Unit :=
  ops.redoRead record id ops.clearIncompleteSplit

/-- `_bt_restore_meta`. -/
def btRestoreMeta (id : ℕ) : Redo C Unit := ops.redoMake record id (ops.metaPage record id)

/-- `btree_xlog_insert`. -/
def btreeXlogInsert (isleaf ismeta posting : Bool) : Redo C Unit := do
  redoIf (!isleaf) (ops.btClearIncompleteSplit record 1)
  ops.redoRead record 0 (ops.insert posting record)
  redoIf ismeta (ops.btRestoreMeta record 2)

/-- `btree_xlog_split`.  The two halves are released together. -/
def btreeXlogSplit (newitemonleft : Bool) : Redo C Unit := do
  let leftsib ← polarGetLogTag record 0
  let rightsib ← polarGetLogTag record 1
  redoIf (ops.level record.data ≠ 0) (ops.btClearIncompleteSplit record 3)
  let rbuf ← xlogInitBufferForRedo ops.image record 1
  writePage rbuf fun _ => madePage record (ops.restoreRight record leftsib.blockNum (rnext record))
  let lbuf ← polarRedoBlock ops.image record 0 .normal
    (RedoPage.redo (ops.reconstructLeft newitemonleft record rightsib.blockNum) record.endRecPtr)
  releaseIfValid lbuf.2
  releaseIfValid rbuf
  redoIf (rnext record ≠ 0) (ops.redoRead record 2 (ops.setPrev rightsib.blockNum))

/-- `btree_xlog_dedup`. -/
def btreeXlogDedup : Redo C Unit := ops.redoRead record 0 (ops.dedup record)

/-- `btree_xlog_vacuum`. -/
def btreeXlogVacuum : Redo C Unit := ops.redoRead record 0 (ops.vacuum record)

/-- `btree_xlog_delete`. -/
def btreeXlogDelete : Redo C Unit := ops.redoRead record 0 (ops.delete record)

/-- `btree_xlog_mark_page_halfdead`. -/
def btreeXlogMarkPageHalfdead : Redo C Unit := do
  ops.redoRead record 1 (ops.removeDownlink record)
  ops.redoMake record 0 (ops.halfdeadLeaf record)

/-- `btree_xlog_unlink_page`; `ismeta` is `info == XLOG_BTREE_UNLINK_PAGE_META`. -/
def btreeXlogUnlinkPage (ismeta : Bool) : Redo C Unit := do
  let leftsib := ops.leftsib record.data
  let rightsib := ops.rightsib record.data
  ops.redoRead record 2 (ops.setPrev leftsib)
  redoIf (leftsib ≠ 0) (ops.redoRead record 1 (ops.setNext rightsib))
  ops.redoMake record 0 (ops.deletedPage record leftsib rightsib)
  redoIf (record.hasBlockRef 3) (ops.redoMake record 3 (ops.halfdeadBranch record))
  redoIf ismeta (ops.btRestoreMeta record 4)

/-- `btree_xlog_newroot`.  The child is treated while the root page is locked, and the LSN of the
root page is set last. -/
def btreeXlogNewroot : Redo C Unit := do
  let buffer ← xlogInitBufferForRedo ops.image record 0
  writePage buffer fun _ => ⟨0, some (ops.rootPage record)⟩
  redoIf (0 < ops.level record.data) (ops.btClearIncompleteSplit record 1)
  writePage buffer fun p => { p with lsn := record.endRecPtr }
  releaseIfValid buffer
  ops.btRestoreMeta record 2

/-- `btree_redo`. -/
def btreeRedo : Redo C Unit :=
  match btreeOp record.info with
  | none => redoPanic
  | some .insertLeaf => ops.btreeXlogInsert record true false false
  | some .insertUpper => ops.btreeXlogInsert record false false false
  | some .insertMeta => ops.btreeXlogInsert record false true false
  | some .splitL => ops.btreeXlogSplit record true
  | some .splitR => ops.btreeXlogSplit record false
  | some .insertPost => ops.btreeXlogInsert record true false true
  | some .dedup => ops.btreeXlogDedup record
  | some .delete => ops.btreeXlogDelete record
  | some .unlinkPage => ops.btreeXlogUnlinkPage record false
  | some .unlinkPageMeta => ops.btreeXlogUnlinkPage record true
  | some .newroot => ops.btreeXlogNewroot record
  | some .markPageHalfdead => ops.btreeXlogMarkPageHalfdead record
  | some .vacuum => ops.btreeXlogVacuum record
  | some .reusePage => pure ()
  | some .metaCleanup => ops.btRestoreMeta record 0

/-! ## Single-page redo -/

/-- Read a block and change it. -/
def polarRead (id : ℕ) (f : C → C) : Redo C (RedoAction × Buffer) :=
  polarRedoBlock ops.image record id .normal (RedoPage.redo f record.endRecPtr)

/-- Make a block from scratch, and return `action`. -/
def polarMake (action : RedoAction) (id : ℕ) (c : C) : Redo C (RedoAction × Buffer) := do
  let buffer ← polarInitBufferForRedo ops.image record id none
  writePage buffer fun _ => madePage record c
  return (action, buffer)

/-- `POLAR_GET_LOG_TAG(record, tags[id], id); if (BUFFERTAGS_EQUAL(*tag, tags[id])) return …;` -/
def returnIfBlock (id : ℕ) (m rest : Redo C (RedoAction × Buffer)) :
    Redo C (RedoAction × Buffer) := do
  let t ← polarGetLogTag record id
  if tag = t then m else rest

/-- The same under a condition. -/
def returnIfBlockWhen (cond : Bool) (id : ℕ) (m rest : Redo C (RedoAction × Buffer)) :
    Redo C (RedoAction × Buffer) :=
  if cond then returnIfBlock record tag id m rest else rest

/-- No branch was taken. -/
def noBlock : Redo C (RedoAction × Buffer) := pure (.notFound, none)

/-- `polar_bt_clear_incomplete_split`. -/
def polarBtClearIncompleteSplit (id : ℕ) : Redo C (RedoAction × Buffer) :=
  ops.polarRead record id ops.clearIncompleteSplit

/-- `polar_bt_restore_meta`. -/
def polarBtRestoreMeta (id : ℕ) : Redo C (RedoAction × Buffer) :=
  ops.polarMake record .needsRedo id (ops.metaPage record id)

/-- `polar_btree_xlog_insert`. -/
def polarBtreeXlogInsert (isleaf ismeta posting : Bool) : Redo C (RedoAction × Buffer) :=
  returnIfBlockWhen record tag (!isleaf) 1 (ops.polarBtClearIncompleteSplit record 1) <|
  returnIfBlock record tag 0 (ops.polarRead record 0 (ops.insert posting record)) <|
  returnIfBlockWhen record tag ismeta 2 (ops.polarBtRestoreMeta record 2)
  noBlock

/-- `polar_btree_xlog_split`, with `polar_restore_right`. -/
def polarBtreeXlogSplit (newitemonleft : Bool) : Redo C (RedoAction × Buffer) := do
  let leftsib ← polarGetLogTag record 0
  let rightsib ← polarGetLogTag record 1
  returnIfBlockWhen record tag (ops.level record.data ≠ 0) 3
    (ops.polarBtClearIncompleteSplit record 3) <|
    if tag = rightsib then
      ops.polarMake record .needsRedo 1 (ops.restoreRight record leftsib.blockNum (rnext record))
    else if tag = leftsib then
      ops.polarRead record 0 (ops.reconstructLeft newitemonleft record rightsib.blockNum)
    else returnIfBlockWhen record tag (rnext record ≠ 0) 2
      (ops.polarRead record 2 (ops.setPrev rightsib.blockNum))
      noBlock

/-- The single-page redo of a record with one block. -/
def polarOneBlock (f : C → C) : Redo C (RedoAction × Buffer) :=
  returnIfBlock record tag 0 (ops.polarRead record 0 f) noBlock

/-- `btree_xlog_dedup` of the single-page routines. -/
def polarBtreeXlogDedup : Redo C (RedoAction × Buffer) :=
  ops.polarOneBlock record tag (ops.dedup record)

/-- `polar_btree_xlog_vacuum`. -/
def polarBtreeXlogVacuum : Redo C (RedoAction × Buffer) :=
  ops.polarOneBlock record tag (ops.vacuum record)

/-- `polar_btree_xlog_delete`. -/
def polarBtreeXlogDelete : Redo C (RedoAction × Buffer) :=
  ops.polarOneBlock record tag (ops.delete record)

/-- `polar_btree_xlog_mark_page_halfdead`.  The branch of the leaf page leaves `action` as it was
initialised. -/
def polarBtreeXlogMarkPageHalfdead : Redo C (RedoAction × Buffer) := do
  let leaf ← polarGetLogTag record 0
  let parent ← polarGetLogTag record 1
  if tag = parent then ops.polarRead record 1 (ops.removeDownlink record)
  else if tag = leaf then ops.polarMake record .notFound 0 (ops.halfdeadLeaf record)
  else noBlock

/-- `polar_btree_xlog_unlink_page`. -/
def polarBtreeXlogUnlinkPage (ismeta : Bool) : Redo C (RedoAction × Buffer) :=
  let leftsib := ops.leftsib record.data
  let rightsib := ops.rightsib record.data
  returnIfBlock record tag 2 (ops.polarRead record 2 (ops.setPrev leftsib)) <|
  returnIfBlockWhen record tag (leftsib ≠ 0) 1
    (ops.polarRead record 1 (ops.setNext rightsib)) <|
  returnIfBlock record tag 0
    (ops.polarMake record .needsRedo 0 (ops.deletedPage record leftsib rightsib)) <|
  returnIfBlockWhen record tag (record.hasBlockRef 3) 3
    (ops.polarMake record .needsRedo 3 (ops.halfdeadBranch record)) <|
  returnIfBlockWhen record tag ismeta 4 (ops.polarBtRestoreMeta record 4)
  noBlock

/-- `polar_btree_xlog_newroot`. -/
def polarBtreeXlogNewroot : Redo C (RedoAction × Buffer) :=
  returnIfBlock record tag 0 (ops.polarMake record .needsRedo 0 (ops.rootPage record)) <|
  returnIfBlockWhen record tag (0 < ops.level record.data) 1
    (ops.polarBtClearIncompleteSplit record 1) <|
  returnIfBlock record tag 2 (ops.polarBtRestoreMeta record 2)
  noBlock

/-- `polar_btree_redo`. -/
def polarBtreeRedo : Redo C (RedoAction × Buffer) :=
  match btreeOp record.info with
  | none => redoPanic
  | some .insertLeaf => ops.polarBtreeXlogInsert record tag true false false
  | some .insertUpper => ops.polarBtreeXlogInsert record tag false false false
  | some .insertMeta => ops.polarBtreeXlogInsert record tag false true false
  | some .splitL => ops.polarBtreeXlogSplit record tag true
  | some .splitR => ops.polarBtreeXlogSplit record tag false
  | some .insertPost => ops.polarBtreeXlogInsert record tag true false true
  | some .dedup => ops.polarBtreeXlogDedup record tag
  | some .delete => ops.polarBtreeXlogDelete record tag
  | some .unlinkPage => ops.polarBtreeXlogUnlinkPage record tag false
  | some .unlinkPageMeta => ops.polarBtreeXlogUnlinkPage record tag true
  | some .newroot => ops.polarBtreeXlogNewroot record tag
  | some .markPageHalfdead => ops.polarBtreeXlogMarkPageHalfdead record tag
  | some .vacuum => ops.polarBtreeXlogVacuum record tag
  | some .reusePage => noBlock
  | some .metaCleanup => ops.polarBtRestoreMeta record 0

end BtreeOps

end GroundDB
