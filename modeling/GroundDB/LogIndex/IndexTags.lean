import GroundDB.LogIndex.TagList
import Mathlib.Data.List.TakeWhile

/-!
# The pages of index, sequence and generic records

Save and list routines of the access methods.  Every list routine here stores through the caller's
variable, whatever it allocates, so it is right for the records on which it reads exactly one block,
or none (`listMatches_pointer`).
-/

namespace GroundDB

variable {D : Type}

/-- `if (XLogRecHasBlockRef(record, id))`. -/
def XLogRecord.ifRef (record : XLogRecord D) (id : ℕ) : List ℕ :=
  onlyIf (record.hasBlockRef id) [id]

/-- The ids from `first` to `last` as far as they are in use, the loop with `else break`. -/
def XLogRecord.whileRef (record : XLogRecord D) (first last : ℕ) : List ℕ :=
  (List.range' first (last + 1 - first)).takeWhile record.hasBlockRef

section Lists

variable {record : XLogRecord D} {n : ℕ} {ids : List ℕ}

@[simp] lemma ifRef_eq_nil {id : ℕ} : record.ifRef id = [] ↔ record.hasBlockRef id = false := by
  cases h : record.hasBlockRef id <;> simp [XLogRecord.ifRef, h]

lemma whileRef_eq_nil {first last : ℕ} (hle : first ≤ last) :
    record.whileRef first last = [] ↔ record.hasBlockRef first = false := by
  obtain ⟨k, hk⟩ : ∃ k, last + 1 - first = k + 1 := ⟨last - first, by omega⟩
  rw [XLogRecord.whileRef, hk, List.range'_succ]
  cases h : record.hasBlockRef first <;> simp [h]

lemma listMatches_many {saved : List ℕ} (hlen : 2 ≤ ids.length) :
    ListMatches record (.handled saved) (.handled (getBufftagList n .pointer ids record)) ↔
      False :=
  listMatches_handled.trans (iff_of_false (not_lists_of_two hlen) id)

lemma listMatches_noBufftagList {saved : List ℕ} :
    ListMatches record (.handled saved) (.handled noBufftagList) ↔ False :=
  listMatches_handled.trans (iff_of_false not_lists_noBufftagList id)

/-- **Stores through the pointer.**  The list is right if no block is read, or one the record has,
and in no other case. -/
lemma listMatches_pointer (hn : 0 < n) :
    ListMatches record (.handled ids) (.handled (getBufftagList n .pointer ids record)) ↔
      ids = [] ∨ ∃ id, ids = [id] ∧ record.hasBlockRef id := by
  match ids with
  | [] => simpa using lists_nil
  | [id] => simpa using listMatches_one hn
  | id :: id' :: ids => simpa using not_lists_of_two (by simp)

lemma listMatches_cons (hn : 0 < n) {id : ℕ} :
    ListMatches record (.handled ([id] ++ ids))
        (.handled (getBufftagList n .pointer ([id] ++ ids) record)) ↔
      record.hasBlockRef id ∧ ids = [] := by
  cases ids with
  | nil => simpa using lists_single (Lvalue.pointer_inside hn) id
  | cons id' ids => simpa using not_lists_of_two (by simp)

lemma listMatches_concat (hn : 0 < n) {id : ℕ} :
    ListMatches record (.handled (ids ++ [id]))
        (.handled (getBufftagList n .pointer (ids ++ [id]) record)) ↔
      record.hasBlockRef id ∧ ids = [] := by
  cases ids with
  | nil => simpa using lists_single (Lvalue.pointer_inside hn) id
  | cons id' ids => simpa using not_lists_of_two (by simp)

end Lists

variable (record : XLogRecord D)

/-! ## B-tree -/

/-- The operations of the b-tree resource manager. -/
inductive BtreeOp
  | insertLeaf | insertUpper | insertMeta | splitL | splitR | insertPost | dedup | delete
  | unlinkPage | unlinkPageMeta | newroot | markPageHalfdead | vacuum | reusePage | metaCleanup
deriving DecidableEq, Repr

/-- The operation of an info byte, if it has one. -/
def btreeOp (info : UInt8) : Option BtreeOp :=
  match info with
  | 0x00 => some .insertLeaf
  | 0x10 => some .insertUpper
  | 0x20 => some .insertMeta
  | 0x30 => some .splitL
  | 0x40 => some .splitR
  | 0x50 => some .insertPost
  | 0x60 => some .dedup
  | 0x70 => some .delete
  | 0x80 => some .unlinkPage
  | 0x90 => some .unlinkPageMeta
  | 0xA0 => some .newroot
  | 0xB0 => some .markPageHalfdead
  | 0xC0 => some .vacuum
  | 0xD0 => some .reusePage
  | 0xE0 => some .metaCleanup
  | _ => none

/-- `polar_btree_xlog_insert_save`. -/
def polarBtreeXlogInsertSave (isleaf ismeta : Bool) : List ℕ :=
  onlyIf (!isleaf) [1] ++ [0] ++ onlyIf ismeta [2]

/-- `polar_btree_xlog_insert_get_bufftag_list`. -/
def polarBtreeXlogInsertGetBufftagList (isleaf ismeta : Bool) (record : XLogRecord D) : TagList :=
  getBufftagList 3 .pointer (onlyIf (!isleaf) [1] ++ [0] ++ onlyIf ismeta [2]) record

/-- `polar_btree_xlog_split_save`. -/
def polarBtreeXlogSplitSave : List ℕ :=
  record.ifRef 3 ++ [1, 0] ++ record.ifRef 2

/-- `polar_btree_xlog_split_get_bufftag_list`. -/
def polarBtreeXlogSplitGetBufftagList : TagList :=
  getBufftagList 4 .pointer (record.ifRef 3 ++ [1, 0] ++ record.ifRef 2) record

/-- `polar_btree_xlog_unlink_page_save`; `ismeta` is `info == XLOG_BTREE_UNLINK_PAGE_META`. -/
def polarBtreeXlogUnlinkPageSave (ismeta : Bool) (record : XLogRecord D) : List ℕ :=
  [2] ++ record.ifRef 1 ++ [0] ++ record.ifRef 3 ++ onlyIf ismeta [4]

/-- `polar_btree_xlog_unlink_page_get_bufftag_list`. -/
def polarBtreeXlogUnlinkPageGetBufftagList (ismeta : Bool) (record : XLogRecord D) : TagList :=
  getBufftagList 5 .pointer
    ([2] ++ record.ifRef 1 ++ [0] ++ record.ifRef 3 ++ onlyIf ismeta [4]) record

/-- `polar_btree_xlog_newroot_save`. -/
def polarBtreeXlogNewrootSave : List ℕ := [0] ++ record.ifRef 1 ++ [2]

/-- `polar_btree_xlog_newroot_get_bufftag_list`. -/
def polarBtreeXlogNewrootGetBufftagList : TagList :=
  getBufftagList 3 .pointer ([0] ++ record.ifRef 1 ++ [2]) record

/-- `polar_btree_idx_save`. -/
def polarBtreeIdxSave : IdxResult (List ℕ) :=
  match btreeOp record.info with
  | none => .panic
  | some .insertLeaf | some .insertPost => .handled (polarBtreeXlogInsertSave true false)
  | some .insertUpper => .handled (polarBtreeXlogInsertSave false false)
  | some .insertMeta => .handled (polarBtreeXlogInsertSave false true)
  | some .splitL | some .splitR => .handled (polarBtreeXlogSplitSave record)
  | some .dedup | some .vacuum | some .delete | some .metaCleanup => .handled [0]
  | some .markPageHalfdead => .handled [1, 0]
  | some .unlinkPage => .handled (polarBtreeXlogUnlinkPageSave false record)
  | some .unlinkPageMeta => .handled (polarBtreeXlogUnlinkPageSave true record)
  | some .newroot => .handled (polarBtreeXlogNewrootSave record)
  | some .reusePage => .handled []

/-- `polar_btree_idx_get_bufftag_list`. -/
def polarBtreeIdxGetBufftagList : IdxResult TagList :=
  match btreeOp record.info with
  | none => .panic
  | some .insertLeaf | some .insertPost =>
    .handled (polarBtreeXlogInsertGetBufftagList true false record)
  | some .insertUpper => .handled (polarBtreeXlogInsertGetBufftagList false false record)
  | some .insertMeta => .handled (polarBtreeXlogInsertGetBufftagList false true record)
  | some .splitL | some .splitR => .handled (polarBtreeXlogSplitGetBufftagList record)
  | some .dedup | some .vacuum | some .delete | some .metaCleanup =>
    .handled (getBufftagList 1 .pointer [0] record)
  | some .markPageHalfdead => .handled (getBufftagList 2 .pointer [1, 0] record)
  | some .unlinkPage => .handled (polarBtreeXlogUnlinkPageGetBufftagList false record)
  | some .unlinkPageMeta => .handled (polarBtreeXlogUnlinkPageGetBufftagList true record)
  | some .newroot => .handled (polarBtreeXlogNewrootGetBufftagList record)
  | some .reusePage => .handled noBufftagList

/-- The b-tree records whose list is right: those for one page. -/
def btreeListable : Prop :=
  match btreeOp record.info with
  | none => True
  | some .insertLeaf | some .insertPost | some .dedup | some .vacuum | some .delete
  | some .metaCleanup => record.hasBlockRef 0
  | some .insertUpper | some .insertMeta | some .splitL | some .splitR | some .markPageHalfdead
  | some .unlinkPage | some .unlinkPageMeta | some .newroot | some .reusePage => False

lemma btree_listMatches_iff :
    ListMatches record (polarBtreeIdxSave record) (polarBtreeIdxGetBufftagList record) ↔
      btreeListable record := by
  unfold polarBtreeIdxSave polarBtreeIdxGetBufftagList btreeListable
  cases btreeOp record.info with
  | none => simp
  | some op =>
      cases op with
      | insertLeaf | insertPost => exact listMatches_one (by decide)
      | dedup | vacuum | delete | metaCleanup => exact listMatches_one (by decide)
      | insertUpper | insertMeta | markPageHalfdead => exact listMatches_many (by decide)
      | splitL | splitR => exact listMatches_many (by simp; omega)
      | unlinkPage | unlinkPageMeta => exact listMatches_many (by simp; omega)
      | newroot => exact listMatches_many (by simp)
      | reusePage => exact listMatches_noBufftagList

/-! ## Hash -/

/-- The operations of the hash resource manager. -/
inductive HashOp
  | initMetaPage | initBitmapPage | insert | addOvflPage | splitAllocatePage | splitPage
  | splitComplete | movePageContents | squeezePage | delete | splitCleanup | updateMetaPage
  | vacuumOnePage
deriving DecidableEq, Repr

/-- The operation of an info byte, if it has one. -/
def hashOp (info : UInt8) : Option HashOp :=
  match info with
  | 0x00 => some .initMetaPage
  | 0x10 => some .initBitmapPage
  | 0x20 => some .insert
  | 0x30 => some .addOvflPage
  | 0x40 => some .splitAllocatePage
  | 0x50 => some .splitPage
  | 0x60 => some .splitComplete
  | 0x70 => some .movePageContents
  | 0x80 => some .squeezePage
  | 0x90 => some .delete
  | 0xA0 => some .splitCleanup
  | 0xB0 => some .updateMetaPage
  | 0xC0 => some .vacuumOnePage
  | _ => none

/-- `polar_hash_xlog_add_ovfl_page_save`. -/
def polarHashXlogAddOvflPageSave : List ℕ :=
  [0, 1] ++ record.ifRef 2 ++ record.ifRef 3 ++ [4]

/-- `polar_hash_xlog_add_ovfl_page_get_bufftag_list`. -/
def polarHashXlogAddOvflPageGetBufftagList : TagList :=
  getBufftagList 5 .pointer ([0, 1] ++ record.ifRef 2 ++ record.ifRef 3 ++ [4]) record

/-- `polar_hash_xlog_move_page_contents_save`. -/
def polarHashXlogMovePageContentsSave : List ℕ :=
  (if record.hasBlockRef 0 then [0, 1] else [1]) ++ [2]

/-- `polar_hash_xlog_move_page_contents_get_bufftag_list`. -/
def polarHashXlogMovePageContentsGetBufftagList : TagList :=
  getBufftagList 3 .pointer ((if record.hasBlockRef 0 then [0, 1] else [1]) ++ [2]) record

/-- `polar_hash_xlog_squeeze_page_save`. -/
def polarHashXlogSqueezePageSave : List ℕ :=
  (if record.hasBlockRef 0 then [0, 1] else [1]) ++ [2] ++ record.ifRef 3 ++ record.ifRef 4 ++ [5]
    ++ record.ifRef 6

/-- `polar_hash_xlog_squeeze_page_get_bufftag_list`. -/
def polarHashXlogSqueezePageGetBufftagList : TagList :=
  getBufftagList 7 .pointer
    ((if record.hasBlockRef 0 then [0, 1] else [1]) ++ [2] ++ record.ifRef 3 ++ record.ifRef 4
      ++ [5] ++ record.ifRef 6) record

/-- `polar_hash_xlog_delete_save`. -/
def polarHashXlogDeleteSave : List ℕ :=
  if record.hasBlockRef 0 then [0, 1] else [1]

/-- `polar_hash_xlog_delete_get_bufftag_list`. -/
def polarHashXlogDeleteGetBufftagList : TagList :=
  getBufftagList 2 .pointer (if record.hasBlockRef 0 then [0, 1] else [1]) record

/-- `polar_hash_idx_save`. -/
def polarHashIdxSave : IdxResult (List ℕ) :=
  match hashOp record.info with
  | none => .panic
  | some .initMetaPage | some .splitPage | some .splitCleanup | some .updateMetaPage =>
    .handled [0]
  | some .initBitmapPage | some .insert | some .splitComplete | some .vacuumOnePage =>
    .handled [0, 1]
  | some .addOvflPage => .handled (polarHashXlogAddOvflPageSave record)
  | some .splitAllocatePage => .handled [0, 1, 2]
  | some .movePageContents => .handled (polarHashXlogMovePageContentsSave record)
  | some .squeezePage => .handled (polarHashXlogSqueezePageSave record)
  | some .delete => .handled (polarHashXlogDeleteSave record)

/-- `polar_hash_idx_get_bufftag_list`. -/
def polarHashIdxGetBufftagList : IdxResult TagList :=
  match hashOp record.info with
  | none => .panic
  | some .initMetaPage | some .splitPage | some .splitCleanup | some .updateMetaPage =>
    .handled (getBufftagList 1 .pointer [0] record)
  | some .initBitmapPage | some .insert | some .splitComplete | some .vacuumOnePage =>
    .handled (getBufftagList 2 .pointer [0, 1] record)
  | some .addOvflPage => .handled (polarHashXlogAddOvflPageGetBufftagList record)
  | some .splitAllocatePage => .handled (getBufftagList 3 .pointer [0, 1, 2] record)
  | some .movePageContents => .handled (polarHashXlogMovePageContentsGetBufftagList record)
  | some .squeezePage => .handled (polarHashXlogSqueezePageGetBufftagList record)
  | some .delete => .handled (polarHashXlogDeleteGetBufftagList record)

/-- The hash records whose list is right: those for one page, and a delete that refers to no
primary bucket page. -/
def hashListable : Prop :=
  match hashOp record.info with
  | none => True
  | some .initMetaPage | some .splitPage | some .splitCleanup | some .updateMetaPage =>
    record.hasBlockRef 0
  | some .delete => record.hasBlockRef 1 ∧ record.hasBlockRef 0 = false
  | some .initBitmapPage | some .insert | some .splitComplete | some .vacuumOnePage
  | some .addOvflPage | some .splitAllocatePage | some .movePageContents | some .squeezePage =>
    False

lemma hash_listMatches_iff :
    ListMatches record (polarHashIdxSave record) (polarHashIdxGetBufftagList record) ↔
      hashListable record := by
  unfold polarHashIdxSave polarHashIdxGetBufftagList hashListable
  cases hashOp record.info with
  | none => simp
  | some op =>
      cases op with
      | initMetaPage | splitPage | splitCleanup | updateMetaPage =>
          exact listMatches_one (by decide)
      | initBitmapPage | insert | splitComplete | vacuumOnePage =>
          exact listMatches_many (by decide)
      | splitAllocatePage => exact listMatches_many (by decide)
      | addOvflPage => exact listMatches_many (by simp)
      | movePageContents => exact listMatches_many (by split <;> simp)
      | squeezePage => exact listMatches_many (by split <;> simp)
      | delete =>
          unfold polarHashXlogDeleteSave polarHashXlogDeleteGetBufftagList
          cases record.hasBlockRef 0 with
          | true => simpa using not_lists_of_two (by simp)
          | false => simpa using listMatches_one two_pos

/-! ## GIN -/

/-- The operations of the GIN resource manager. -/
inductive GinOp
  | createPtree | insert | split | vacuumPage | deletePage | updateMetaPage | insertListpage
  | deleteListpage | vacuumDataLeafPage
deriving DecidableEq, Repr

/-- The operation of an info byte, if it has one. -/
def ginOp (info : UInt8) : Option GinOp :=
  match info with
  | 0x10 => some .createPtree
  | 0x20 => some .insert
  | 0x30 => some .split
  | 0x40 => some .vacuumPage
  | 0x50 => some .deletePage
  | 0x60 => some .updateMetaPage
  | 0x70 => some .insertListpage
  | 0x80 => some .deleteListpage
  | 0x90 => some .vacuumDataLeafPage
  | _ => none

/-- `polar_gin_redo_insert_save`. -/
def polarGinRedoInsertSave : List ℕ := record.ifRef 1 ++ [0]

/-- `polar_gin_redo_insert_get_bufftag_list`. -/
def polarGinRedoInsertGetBufftagList : TagList :=
  getBufftagList 2 .pointer (record.ifRef 1 ++ [0]) record

/-- `polar_gin_redo_split_save`. -/
def polarGinRedoSplitSave : List ℕ :=
  record.ifRef 3 ++ [0, 1] ++ record.ifRef 2

/-- `polar_gin_redo_split_get_bufftag_list`. -/
def polarGinRedoSplitGetBufftagList : TagList :=
  getBufftagList 4 .pointer (record.ifRef 3 ++ [0, 1] ++ record.ifRef 2) record

/-- `polar_gin_redo_update_metapage_save`. -/
def polarGinRedoUpdateMetapageSave : List ℕ := [0] ++ record.ifRef 1

/-- `polar_gin_redo_update_metapage_get_bufftag_list`. -/
def polarGinRedoUpdateMetapageGetBufftagList : TagList :=
  getBufftagList 2 .pointer ([0] ++ record.ifRef 1) record

/-- `polar_gin_redo_delete_list_pages_save`; `GIN_NDELETE_AT_ONCE` is 16. -/
def polarGinRedoDeleteListPagesSave : List ℕ :=
  [0] ++ record.whileRef 1 16

/-- `polar_gin_redo_delete_list_pages_get_bufftag_list`, which counts the blocks before it
allocates. -/
def polarGinRedoDeleteListPagesGetBufftagList : TagList :=
  getBufftagList (1 + (record.whileRef 1 16).length) .pointer ([0] ++ record.whileRef 1 16) record

/-- `polar_gin_idx_save`. -/
def polarGinIdxSave : IdxResult (List ℕ) :=
  match ginOp record.info with
  | none => .skipped
  | some .createPtree | some .vacuumPage | some .vacuumDataLeafPage | some .insertListpage =>
    .handled [0]
  | some .insert => .handled (polarGinRedoInsertSave record)
  | some .split => .handled (polarGinRedoSplitSave record)
  | some .deletePage => .handled [2, 0, 1]
  | some .updateMetaPage => .handled (polarGinRedoUpdateMetapageSave record)
  | some .deleteListpage => .handled (polarGinRedoDeleteListPagesSave record)

/-- `polar_gin_idx_get_bufftag_list`. -/
def polarGinIdxGetBufftagList : IdxResult TagList :=
  match ginOp record.info with
  | none => .skipped
  | some .createPtree | some .vacuumPage | some .vacuumDataLeafPage | some .insertListpage =>
    .handled (getBufftagList 1 .pointer [0] record)
  | some .insert => .handled (polarGinRedoInsertGetBufftagList record)
  | some .split => .handled (polarGinRedoSplitGetBufftagList record)
  | some .deletePage => .handled (getBufftagList 3 .pointer [2, 0, 1] record)
  | some .updateMetaPage => .handled (polarGinRedoUpdateMetapageGetBufftagList record)
  | some .deleteListpage => .handled (polarGinRedoDeleteListPagesGetBufftagList record)

/-- The GIN records whose list is right: those that refer to one page. -/
def ginListable : Prop :=
  match ginOp record.info with
  | none => True
  | some .createPtree | some .vacuumPage | some .vacuumDataLeafPage | some .insertListpage =>
    record.hasBlockRef 0
  | some .insert | some .updateMetaPage | some .deleteListpage =>
    record.hasBlockRef 0 ∧ record.hasBlockRef 1 = false
  | some .split | some .deletePage => False

lemma gin_listMatches_iff :
    ListMatches record (polarGinIdxSave record) (polarGinIdxGetBufftagList record) ↔
      ginListable record := by
  unfold polarGinIdxSave polarGinIdxGetBufftagList ginListable
  cases ginOp record.info with
  | none => simp
  | some op =>
      cases op with
      | createPtree | vacuumPage | vacuumDataLeafPage | insertListpage =>
          exact listMatches_one (by decide)
      | insert => exact (listMatches_concat (by decide)).trans (by rw [ifRef_eq_nil])
      | split => exact listMatches_many (by simp; omega)
      | deletePage => exact listMatches_many (by decide)
      | updateMetaPage => exact (listMatches_cons (by decide)).trans (by rw [ifRef_eq_nil])
      | deleteListpage =>
          exact (listMatches_cons (by omega)).trans (by rw [whileRef_eq_nil (by decide)])

/-! ## GiST -/

/-- The operations of the GiST resource manager. -/
inductive GistOp
  | pageUpdate | delete | pageReuse | pageSplit | pageDelete | assignLsn
deriving DecidableEq, Repr

/-- The operation of an info byte, if it has one. -/
def gistOp (info : UInt8) : Option GistOp :=
  match info with
  | 0x00 => some .pageUpdate
  | 0x10 => some .delete
  | 0x20 => some .pageReuse
  | 0x30 => some .pageSplit
  | 0x60 => some .pageDelete
  | 0x70 => some .assignLsn
  | _ => none

/-- `polar_gist_redo_page_update_record_save`. -/
def polarGistRedoPageUpdateRecordSave : List ℕ := [0] ++ record.ifRef 1

/-- `polar_gist_redo_page_update_record_get_bufftag_list`. -/
def polarGistRedoPageUpdateRecordGetBufftagList : TagList :=
  getBufftagList 2 .pointer ([0] ++ record.ifRef 1) record

/-- `polar_gist_redo_page_split_record_save`; `XLR_MAX_BLOCK_ID` is 32. -/
def polarGistRedoPageSplitRecordSave : List ℕ :=
  [1] ++ (record.whileRef 2 32 ++ record.ifRef 0)

/-- `polar_gist_redo_page_split_record_get_bufftag_list`, which counts the blocks before it
allocates. -/
def polarGistRedoPageSplitRecordGetBufftagList : TagList :=
  getBufftagList (1 + (record.whileRef 2 32).length + (record.ifRef 0).length) .pointer
    ([1] ++ (record.whileRef 2 32 ++ record.ifRef 0)) record

/-- `polar_gist_idx_save`. -/
def polarGistIdxSave : IdxResult (List ℕ) :=
  match gistOp record.info with
  | none => .panic
  | some .pageUpdate => .handled (polarGistRedoPageUpdateRecordSave record)
  | some .delete => .handled [0]
  | some .pageReuse | some .assignLsn => .handled []
  | some .pageSplit => .handled (polarGistRedoPageSplitRecordSave record)
  | some .pageDelete => .handled [0, 1]

/-- `polar_gist_idx_get_bufftag_list`. -/
def polarGistIdxGetBufftagList : IdxResult TagList :=
  match gistOp record.info with
  | none => .panic
  | some .pageUpdate => .handled (polarGistRedoPageUpdateRecordGetBufftagList record)
  | some .delete => .handled (getBufftagList 1 .pointer [0] record)
  | some .pageReuse | some .assignLsn => .handled noBufftagList
  | some .pageSplit => .handled (polarGistRedoPageSplitRecordGetBufftagList record)
  | some .pageDelete => .handled (getBufftagList 2 .pointer [0, 1] record)

/-- The GiST records whose list is right: those that refer to one page. -/
def gistListable : Prop :=
  match gistOp record.info with
  | none => True
  | some .pageUpdate => record.hasBlockRef 0 ∧ record.hasBlockRef 1 = false
  | some .delete => record.hasBlockRef 0
  | some .pageSplit =>
    record.hasBlockRef 1 ∧ record.hasBlockRef 2 = false ∧ record.hasBlockRef 0 = false
  | some .pageReuse | some .assignLsn | some .pageDelete => False

lemma gist_listMatches_iff :
    ListMatches record (polarGistIdxSave record) (polarGistIdxGetBufftagList record) ↔
      gistListable record := by
  unfold polarGistIdxSave polarGistIdxGetBufftagList gistListable
  cases gistOp record.info with
  | none => simp
  | some op =>
      cases op with
      | pageUpdate => exact (listMatches_cons (by decide)).trans (by rw [ifRef_eq_nil])
      | delete => exact listMatches_one (by decide)
      | pageReuse | assignLsn => exact listMatches_noBufftagList
      | pageSplit =>
          refine (listMatches_cons (by omega)).trans (and_congr_right fun _ => ?_)
          rw [List.append_eq_nil_iff, whileRef_eq_nil (by decide), ifRef_eq_nil]
      | pageDelete => exact listMatches_many (by decide)

/-! ## SP-GiST -/

/-- The operations of the SP-GiST resource manager. -/
inductive SpgistOp
  | addLeaf | moveLeafs | addNode | splitTuple | picksplit | vacuumLeaf | vacuumRoot
  | vacuumRedirect
deriving DecidableEq, Repr

/-- The operation of an info byte, if it has one. -/
def spgistOp (info : UInt8) : Option SpgistOp :=
  match info with
  | 0x10 => some .addLeaf
  | 0x20 => some .moveLeafs
  | 0x30 => some .addNode
  | 0x40 => some .splitTuple
  | 0x50 => some .picksplit
  | 0x60 => some .vacuumLeaf
  | 0x70 => some .vacuumRoot
  | 0x80 => some .vacuumRedirect
  | _ => none

/-- `polar_spg_redo_add_node_save`. -/
def polarSpgRedoAddNodeSave : List ℕ :=
  if !record.hasBlockRef 1 then [0] else [1, 0] ++ record.ifRef 2

/-- `polar_spg_redo_add_node_get_bufftag_list`. -/
def polarSpgRedoAddNodeGetBufftagList : TagList :=
  getBufftagList 3 .pointer (if !record.hasBlockRef 1 then [0] else [1, 0] ++ record.ifRef 2)
    record

/-- `polar_spg_redo_pick_split_save`. -/
def polarSpgRedoPickSplitSave : List ℕ :=
  record.ifRef 0 ++ record.ifRef 1 ++ [2] ++ record.ifRef 3

/-- `polar_spg_redo_pick_split_get_bufftag_list`. -/
def polarSpgRedoPickSplitGetBufftagList : TagList :=
  getBufftagList 4 .pointer (record.ifRef 0 ++ record.ifRef 1 ++ [2] ++ record.ifRef 3) record

/-- `polar_spg_idx_save`. -/
def polarSpgIdxSave : IdxResult (List ℕ) :=
  match spgistOp record.info with
  | none => .panic
  | some .addLeaf => .handled ([0] ++ record.ifRef 1)
  | some .moveLeafs => .handled [1, 0, 2]
  | some .addNode => .handled (polarSpgRedoAddNodeSave record)
  | some .splitTuple => .handled (record.ifRef 1 ++ [0])
  | some .picksplit => .handled (polarSpgRedoPickSplitSave record)
  | some .vacuumLeaf | some .vacuumRoot | some .vacuumRedirect => .handled [0]

/-- `polar_spg_idx_get_bufftag_list`, which reads the blocks of `MOVE_LEAFS` in another order. -/
def polarSpgIdxGetBufftagList : IdxResult TagList :=
  match spgistOp record.info with
  | none => .panic
  | some .addLeaf => .handled (getBufftagList 2 .pointer ([0] ++ record.ifRef 1) record)
  | some .moveLeafs => .handled (getBufftagList 3 .pointer [0, 1, 2] record)
  | some .addNode => .handled (polarSpgRedoAddNodeGetBufftagList record)
  | some .splitTuple => .handled (getBufftagList 2 .pointer (record.ifRef 1 ++ [0]) record)
  | some .picksplit => .handled (polarSpgRedoPickSplitGetBufftagList record)
  | some .vacuumLeaf | some .vacuumRoot | some .vacuumRedirect =>
    .handled (getBufftagList 1 .pointer [0] record)

/-- The SP-GiST records whose list is right: those that refer to one page. -/
def spgistListable : Prop :=
  match spgistOp record.info with
  | none => True
  | some .addLeaf | some .addNode | some .splitTuple =>
    record.hasBlockRef 0 ∧ record.hasBlockRef 1 = false
  | some .moveLeafs => False
  | some .picksplit => record.hasBlockRef 2 ∧ record.hasBlockRef 0 = false ∧
      record.hasBlockRef 1 = false ∧ record.hasBlockRef 3 = false
  | some .vacuumLeaf | some .vacuumRoot | some .vacuumRedirect => record.hasBlockRef 0

lemma spgist_listMatches_iff :
    ListMatches record (polarSpgIdxSave record) (polarSpgIdxGetBufftagList record) ↔
      spgistListable record := by
  unfold polarSpgIdxSave polarSpgIdxGetBufftagList spgistListable
  cases spgistOp record.info with
  | none => simp
  | some op =>
      cases op with
      | addLeaf => exact (listMatches_cons (by decide)).trans (by rw [ifRef_eq_nil])
      | moveLeafs => exact listMatches_many (by decide)
      | addNode =>
          unfold polarSpgRedoAddNodeSave polarSpgRedoAddNodeGetBufftagList
          cases record.hasBlockRef 1 with
          | true => simpa using not_lists_of_two (by simp)
          | false => simpa using listMatches_one (by decide)
      | splitTuple => exact (listMatches_concat (by decide)).trans (by rw [ifRef_eq_nil])
      | picksplit =>
          unfold polarSpgRedoPickSplitSave polarSpgRedoPickSplitGetBufftagList
          cases h : record.hasBlockRef 3 with
          | true =>
              refine (listMatches_many ?_).trans (by simp)
              simp only [XLogRecord.ifRef, h, List.length_append, onlyIf_true, List.length_cons]
              omega
          | false =>
              have hlast : record.ifRef 3 = [] := ifRef_eq_nil.mpr h
              rw [hlast, List.append_nil]
              refine (listMatches_concat (by decide)).trans (and_congr_right fun _ => ?_)
              rw [List.append_eq_nil_iff, ifRef_eq_nil, ifRef_eq_nil]
              simp
      | vacuumLeaf | vacuumRoot | vacuumRedirect => exact listMatches_one (by decide)

/-! ## BRIN -/

/-- The operations of the BRIN resource manager. -/
inductive BrinOp
  | createIndex | insert | update | samepageUpdate | revmapExtend | desummarize
deriving DecidableEq, Repr

/-- `info & XLOG_BRIN_OPMASK`. -/
def brinOp (info : UInt8) : Option BrinOp :=
  match info &&& 0x70 with
  | 0x00 => some .createIndex
  | 0x10 => some .insert
  | 0x20 => some .update
  | 0x30 => some .samepageUpdate
  | 0x40 => some .revmapExtend
  | 0x50 => some .desummarize
  | _ => none

/-- `polar_brin_idx_save`. -/
def polarBrinIdxSave : IdxResult (List ℕ) :=
  match brinOp record.info with
  | none => .skipped
  | some .createIndex | some .samepageUpdate => .handled [0]
  | some .insert | some .revmapExtend | some .desummarize => .handled [0, 1]
  | some .update => .handled [2, 0, 1]

/-- `polar_brin_idx_get_bufftag_list`. -/
def polarBrinIdxGetBufftagList : IdxResult TagList :=
  match brinOp record.info with
  | none => .skipped
  | some .createIndex | some .samepageUpdate => .handled (getBufftagList 1 .pointer [0] record)
  | some .insert | some .revmapExtend | some .desummarize =>
    .handled (getBufftagList 2 .pointer [0, 1] record)
  | some .update => .handled (getBufftagList 3 .pointer [2, 0, 1] record)

/-- The BRIN records whose list is right: those for one page. -/
def brinListable : Prop :=
  match brinOp record.info with
  | none => True
  | some .createIndex | some .samepageUpdate => record.hasBlockRef 0
  | some .insert | some .revmapExtend | some .desummarize | some .update => False

lemma brin_listMatches_iff :
    ListMatches record (polarBrinIdxSave record) (polarBrinIdxGetBufftagList record) ↔
      brinListable record := by
  unfold polarBrinIdxSave polarBrinIdxGetBufftagList brinListable
  cases brinOp record.info with
  | none => simp
  | some op =>
      cases op with
      | createIndex | samepageUpdate => exact listMatches_one (by decide)
      | insert | revmapExtend | desummarize => exact listMatches_many (by decide)
      | update => exact listMatches_many (by decide)

/-! ## Sequences and generic records -/

/-- `polar_seq_idx_save`; `XLOG_SEQ_LOG` is 0. -/
def polarSeqIdxSave : IdxResult (List ℕ) :=
  if record.info = 0 then .handled [0] else .panic

/-- `polar_seq_idx_get_bufftag_list`. -/
def polarSeqIdxGetBufftagList : IdxResult TagList :=
  if record.info = 0 then .handled (getBufftagList 1 .pointer [0] record) else .panic

lemma seq_listMatches_iff :
    ListMatches record (polarSeqIdxSave record) (polarSeqIdxGetBufftagList record) ↔
      (record.info = 0 → record.hasBlockRef 0) := by
  unfold polarSeqIdxSave polarSeqIdxGetBufftagList
  by_cases h : record.info = 0
  · simpa [h] using lists_single (Lvalue.pointer_inside one_pos) 0
  · simp [h]

/-- `polar_generic_idx_save`: the ids up to and including `MAX_GENERIC_XLOG_PAGES`, 4. -/
def polarGenericIdxSave : IdxResult (List ℕ) :=
  .handled ((List.range 5).filter record.hasBlockRef)

/-- `polar_generic_idx_get_bufftag_list`, which allocates 4 elements. -/
def polarGenericIdxGetBufftagList : IdxResult TagList :=
  .handled (getBufftagList 4 .pointer ((List.range 5).filter record.hasBlockRef) record)

/-- The generic records whose list is right: those that refer to one page at most. -/
def genericListable : Prop :=
  ∀ i ≤ 4, ∀ j ≤ 4, record.hasBlockRef i → record.hasBlockRef j → i = j

lemma generic_listMatches_iff :
    ListMatches record (polarGenericIdxSave record) (polarGenericIdxGetBufftagList record) ↔
      genericListable record := by
  have hmem : ∀ id, id ∈ (List.range 5).filter record.hasBlockRef ↔
      id ≤ 4 ∧ record.hasBlockRef id := by
    intro id
    simp [Nat.lt_succ_iff]
  have hnodup : ((List.range 5).filter record.hasBlockRef).Nodup := List.nodup_range.filter _
  refine (listMatches_pointer (by decide)).trans ?_
  constructor
  · rintro (hnil | ⟨id, hone, -⟩) i hi j hj href href'
    · exact absurd ((hmem i).mpr ⟨hi, href⟩) (by simp [hnil])
    · have hi' := (hmem i).mpr ⟨hi, href⟩
      have hj' := (hmem j).mpr ⟨hj, href'⟩
      rw [hone, List.mem_singleton] at hi' hj'
      rw [hi', hj']
  · intro hone
    match hids : (List.range 5).filter record.hasBlockRef with
    | [] => exact .inl rfl
    | [id] => exact .inr ⟨id, rfl, ((hmem id).mp (by simp [hids])).2⟩
    | id :: id' :: ids =>
        have hid := (hmem id).mp (by simp [hids])
        have hid' := (hmem id').mp (by simp [hids])
        have heq := hone id hid.1 id' hid'.1 hid.2 hid'.2
        rw [hids, heq] at hnodup
        simp at hnodup

end GroundDB
