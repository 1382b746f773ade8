import GroundDB.Lib.Printf
import GroundDB.PageStore.ReadBuffer

/-!
# The keys of the version store

Page versions, LSN lists and WAL records are kept in one RocksDB database, under keys that are
printed into a buffer of 256 characters: `rocks_page_…`, `rocks_list_…` and `rocks_xlog_…`, with the
fields of the tag and the LSN in decimal.

**Keys.**  Nothing is cut off, and the fields can be read back from a key, so that keys of different
versions differ and no key belongs to two families (`StoreKey.string_injective`).

**The store.**  So the database is three stores that do not know of each other: the page versions
under tag and LSN, as `KvStore` has them, and those of the two other families (`storesOf_run`).

An `Oid` is printed with `%lu`; it is passed as a 32-bit argument, which arrives extended by zeros.
-/

namespace GroundDB

open Printf Function

/-! ## The keys -/

/-- `ROCKSDB_PAGE_VERSION_KEY`. -/
def rocksdbPageVersionKey (tag : BufferTag) (lsn : UInt64) : List Piece :=
  [.text "rocks_page_", .lu tag.spcNode.toUInt64, .text "_", .lu tag.dbNode.toUInt64, .text "_",
    .lu tag.relNode.toUInt64, .text "_", .d tag.forkNum, .text "_", .u tag.blockNum, .text "_",
    .lu lsn]

/-- `ROCKSDB_LSN_LIST_KEY`. -/
def rocksdbLsnListKey (tag : BufferTag) : List Piece :=
  [.text "rocks_list_", .lu tag.spcNode.toUInt64, .text "_", .lu tag.dbNode.toUInt64, .text "_",
    .lu tag.relNode.toUInt64, .text "_", .d tag.forkNum, .text "_", .u tag.blockNum]

/-- `ROCKSDB_XLOG_KEY`. -/
def rocksdbXlogKey (lsn : UInt64) : List Piece := [.text "rocks_xlog_", .lu lsn]

/-- What is stored: page versions, LSN lists of pages, and WAL records. -/
inductive StoreKey
  | page (tag : BufferTag) (lsn : UInt64)
  | lsnList (tag : BufferTag)
  | xlog (lsn : UInt64)
deriving DecidableEq

/-- The format of a key. -/
def StoreKey.format : StoreKey → List Piece
  | .page tag lsn => rocksdbPageVersionKey tag lsn
  | .lsnList tag => rocksdbLsnListKey tag
  | .xlog lsn => rocksdbXlogKey lsn

/-- `MAX_PATH_LEN`, the size of `tempKey`. -/
def maxPathLen : ℕ := 256

/-- `tempKey` after `snprintf`. -/
def StoreKey.string (key : StoreKey) : List Char := snprintf maxPathLen key.format

/-- The fields that name a page. -/
def tagValues (tag : BufferTag) : List (List Char) :=
  [decimal tag.spcNode.toNat, decimal tag.dbNode.toNat, decimal tag.relNode.toNat,
    signedDecimal tag.forkNum.toInt, decimal tag.blockNum.toNat]

/-- The fields of a key. -/
def StoreKey.fields : StoreKey → List (List Char)
  | .page tag lsn => "rocks".toList :: "page".toList :: (tagValues tag ++ [decimal lsn.toNat])
  | .lsnList tag => "rocks".toList :: "list".toList :: tagValues tag
  | .xlog lsn => ["rocks".toList, "xlog".toList, decimal lsn.toNat]

/-- The widths of a key's pieces add up to less than the buffer. -/
lemma StoreKey.width_format (key : StoreKey) : (key.format.map Piece.width).sum < maxPathLen := by
  cases key <;>
    simp [format, rocksdbPageVersionKey, rocksdbLsnListKey, rocksdbXlogKey, Piece.width, maxPathLen]

/-- **No key is cut off.** -/
lemma StoreKey.string_eq_printed (key : StoreKey) : key.string = printed key.format :=
  snprintf_eq_printed key.width_format

lemma StoreKey.string_eq (key : StoreKey) : key.string = separated key.fields := by
  rw [string_eq_printed]
  cases key <;>
    simp [printed, format, rocksdbPageVersionKey, rocksdbLsnListKey, rocksdbXlogKey, Piece.print,
      separated, fields, tagValues, List.intercalate]

lemma tagValues_injective : Function.Injective tagValues := by
  rintro ⟨spc, db, rel, fork, block⟩ ⟨spc', db', rel', fork', block'⟩ h
  simp only [tagValues, List.cons.injEq, and_true] at h
  obtain ⟨hspc, hdb, hrel, hfork, hblock⟩ := h
  simp only [BufferTag.mk.injEq]
  exact ⟨UInt32.toNat_inj.mp (decimal_injective hspc), UInt32.toNat_inj.mp (decimal_injective hdb),
    UInt32.toNat_inj.mp (decimal_injective hrel),
    Int32.toInt_inj.mp (signedDecimal_injective hfork),
    UInt32.toNat_inj.mp (decimal_injective hblock)⟩

lemma decimal_toNat_inj {lsn lsn' : UInt64} (h : decimal lsn.toNat = decimal lsn'.toNat) :
    lsn = lsn' :=
  UInt64.toNat_inj.mp (decimal_injective h)

/-- A key is known from its fields: the second one names the family. -/
lemma StoreKey.fields_injective : Function.Injective StoreKey.fields := by
  intro key key' h
  match key, key' with
  | .page tag lsn, .page tag' lsn' =>
      obtain ⟨htag, hlsn⟩ := List.append_inj' (List.cons.inj (List.cons.inj h).2).2 rfl
      rw [tagValues_injective htag, decimal_toNat_inj (List.cons.inj hlsn).1]
  | .lsnList tag, .lsnList tag' =>
      rw [tagValues_injective (List.cons.inj (List.cons.inj h).2).2]
  | .xlog lsn, .xlog lsn' =>
      rw [decimal_toNat_inj (List.cons.inj (List.cons.inj (List.cons.inj h).2).2).1]
  | .page _ _, .lsnList _ | .page _ _, .xlog _ | .lsnList _, .page _ _ | .lsnList _, .xlog _
  | .xlog _, .page _ _ | .xlog _, .lsnList _ => simp [fields] at h

lemma StoreKey.underscore_not_mem_fields (key : StoreKey) : ∀ f ∈ key.fields, '_' ∉ f := by
  cases key <;>
    simp [fields, tagValues, underscore_not_mem_decimal, underscore_not_mem_signedDecimal]

/-- **Different versions, lists and records have different keys.** -/
lemma StoreKey.string_injective : Function.Injective StoreKey.string := by
  intro key key' h
  rw [string_eq, string_eq] at h
  apply fields_injective
  refine separated_injective ?_ ?_ key.underscore_not_mem_fields key'.underscore_not_mem_fields h
  · cases key <;> simp [fields]
  · cases key' <;> simp [fields]

/-! ## The database -/

/-- The database: values, which are bytes, under strings. -/
abbrev RocksDb := List Char → Option (List UInt8)

/-- `KvPut`. -/
def kvPut (db : RocksDb) (key : List Char) (value : List UInt8) : RocksDb :=
  update db key (some value)

/-- `KvDelete`. -/
def kvDelete (db : RocksDb) (key : List Char) : RocksDb := update db key none

/-- `KvGet`, for which an empty value is the same as none. -/
def kvGet (db : RocksDb) (key : List Char) : Option (List UInt8) := (db key).filter (· ≠ [])

/-- The content of a page: `BLCKSZ` bytes. -/
abbrev PageContent := Vector UInt8 8192

/-- `PutPage2Rocksdb`. -/
def putPage2Rocksdb (db : RocksDb) (tag : BufferTag) (lsn : UInt64) (page : PageContent) :
    RocksDb :=
  kvPut db (StoreKey.page tag lsn).string page.toList

/-- `GetPageFromRocksdb`. -/
def getPageFromRocksdb (db : RocksDb) (tag : BufferTag) (lsn : UInt64) : Option (List UInt8) :=
  kvGet db (StoreKey.page tag lsn).string

/-- `DeletePageFromRocksdb`. -/
def deletePageFromRocksdb (db : RocksDb) (tag : BufferTag) (lsn : UInt64) : RocksDb :=
  kvDelete db (StoreKey.page tag lsn).string

/-- `PutList2Rocksdb`. -/
def putList2Rocksdb (db : RocksDb) (tag : BufferTag) (list : List UInt8) : RocksDb :=
  kvPut db (StoreKey.lsnList tag).string list

/-- `GetListFromRocksdb`. -/
def getListFromRocksdb (db : RocksDb) (tag : BufferTag) : Option (List UInt8) :=
  kvGet db (StoreKey.lsnList tag).string

/-- `PutXlogWithLsn`. -/
def putXlogWithLsn (db : RocksDb) (lsn : UInt64) (record : List UInt8) : RocksDb :=
  kvPut db (StoreKey.xlog lsn).string record

/-- `GetXlogWithLsn`. -/
def getXlogWithLsn (db : RocksDb) (lsn : UInt64) : Option (List UInt8) :=
  kvGet db (StoreKey.xlog lsn).string

/-- The calls that change the database. -/
inductive StoreOp
  | putPage (tag : BufferTag) (lsn : UInt64) (page : PageContent)
  | deletePage (tag : BufferTag) (lsn : UInt64)
  | putList (tag : BufferTag) (list : List UInt8)
  | putXlog (lsn : UInt64) (record : List UInt8)

/-- What a call does to the database. -/
def StoreOp.onDb : StoreOp → RocksDb → RocksDb
  | .putPage tag lsn page, db => putPage2Rocksdb db tag lsn page
  | .deletePage tag lsn, db => deletePageFromRocksdb db tag lsn
  | .putList tag list, db => putList2Rocksdb db tag list
  | .putXlog lsn record, db => putXlogWithLsn db lsn record

/-! ## Three stores -/

/-- What the database is for: page versions by tag and LSN, lists by tag, and records by LSN. -/
structure VersionStore where
  pages : KvStore (List UInt8)
  lists : BufferTag → Option (List UInt8)
  xlogs : UInt64 → Option (List UInt8)

/-- What a call does to the three stores. -/
def StoreOp.onStores : StoreOp → VersionStore → VersionStore
  | .putPage tag lsn page, s =>
      { s with pages := GroundDB.putPage s.pages tag lsn.toNat page.toList }
  | .deletePage tag lsn, s => { s with pages := GroundDB.deletePage s.pages tag lsn.toNat }
  | .putList tag list, s =>
      { s with lists := update s.lists tag ((some list).filter (· ≠ [])) }
  | .putXlog lsn record, s =>
      { s with xlogs := update s.xlogs lsn ((some record).filter (· ≠ [])) }

/-- What the calls that read get to see of a database. -/
def storesOf (db : RocksDb) : VersionStore :=
  { pages := fun tag lsn =>
      if lsn < 2 ^ 64 then getPageFromRocksdb db tag (UInt64.ofNat lsn) else none
    lists := getListFromRocksdb db
    xlogs := getXlogWithLsn db }

section Stores

variable (db : RocksDb)

/-- What is read under a key after a put or a delete under another. -/
lemma kvGet_update (key key' : StoreKey) (value : Option (List UInt8)) :
    kvGet (update db key.string value) key'.string =
      if key' = key then value.filter (· ≠ []) else kvGet db key'.string := by
  by_cases h : key' = key
  · simp [kvGet, h]
  · simp [kvGet, h, StoreKey.string_injective.ne h]

/-- **An update under a key** is seen under this key and nowhere else. -/
lemma storesOf_update (key : StoreKey) (value : Option (List UInt8)) :
    storesOf (update db key.string value) =
      { pages := fun t v =>
          if v < 2 ^ 64 ∧ StoreKey.page t (UInt64.ofNat v) = key then value.filter (· ≠ [])
          else (storesOf db).pages t v
        lists := fun t =>
          if StoreKey.lsnList t = key then value.filter (· ≠ []) else (storesOf db).lists t
        xlogs := fun v =>
          if StoreKey.xlog v = key then value.filter (· ≠ []) else (storesOf db).xlogs v } := by
  simp only [storesOf, getPageFromRocksdb, VersionStore.mk.injEq]
  refine ⟨?_, ?_, ?_⟩
  · funext t v
    by_cases hv : v < 2 ^ 64
    · simp only [hv, if_true, true_and, kvGet_update]
    · simp only [hv, if_false, false_and]
  · funext t
    exact kvGet_update db key (.lsnList t) value
  · funext v
    exact kvGet_update db key (.xlog v) value

lemma StoreKey.page_ofNat_eq {t tag : BufferTag} {v : ℕ} {lsn : UInt64} :
    (v < 2 ^ 64 ∧ StoreKey.page t (UInt64.ofNat v) = .page tag lsn) ↔
      t = tag ∧ v = lsn.toNat := by
  rw [StoreKey.page.injEq]
  constructor
  · rintro ⟨hv, rfl, rfl⟩
    exact ⟨rfl, (UInt64.toNat_ofNat_of_lt' hv).symm⟩
  · rintro ⟨rfl, rfl⟩
    exact ⟨lsn.toNat_lt, rfl, UInt64.ofNat_toNat⟩

lemma filter_pageContent (page : PageContent) :
    (some page.toList).filter (· ≠ []) = some page.toList := by
  have hlen : page.toList.length = 8192 := by simp
  rw [Option.filter_some, if_pos]
  simp only [ne_eq, decide_eq_true_eq]
  intro hnil
  rw [hnil] at hlen
  cases hlen

/-- **One call** does to the three stores what it does to the database. -/
lemma storesOf_onDb (op : StoreOp) : storesOf (op.onDb db) = op.onStores (storesOf db) := by
  cases op with
  | putPage tag lsn page =>
      simp only [StoreOp.onDb, putPage2Rocksdb, kvPut, storesOf_update, filter_pageContent,
        StoreKey.page_ofNat_eq, reduceCtorEq, if_false]
      rfl
  | deletePage tag lsn =>
      simp only [StoreOp.onDb, deletePageFromRocksdb, kvDelete, storesOf_update,
        StoreKey.page_ofNat_eq, reduceCtorEq, if_false]
      rfl
  | putList tag list =>
      simp only [StoreOp.onDb, putList2Rocksdb, kvPut, storesOf_update, StoreKey.lsnList.injEq,
        reduceCtorEq, and_false, if_false, ← update_apply]
      rfl
  | putXlog lsn record =>
      simp only [StoreOp.onDb, putXlogWithLsn, kvPut, storesOf_update, StoreKey.xlog.injEq,
        reduceCtorEq, and_false, if_false, ← update_apply]
      rfl

/-- **Any sequence of calls** does. -/
theorem storesOf_run (ops : List StoreOp) :
    storesOf (ops.foldl (fun db op => op.onDb db) db) =
      ops.foldl (fun s op => op.onStores s) (storesOf db) := by
  induction ops generalizing db with
  | nil => rfl
  | cons op ops ih => rw [List.foldl_cons, List.foldl_cons, ih, storesOf_onDb]

end Stores

/-- **The keys of the version store.**  Page versions that differ in tag or LSN have different keys;
these keys are printed in full into the buffer; they are keys of no list and of no record.  So
whatever is put and deleted, each version, list and record is as it was put last. -/
theorem version_keys_do_not_interfere :
    (∀ tag lsn tag' lsn', ¬(tag = tag' ∧ lsn = lsn') →
      (StoreKey.page tag lsn).string ≠ (StoreKey.page tag' lsn').string) ∧
    (∀ tag lsn, (StoreKey.page tag lsn).string = printed (rocksdbPageVersionKey tag lsn) ∧
      (StoreKey.page tag lsn).string.length < maxPathLen) ∧
    (∀ tag lsn tag', (StoreKey.page tag lsn).string ≠ (StoreKey.lsnList tag').string) ∧
    (∀ tag lsn lsn', (StoreKey.page tag lsn).string ≠ (StoreKey.xlog lsn').string) ∧
    ∀ (ops : List StoreOp) db, storesOf (ops.foldl (fun db op => op.onDb db) db) =
      ops.foldl (fun s op => op.onStores s) (storesOf db) := by
  refine ⟨?_, ?_, ?_, ?_, fun ops db => storesOf_run db ops⟩
  · intro tag lsn tag' lsn' hne
    exact StoreKey.string_injective.ne (by simpa using hne)
  · intro tag lsn
    have hprinted := (StoreKey.page tag lsn).string_eq_printed
    refine ⟨hprinted, ?_⟩
    rw [hprinted]
    exact (length_printed_le _).trans_lt (StoreKey.width_format _)
  · intro tag lsn tag'
    exact StoreKey.string_injective.ne (by simp)
  · intro tag lsn lsn'
    exact StoreKey.string_injective.ne (by simp)

end GroundDB
