import GroundDB.LogIndex.Record
import GroundDB.Lib.Overlay

/-!
# The relation size cache

Storage and compute nodes keep the number of blocks of a relation fork in a shared hash table.  The
table stores an `int`; its lookup answers `-1` for a missing entry, and `GetRelSizeCache` reads
every `-1` as "not found".  A size of `2 ^ 32 - 1` blocks has the same bits, so it cannot be cached
(`cacheable`), and neither can the answer `-1` that stands for a fork without a file.

`cachedSize` is the cache as its callers see it: a partial map from forks to sizes, moved by
`InsertRelSizeCache` one fork at a time (`cachedSize_insert`).
-/

namespace GroundDB

/-- `RelTag`: the fork of a relation; the key of the shared hash table. -/
structure RelTag where
  spcNode : UInt32
  dbNode : UInt32
  relNode : UInt32
  forkNumber : Int32
deriving DecidableEq, Repr

/-- The fork that concrete runs are about. -/
def sampleFork : RelTag := ⟨1, 1, 1, 0⟩

/-- The fork a page belongs to. -/
def BufferTag.relTag (tag : BufferTag) : RelTag :=
  ⟨tag.spcNode, tag.dbNode, tag.relNode, tag.forkNum⟩

/-- `RelKey`: the key the callers of the cache use. -/
structure RelKey where
  spcId : UInt64
  dbId : UInt64
  relId : UInt64
  forkNum : UInt32
deriving DecidableEq, Repr

/-- `TransRelNode2RelKey`. -/
def transRelNode2RelKey (rel : RelTag) : RelKey :=
  ⟨rel.spcNode.toUInt64, rel.dbNode.toUInt64, rel.relNode.toUInt64, rel.forkNumber.toUInt32⟩

/-- `ParseRelKey2RelTag`. -/
def parseRelKey2RelTag (relKey : RelKey) : RelTag :=
  ⟨relKey.spcId.toUInt32, relKey.dbId.toUInt32, relKey.relId.toUInt32, relKey.forkNum.toInt32⟩

@[simp] lemma parseRelKey2RelTag_trans (rel : RelTag) :
    parseRelKey2RelTag (transRelNode2RelKey rel) = rel := by
  simp [parseRelKey2RelTag, transRelNode2RelKey]

/-- The shared hash table: `relSize` by fork. -/
abbrev RelSizeTable := RelTag → Option Int32

/-- `RelSizeTableLookup`. -/
def relSizeTableLookup (table : RelSizeTable) (rel : RelTag) : Int32 :=
  match table rel with
  | none => -1
  | some relSize => relSize

/-- `RelSizeTableInsert`: overwrites an entry that exists.  No caller uses its result. -/
def relSizeTableInsert (table : RelSizeTable) (rel : RelTag) (relSize : Int32) : RelSizeTable :=
  Function.update table rel (some relSize)

/-- `InsertRelSizeCache`. -/
def insertRelSizeCache (table : RelSizeTable) (relKey : RelKey) (blockNum : UInt32) :
    RelSizeTable :=
  relSizeTableInsert table (parseRelKey2RelTag relKey) blockNum.toInt32

/-- `GetRelSizeCache`: the size, or `none` where the source returns `false`. -/
def getRelSizeCache (table : RelSizeTable) (relKey : RelKey) : Option UInt32 :=
  let re := relSizeTableLookup table (parseRelKey2RelTag relKey)
  if re = -1 then none else some re.toUInt32

/-! ## The cache as its callers see it -/

/-- The bits of `-1`: the size of a fork without a file, and `InvalidBlockNumber`. -/
def invalidSize : UInt32 := 0xFFFFFFFF

/-- What the cache keeps of a size. -/
def cacheable (blockNum : UInt32) : Option UInt32 :=
  if blockNum = invalidSize then none else some blockNum

/-- The cached size of a fork. -/
def cachedSize (table : RelSizeTable) (rel : RelTag) : Option UInt32 :=
  getRelSizeCache table (transRelNode2RelKey rel)

lemma toInt32_eq_neg_one_iff {n : UInt32} : n.toInt32 = -1 ↔ n = invalidSize := by
  constructor
  · intro h
    calc n = n.toInt32.toUInt32 := (UInt32.toUInt32_toInt32 n).symm
      _ = invalidSize := by rw [h]; rfl
  · rintro rfl
    rfl

lemma cachedSize_insert (table : RelSizeTable) (rel : RelTag) (n : UInt32) :
    cachedSize (insertRelSizeCache table (transRelNode2RelKey rel) n)
      = Function.update (cachedSize table) rel (cacheable n) := by
  funext rel'
  by_cases h : rel' = rel
  · subst h
    simp [cachedSize, getRelSizeCache, insertRelSizeCache, relSizeTableInsert, relSizeTableLookup,
      toInt32_eq_neg_one_iff, cacheable]
  · simp [cachedSize, getRelSizeCache, insertRelSizeCache, relSizeTableInsert,
      relSizeTableLookup, h]

lemma cachedSize_ne_invalidSize {table : RelSizeTable} {rel : RelTag} {n : UInt32}
    (h : cachedSize table rel = some n) : n ≠ invalidSize := by
  simp only [cachedSize, getRelSizeCache] at h
  split at h
  · cases h
  · rename_i hne
    obtain rfl := Option.some.inj h
    rw [Ne, ← toInt32_eq_neg_one_iff, Int32.toInt32_toUInt32]
    exact hne

lemma cacheable_eq_some_iff {n m : UInt32} :
    cacheable n = some m ↔ n ≠ invalidSize ∧ n = m := by
  simp [cacheable]

/-! ## The files behind it -/

/-- The files of the storage node: the number of blocks of every fork that has a file. -/
abbrev RelFiles := RelTag → Option UInt32

/-- `GetRelSize` of the replay process, as `SyncGetRelSize` reports it: `-1` without a file. -/
def getRelSize (files : RelFiles) (rel : RelTag) : Int32 :=
  match files rel with
  | none => -1
  | some nblocks => nblocks.toInt32

/-- The reported size, read as a block number. -/
def reportedSize (files : RelFiles) (rel : RelTag) : UInt32 :=
  (files rel).getD invalidSize

@[simp] lemma toUInt32_getRelSize (files : RelFiles) (rel : RelTag) :
    (getRelSize files rel).toUInt32 = reportedSize files rel := by
  unfold getRelSize reportedSize
  cases files rel with
  | none => rfl
  | some n => simp

end GroundDB
