import GroundDB.PageStore.Tag

/-!
# The keys of the reader and of the parser

A page that a compute node reads (`RpcReadBuffer_common`) is looked up under a key whose block
number went through the `int32_t` of the request.  The parser takes the block number of the WAL
record, which is unsigned.

**Distinctness.**  From either key the tag can be recovered, so that keys of different pages differ,
whichever side built them.

**Agreement.**  The keys are the same for blocks below `2 ^ 31` only: the request's sign is extended
to the 64 bits of the key.
-/

namespace GroundDB

/-- The request `RpcReadBuffer_common` sends, with the relation as `MarshalSmgrRelation2RPC` copies
it: `Oid`s widen to `int64_t`, the block number becomes an `int32_t`. -/
def rpcReadBufferCommon (tag : BufferTag) (lsn : ℕ) : ReadRequest :=
  { spcNode := tag.spcNode.toUInt64.toInt64, dbNode := tag.dbNode.toUInt64.toInt64
    relNode := tag.relNode.toUInt64.toInt64, forknum := tag.forkNum
    blknum := tag.blockNum.toInt32, lsn := lsn }

/-- `InvalidBlockNumber`. -/
def invalidBlockNumber : UInt32 := 0xFFFFFFFF

section Distinct

@[simp] lemma tagOfKey_rpcReadBufferCommon (tag : BufferTag) (lsn : ℕ) :
    tagOfKey (rpcReadBufferCommon tag lsn).key = tag := by
  rw [← ReadRequest.tag_eq]
  simp [rpcReadBufferCommon, ReadRequest.tag]

/-- The keys of one page: the parser's, and the ones of its reads. -/
inductive PageKey (tag : BufferTag) : KeyType → Prop
  | parser : PageKey tag (keyOfTag tag)
  | reader (lsn : ℕ) : PageKey tag (rpcReadBufferCommon tag lsn).key

lemma PageKey.tagOfKey_eq {tag : BufferTag} {key : KeyType} (h : PageKey tag key) :
    tagOfKey key = tag := by
  cases h with
  | parser => exact tagOfKey_keyOfTag tag
  | reader lsn => exact tagOfKey_rpcReadBufferCommon tag lsn

/-- **Different pages have different keys**, also if one is read and the other parsed. -/
theorem PageKey.ne_of_ne {tag other : BufferTag} {key key' : KeyType} (hne : other ≠ tag)
    (h : PageKey tag key) (h' : PageKey other key') : key' ≠ key := by
  intro heq
  apply hne
  rw [← h.tagOfKey_eq, ← h'.tagOfKey_eq, heq]

end Distinct

section Agree

variable (block : UInt32)

lemma toInt_signExtend : block.toInt32.toInt64.toInt = (block.toNat : ℤ).bmod (2 ^ 32) := by
  rw [Int32.toInt_toInt64, ← Int32.toInt_toBitVec, UInt32.toBitVec_toInt32,
    BitVec.toInt_eq_toNat_bmod, UInt32.toNat_toBitVec]

lemma toInt_zeroExtend : block.toUInt64.toInt64.toInt = (block.toNat : ℤ) := by
  have hlt := block.toNat_lt
  rw [← Int64.toInt_toBitVec, UInt64.toBitVec_toInt64, BitVec.toInt_eq_toNat_bmod,
    UInt64.toNat_toBitVec, UInt32.toNat_toUInt64, Int.bmod_eq_of_le] <;> omega

lemma signExtend_eq_zeroExtend_iff :
    block.toInt32.toInt64 = block.toUInt64.toInt64 ↔ block.toNat < 2 ^ 31 := by
  have hlt := block.toNat_lt
  rw [← Int64.toInt_inj, toInt_signExtend, toInt_zeroExtend, Int.bmod_def]
  omega

/-- The keys of reader and parser differ at most in the block number. -/
lemma key_rpcReadBufferCommon_eq_iff (tag : BufferTag) (lsn : ℕ) :
    (rpcReadBufferCommon tag lsn).key = keyOfTag tag ↔ tag.blockNum.toNat < 2 ^ 31 := by
  rw [← signExtend_eq_zeroExtend_iff]
  simp [rpcReadBufferCommon, ReadRequest.key, keyOfTag]

/-- **Reader and parser agree** on the key and the bucket of a page, with keys that differ from
those of all other pages, just if its block number is below `2 ^ 31`. -/
theorem reader_parser_keys_agree_iff (tag : BufferTag) (lsn : ℕ) (m : HashMap) :
    ((rpcReadBufferCommon tag lsn).key = keyOfTag tag ∧
      m.bucketPos (rpcReadBufferCommon tag lsn).key = m.bucketPos (keyOfTag tag) ∧
      ∀ other key key', other ≠ tag → PageKey tag key → PageKey other key' → key' ≠ key) ↔
    tag.blockNum.toNat < 2 ^ 31 := by
  rw [← key_rpcReadBufferCommon_eq_iff tag lsn]
  constructor
  · exact fun h => h.1
  · intro heq
    refine ⟨heq, by rw [heq], ?_⟩
    intro other key key' hne h h'
    exact PageKey.ne_of_ne hne h h'

/-- Block `2 ^ 31` of a relation is valid, is parsed under this number and read under its negative.
-/
theorem block_two_pow_31_keys :
    let tag : BufferTag := ⟨1663, 13000, 16384, 0, 2147483648⟩
    tag.blockNum ≠ invalidBlockNumber ∧ (keyOfTag tag).blkNum = 2147483648 ∧
      (rpcReadBufferCommon tag 100).key.blkNum = -2147483648 ∧
      (rpcReadBufferCommon tag 100).key ≠ keyOfTag tag := by
  decide

end Agree

end GroundDB
