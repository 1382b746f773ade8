import GroundDB.HashMap.Types

/-!
# Pages, keys and requests

A page is named in three ways: by the `BufferTag` under which its versions are stored, by the
`KeyType` under which the map lists its LSNs, and by the fields of a read request.  The parser,
the vacuumer and the request handler convert between them with the widths and signs the source
uses; a request and the vacuumer reach the tag of a page the parser indexed.
-/

namespace GroundDB

/-- `BufferTag`: a relation, a fork and a block. -/
structure BufferTag where
  spcNode : UInt32
  dbNode : UInt32
  relNode : UInt32
  forkNum : Int32
  blockNum : UInt32
deriving DecidableEq, Repr

/-- The key under which the parser (`ParseXLogBlocksLsn`) lists a page. -/
def keyOfTag (tag : BufferTag) : KeyType :=
  { spcID := tag.spcNode.toUInt64, dbID := tag.dbNode.toUInt64, relID := tag.relNode.toUInt64
    forkNum := tag.forkNum.toUInt32, blkNum := tag.blockNum.toUInt64.toInt64 }

/-- The tag under which the vacuumer stores the versions of a listed page. -/
def tagOfKey (key : KeyType) : BufferTag :=
  { spcNode := key.spcID.toUInt32, dbNode := key.dbID.toUInt32, relNode := key.relID.toUInt32
    forkNum := key.forkNum.toInt32, blockNum := key.blkNum.toUInt64.toUInt32 }

/-- The fields of a `ReadBufferCommon` request that are used. -/
structure ReadRequest where
  spcNode : Int64
  dbNode : Int64
  relNode : Int64
  forknum : Int32
  blknum : Int32
  lsn : ℕ
deriving DecidableEq, Repr

/-- The key a request looks up. -/
def ReadRequest.key (req : ReadRequest) : KeyType :=
  { spcID := req.spcNode.toUInt64, dbID := req.dbNode.toUInt64, relID := req.relNode.toUInt64
    forkNum := req.forknum.toUInt32, blkNum := req.blknum.toInt64 }

/-- The tag under which a request reads and stores versions. -/
def ReadRequest.tag (req : ReadRequest) : BufferTag :=
  { spcNode := req.spcNode.toUInt64.toUInt32, dbNode := req.dbNode.toUInt64.toUInt32
    relNode := req.relNode.toUInt64.toUInt32, forkNum := req.forknum
    blockNum := req.blknum.toUInt32 }

/-- A page of one relation, and the request for it. -/
abbrev pageSeven : BufferTag := ⟨1663, 13000, 16384, 0, 7⟩

abbrev readSeven (lsn : ℕ) : ReadRequest := ⟨1663, 13000, 16384, 0, 7, lsn⟩

@[simp] lemma tagOfKey_keyOfTag (tag : BufferTag) : tagOfKey (keyOfTag tag) = tag := by
  obtain ⟨spc, db, rel, fork, block⟩ := tag
  simp [tagOfKey, keyOfTag]

lemma keyOfTag_injective : Function.Injective keyOfTag :=
  Function.LeftInverse.injective tagOfKey_keyOfTag

/-- Extending the sign of a block number and cutting it off again changes nothing. -/
lemma toUInt32_toInt64 (block : Int32) : block.toInt64.toUInt64.toUInt32 = block.toUInt32 := by
  have hbits : BitVec.setWidth 32 (BitVec.signExtend 64 block.toBitVec) = block.toBitVec := by
    ext i hi
    rw [BitVec.getElem_setWidth, BitVec.getLsbD_signExtend]
    simp [hi, show i < 64 by omega]
  apply UInt32.toBitVec_inj.mp
  simpa using hbits

lemma ReadRequest.tag_eq (req : ReadRequest) : req.tag = tagOfKey req.key := by
  obtain ⟨spc, db, rel, fork, block, lsn⟩ := req
  simp [tagOfKey, ReadRequest.tag, ReadRequest.key, toUInt32_toInt64]

end GroundDB
