import GroundDB.RelSize.Cache
import GroundDB.Lib.Wire

/-!
# Messages to a replay worker

The storage server sends a replay worker a type byte, the length of what follows and the fields of a
command.  Each sender (`ServerRequest.sends`) computes its length and lays out its buffer by hand;
each handler of the worker (`decode`) reads its own fields.

`Command.fields` is the layout both are compared with.  A handler reads a command back from its
layout when the fork number fits the byte that carries it (`parses_decode`), and a command it reads
accounts for the whole message (`sized_decode`).  The senders use that layout, with the right length
(`sends_eq`), as long as the message is short enough for the receiver; only the sender of a
synchronisation differs.
-/

namespace GroundDB

open Wire

/-- `BLCKSZ`. -/
def blcksz : ℕ := 8192

/-- The bytes of a page. -/
structure BlockImage where
  bytes : List UInt8
  length_bytes : bytes.length = blcksz
deriving DecidableEq

/-- What a worker is asked to do. -/
inductive Command
  | getRelSize (rel : RelTag)
  | createRel (rel : RelTag)
  | getPage (tag : BufferTag)
  | applyOneXlogWithoutBasePage (tag : BufferTag) (lsn : UInt64)
  | applyOneXlog (tag : BufferTag) (lsn : UInt64) (content : BlockImage)
  | applyLsnListXlogWithoutBasePage (tag : BufferTag) (lsnList : List UInt64)
  | applyLsnListXlog (tag : BufferTag) (lsnList : List UInt64) (content : BlockImage)
  | extendRel (tag : BufferTag) (content : BlockImage)
  | applyXlogUntil (lsn : UInt64)
  | syncLsnReplay (lsn : UInt64)
deriving DecidableEq

/-! ## The handlers of the worker -/

/-- `pq_getmsgbyte`. -/
def pqGetmsgbyte : Get UInt32 := do
  let n ← getInt 1
  pure (UInt32.ofNat n)

/-- `pq_getmsgint` of four bytes. -/
def pqGetmsgint : Get UInt32 := do
  let n ← getInt 4
  pure (UInt32.ofNat n)

/-- `pq_getmsgint64`, and `pq_copymsgbytes` of eight bytes followed by `pg_ntoh64`. -/
def pqGetmsgint64 : Get UInt64 := do
  let n ← getInt 8
  pure (UInt64.ofNat n)

/-- `pq_getmsgbytes` of `BLCKSZ` bytes. -/
def pqGetmsgpage : Get BlockImage := fun bs =>
  if h : blcksz ≤ bs.length then some (⟨bs.take blcksz, by simp [h]⟩, bs.drop blcksz) else none

/-- The fork and the relation with which most messages begin. -/
def getRelTag : Get RelTag := do
  let forknum ← pqGetmsgbyte
  let spcNode ← pqGetmsgint
  let dbNode ← pqGetmsgint
  let relNode ← pqGetmsgint
  pure ⟨spcNode, dbNode, relNode, forknum.toInt32⟩

/-- The fork, the relation and the block. -/
def getBufferTag : Get BufferTag := do
  let rel ← getRelTag
  let blknum ← pqGetmsgint
  pure ⟨rel.spcNode, rel.dbNode, rel.relNode, rel.forkNumber, blknum⟩

/-- The number of LSNs and the LSNs. -/
def getLsnList : Get (List UInt64) := do
  let listSize ← pqGetmsgint
  getMany pqGetmsgint64 listSize.toNat

/-- `WalRedoMain`: which fields are read for which type of message.  The types the storage server
does not send are not listed; an unknown type ends the worker. -/
def decode (qtype : UInt8) : Get Command :=
  match Char.ofNat qtype.toNat with
  | 'M' => do
      let rel ← getRelTag
      pure (.getRelSize rel)
  | 'C' => do
      let rel ← getRelTag
      pure (.createRel rel)
  | 'G' => do
      let tag ← getBufferTag
      pure (.getPage tag)
  | 'E' => do
      let tag ← getBufferTag
      let lsn ← pqGetmsgint64
      pure (.applyOneXlogWithoutBasePage tag lsn)
  | 'D' => do
      let tag ← getBufferTag
      let lsn ← pqGetmsgint64
      let content ← pqGetmsgpage
      pure (.applyOneXlog tag lsn content)
  | 'o' => do
      let tag ← getBufferTag
      let lsnList ← getLsnList
      pure (.applyLsnListXlogWithoutBasePage tag lsnList)
  | 'O' => do
      let tag ← getBufferTag
      let lsnList ← getLsnList
      let content ← pqGetmsgpage
      pure (.applyLsnListXlog tag lsnList content)
  | 'F' => do
      let tag ← getBufferTag
      let content ← pqGetmsgpage
      pure (.extendRel tag content)
  | 'U' => do
      let lsn ← pqGetmsgint64
      pure (.applyXlogUntil lsn)
  | 'S' => do
      let lsn ← pqGetmsgint64
      pure (.syncLsnReplay lsn)
  | _ => fun _ => none

/-! ## The layout of a message -/

/-- The byte of a character. -/
def typeByte (c : Char) : UInt8 := UInt8.ofNat c.toNat

/-- The fork number as it is sent: its lowest byte. -/
def forkByte (forkNumber : Int32) : UInt8 := UInt8.ofNat forkNumber.toUInt32.toNat

/-- The bytes of the fork and the relation. -/
def relFields (rel : RelTag) : List UInt8 :=
  [forkByte rel.forkNumber] ++ (bigEndian 4 rel.spcNode.toNat ++
    (bigEndian 4 rel.dbNode.toNat ++ bigEndian 4 rel.relNode.toNat))

/-- The bytes of the fork, the relation and the block. -/
def tagFields (tag : BufferTag) : List UInt8 :=
  relFields tag.relTag ++ bigEndian 4 tag.blockNum.toNat

/-- The bytes of an LSN. -/
def lsnField (lsn : UInt64) : List UInt8 := bigEndian 8 lsn.toNat

/-- The bytes of the number of LSNs and of the LSNs. -/
def lsnListFields (lsnList : List UInt64) : List UInt8 :=
  bigEndian 4 lsnList.length ++ lsnList.flatMap lsnField

namespace Command

/-- The type byte of a command. -/
def type : Command → Char
  | getRelSize _ => 'M'
  | createRel _ => 'C'
  | getPage _ => 'G'
  | applyOneXlogWithoutBasePage _ _ => 'E'
  | applyOneXlog _ _ _ => 'D'
  | applyLsnListXlogWithoutBasePage _ _ => 'o'
  | applyLsnListXlog _ _ _ => 'O'
  | extendRel _ _ => 'F'
  | applyXlogUntil _ => 'U'
  | syncLsnReplay _ => 'S'

/-- The fields of a command, in the order of its message. -/
def fields : Command → List UInt8
  | getRelSize rel => relFields rel
  | createRel rel => relFields rel
  | getPage tag => tagFields tag
  | applyOneXlogWithoutBasePage tag lsn => tagFields tag ++ lsnField lsn
  | applyOneXlog tag lsn content => tagFields tag ++ (lsnField lsn ++ content.bytes)
  | applyLsnListXlogWithoutBasePage tag lsnList => tagFields tag ++ lsnListFields lsnList
  | applyLsnListXlog tag lsnList content =>
      tagFields tag ++ (lsnListFields lsnList ++ content.bytes)
  | extendRel tag content => tagFields tag ++ content.bytes
  | applyXlogUntil lsn => lsnField lsn
  | syncLsnReplay lsn => lsnField lsn

/-- The message of a command: type, length of the rest, fields. -/
def message (c : Command) : List UInt8 :=
  [typeByte c.type] ++ (bigEndian 4 (4 + c.fields.length) ++ c.fields)

/-- The fork number a command carries, `0` if it carries none. -/
def forkNumber : Command → Int32
  | getRelSize rel => rel.forkNumber
  | createRel rel => rel.forkNumber
  | getPage tag => tag.forkNum
  | applyOneXlogWithoutBasePage tag _ => tag.forkNum
  | applyOneXlog tag _ _ => tag.forkNum
  | applyLsnListXlogWithoutBasePage tag _ => tag.forkNum
  | applyLsnListXlog tag _ _ => tag.forkNum
  | extendRel tag _ => tag.forkNum
  | applyXlogUntil _ => 0
  | syncLsnReplay _ => 0

end Command

/-- The fork number is one that a byte carries. -/
def ByteFork (forkNumber : Int32) : Prop := forkNumber.toUInt32.toNat < 256

instance (forkNumber : Int32) : Decidable (ByteFork forkNumber) :=
  inferInstanceAs (Decidable (_ < _))

@[simp] lemma length_relFields (rel : RelTag) : (relFields rel).length = 13 := by
  simp [relFields]

@[simp] lemma length_tagFields (tag : BufferTag) : (tagFields tag).length = 17 := by
  simp [tagFields]

@[simp] lemma length_lsnField (lsn : UInt64) : (lsnField lsn).length = 8 := by
  simp [lsnField]

@[simp] lemma length_lsnListFields (lsnList : List UInt64) :
    (lsnListFields lsnList).length = 4 + 8 * lsnList.length := by
  simp [lsnListFields, List.length_flatMap, Nat.mul_comm]

/-! ## What was laid out is read back -/

lemma parses_byte {forkNumber : Int32} (h : ByteFork forkNumber) :
    Parses pqGetmsgbyte [forkByte forkNumber] forkNumber.toUInt32 := by
  have hdigit : Parses (getInt 1) (bigEndian 1 forkNumber.toUInt32.toNat) _ := parses_getInt h
  have hread := hdigit.bind_pure (f := UInt32.ofNat)
  simpa [bigEndian, forkByte, pqGetmsgbyte] using hread

lemma parses_int (n : UInt32) : Parses pqGetmsgint (bigEndian 4 n.toNat) n := by
  have hdigits : Parses (getInt 4) (bigEndian 4 n.toNat) n.toNat := parses_getInt n.toNat_lt
  simpa [pqGetmsgint] using hdigits.bind_pure (f := UInt32.ofNat)

lemma parses_int64 (n : UInt64) : Parses pqGetmsgint64 (lsnField n) n := by
  have hdigits : Parses (getInt 8) (bigEndian 8 n.toNat) n.toNat := parses_getInt n.toNat_lt
  simpa [pqGetmsgint64, lsnField] using hdigits.bind_pure (f := UInt64.ofNat)

lemma parses_page (content : BlockImage) : Parses pqGetmsgpage content.bytes content := by
  intro rest
  have hlen := content.length_bytes
  simp [pqGetmsgpage, ← hlen]

lemma parses_relTag {rel : RelTag} (h : ByteFork rel.forkNumber) :
    Parses getRelTag (relFields rel) rel :=
  (parses_byte h).bind <| (parses_int rel.spcNode).bind <| (parses_int rel.dbNode).bind <|
    (parses_int rel.relNode).bind_pure

lemma parses_bufferTag {tag : BufferTag} (h : ByteFork tag.forkNum) :
    Parses getBufferTag (tagFields tag) tag := by
  have hrel : Parses getRelTag (relFields tag.relTag) tag.relTag := parses_relTag h
  exact hrel.bind (parses_int tag.blockNum).bind_pure

lemma parses_lsnList {lsnList : List UInt64} (h : lsnList.length < 2 ^ 32) :
    Parses getLsnList (lsnListFields lsnList) lsnList := by
  have hsize := parses_int (UInt32.ofNat lsnList.length)
  rw [UInt32.toNat_ofNat_of_lt' h] at hsize
  refine hsize.bind ?_
  rw [UInt32.toNat_ofNat_of_lt' h]
  exact parses_getMany parses_int64 lsnList

lemma parses_decode {c : Command} (hfork : ByteFork c.forkNumber)
    (hlen : c.fields.length < 2 ^ 32) :
    Parses (decode (typeByte c.type)) c.fields c := by
  cases c with
  | getRelSize rel => exact (parses_relTag hfork).bind_pure
  | createRel rel => exact (parses_relTag hfork).bind_pure
  | getPage tag => exact (parses_bufferTag hfork).bind_pure
  | applyOneXlogWithoutBasePage tag lsn =>
      exact (parses_bufferTag hfork).bind (parses_int64 lsn).bind_pure
  | applyOneXlog tag lsn content =>
      exact (parses_bufferTag hfork).bind <| (parses_int64 lsn).bind (parses_page content).bind_pure
  | applyLsnListXlogWithoutBasePage tag lsnList =>
      have hlist : lsnList.length < 2 ^ 32 := by
        simp [Command.fields] at hlen
        omega
      exact (parses_bufferTag hfork).bind (parses_lsnList hlist).bind_pure
  | applyLsnListXlog tag lsnList content =>
      have hlist : lsnList.length < 2 ^ 32 := by
        simp [Command.fields] at hlen
        omega
      exact (parses_bufferTag hfork).bind <|
        (parses_lsnList hlist).bind (parses_page content).bind_pure
  | extendRel tag content => exact (parses_bufferTag hfork).bind (parses_page content).bind_pure
  | applyXlogUntil lsn => exact (parses_int64 lsn).bind_pure
  | syncLsnReplay lsn => exact (parses_int64 lsn).bind_pure

/-! ## A command accounts for its message -/

lemma sized_byte : Sized 0 pqGetmsgbyte fun _ => 1 :=
  (sized_getInt 1).bind fun _ => sized_pure rfl

lemma sized_int : Sized 0 pqGetmsgint fun _ => 4 :=
  (sized_getInt 4).bind fun _ => sized_pure rfl

lemma sized_int64 : Sized 0 pqGetmsgint64 fun _ => 8 :=
  (sized_getInt 8).bind fun _ => sized_pure rfl

lemma sized_page : Sized 0 pqGetmsgpage fun _ => blcksz := by
  intro bs content rest h
  simp only [pqGetmsgpage] at h
  split at h
  case isTrue hle =>
    obtain ⟨-, rfl⟩ : _ ∧ bs.drop blcksz = rest := by simpa using h
    change 0 + bs.length = blcksz + (bs.drop blcksz).length
    rw [List.length_drop]
    omega
  case isFalse => cases h

lemma sized_relTag : Sized 0 getRelTag fun _ => 13 :=
  sized_byte.bind fun _ => sized_int.bind fun _ => sized_int.bind fun _ => sized_int.bind fun _ =>
    sized_pure rfl

lemma sized_bufferTag : Sized 0 getBufferTag fun _ => 17 :=
  sized_relTag.bind fun _ => sized_int.bind fun _ => sized_pure rfl

lemma sized_lsnList : Sized 0 getLsnList fun lsnList => 4 + 8 * lsnList.length := by
  refine sized_int.bind fun n bs lsnList rest h => ?_
  have hlen : 0 + bs.length = 8 * lsnList.length + rest.length :=
    sized_getMany sized_int64 n.toNat bs lsnList rest h
  omega

/-- Whatever the type byte, a command that is read takes up exactly its layout. -/
lemma sized_decode (qtype : UInt8) : Sized 0 (decode qtype) fun c => c.fields.length := by
  have hpage (content : BlockImage) : content.bytes.length = blcksz := content.length_bytes
  unfold decode
  split
  · exact sized_relTag.bind fun _ => sized_pure (by simp [Command.fields])
  · exact sized_relTag.bind fun _ => sized_pure (by simp [Command.fields])
  · exact sized_bufferTag.bind fun _ => sized_pure (by simp [Command.fields])
  · exact sized_bufferTag.bind fun _ => sized_int64.bind fun _ =>
      sized_pure (by simp [Command.fields])
  · exact sized_bufferTag.bind fun _ => sized_int64.bind fun _ => sized_page.bind fun _ =>
      sized_pure (by simp [Command.fields, hpage]; omega)
  · exact sized_bufferTag.bind fun _ => sized_lsnList.bind fun _ =>
      sized_pure (by simp [Command.fields])
  · exact sized_bufferTag.bind fun _ => sized_lsnList.bind fun _ => sized_page.bind fun _ =>
      sized_pure (by simp [Command.fields, hpage]; omega)
  · exact sized_bufferTag.bind fun _ => sized_page.bind fun _ =>
      sized_pure (by simp [Command.fields, hpage])
  · exact sized_int64.bind fun _ => sized_pure (by simp [Command.fields])
  · exact sized_int64.bind fun _ => sized_pure (by simp [Command.fields])
  · intro bs c rest h
    cases h

/-! ## A fork number that is read fits a byte -/

lemma yields_byte : Yields pqGetmsgbyte fun n => ByteFork n.toInt32 :=
  (yields_getInt 1).bind fun n hn => yields_pure <| by
    change n % 2 ^ 32 < 256
    omega

lemma yields_relTag : Yields getRelTag fun rel => ByteFork rel.forkNumber :=
  yields_byte.bind fun _ hfork => .skip fun _ => .skip fun _ => .skip fun _ => yields_pure hfork

lemma yields_bufferTag : Yields getBufferTag fun tag => ByteFork tag.forkNum :=
  yields_relTag.bind fun _ hfork => .skip fun _ => yields_pure hfork

/-- The fork number of a command that is read came from one byte. -/
lemma yields_decode (qtype : UInt8) : Yields (decode qtype) fun c => ByteFork c.forkNumber := by
  unfold decode
  split
  · exact yields_relTag.bind fun _ hfork => yields_pure hfork
  · exact yields_relTag.bind fun _ hfork => yields_pure hfork
  · exact yields_bufferTag.bind fun _ hfork => yields_pure hfork
  · exact yields_bufferTag.bind fun _ hfork => .skip fun _ => yields_pure hfork
  · exact yields_bufferTag.bind fun _ hfork => .skip fun _ => .skip fun _ => yields_pure hfork
  · exact yields_bufferTag.bind fun _ hfork => .skip fun _ => yields_pure hfork
  · exact yields_bufferTag.bind fun _ hfork => .skip fun _ => .skip fun _ => yields_pure hfork
  · exact yields_bufferTag.bind fun _ hfork => .skip fun _ => yields_pure hfork
  · exact .skip fun _ => yields_pure (show ByteFork 0 by decide)
  · exact .skip fun _ => yields_pure (show ByteFork 0 by decide)
  · intro bs c rest h
    cases h

/-! ## The senders of the storage server -/

/-- The requests of the storage server to a worker, with the arguments of their functions. -/
inductive ServerRequest
  | syncGetRelSize (rel : RelTag)
  | applyOneLsnWithoutBasePage (tag : BufferTag) (lsn : UInt64)
  | applyOneLsn (tag : BufferTag) (lsn : UInt64) (origPage : BlockImage)
  | applyLsnListAndGetUpdatedPage (tag : BufferTag) (lsnList : List UInt64)
  | applyLsnList (tag : BufferTag) (lsnList : List UInt64) (origPage : BlockImage)
  | walRedoExtendRel (tag : BufferTag) (content : BlockImage)
  | walRedoCreateRel (rel : RelTag)
  | getBasePage (tag : BufferTag)
  | getPageByLsn (tag : BufferTag) (lsn : UInt64)
  | syncReplayProcess
deriving DecidableEq

/-- Where a sender writes: to the pipe of its worker, or to a number that is no open descriptor. -/
inductive Descriptor
  | serverPipe
  | notOpen
deriving DecidableEq

/-- One send loop: the descriptor, the request buffer and `targetMsgLen`. -/
structure Send where
  fd : Descriptor
  requestBuffer : List UInt8
  targetMsgLen : ℤ

/-- The value of an `int32` after an overflow. -/
def int32 (n : ℤ) : ℤ := n.bmod (2 ^ 32)

/-- Type byte and length as a sender puts them at the front of its buffer. -/
def requestHeader (type : Char) (msgLen : ℕ) : List UInt8 :=
  [typeByte type] ++ bigEndian 4 msgLen

namespace ServerRequest

/-- The LSN up to which a versioned read asks to apply records: where there is a WAL receiver, its
flush position in place of the argument. -/
def untilLsn (flushedUpto : Option UInt64) (lsn : UInt64) : UInt64 := flushedUpto.getD lsn

/-- The send loops of a request.  `msgLen` is added up in an `int32`; the lengths of the messages of
fixed size are written out a second time for `targetMsgLen`. -/
def sends (flushedUpto : Option UInt64) : ServerRequest → List Send
  | syncGetRelSize rel =>
      [⟨.serverPipe, requestHeader 'M' (4 + 1 + 4 + 4 + 4) ++ relFields rel, 1 + 4 + 1 + 4 + 4 + 4⟩]
  | applyOneLsnWithoutBasePage tag lsn =>
      [⟨.serverPipe,
        requestHeader 'E' (4 + 1 + 4 + 4 + 4 + 4 + 8) ++ (tagFields tag ++ lsnField lsn),
        1 + 4 + 1 + 4 + 4 + 4 + 4 + 8⟩]
  | applyOneLsn tag lsn origPage =>
      [⟨.serverPipe,
        requestHeader 'D' (4 + 1 + 4 + 4 + 4 + 4 + 8 + blcksz) ++
          (tagFields tag ++ (lsnField lsn ++ origPage.bytes)),
        1 + 4 + 1 + 4 + 4 + 4 + 4 + 8 + blcksz⟩]
  | applyLsnListAndGetUpdatedPage tag lsnList =>
      let msgLen := 4 + 1 + 4 + 4 + 4 + 4 + 4 + 8 * lsnList.length
      [⟨.serverPipe, requestHeader 'o' msgLen ++ (tagFields tag ++ lsnListFields lsnList),
        int32 (1 + int32 msgLen)⟩]
  | applyLsnList tag lsnList origPage =>
      let msgLen := 4 + 1 + 4 + 4 + 4 + 4 + 4 + 8 * lsnList.length + blcksz
      [⟨.serverPipe,
        requestHeader 'O' msgLen ++ (tagFields tag ++ (lsnListFields lsnList ++ origPage.bytes)),
        int32 (1 + int32 msgLen)⟩]
  | walRedoExtendRel tag content =>
      let msgLen := 4 + 1 + 4 + 4 + 4 + 4 + blcksz
      [⟨.serverPipe, requestHeader 'F' msgLen ++ (tagFields tag ++ content.bytes),
        int32 (1 + int32 msgLen)⟩]
  | walRedoCreateRel rel =>
      [⟨.serverPipe, requestHeader 'C' (4 + 1 + 4 + 4 + 4) ++ relFields rel, 1 + 4 + 1 + 4 + 4 + 4⟩]
  | getBasePage tag =>
      [⟨.serverPipe, requestHeader 'G' (4 + 1 + 4 + 4 + 4 + 4) ++ tagFields tag,
        1 + 4 + 1 + 4 + 4 + 4 + 4⟩]
  | getPageByLsn tag lsn =>
      [⟨.serverPipe, requestHeader 'U' (4 + 8) ++ lsnField (untilLsn flushedUpto lsn), 1 + 4 + 8⟩,
       ⟨.serverPipe, requestHeader 'G' (4 + 1 + 4 + 4 + 4 + 4) ++ tagFields tag,
        1 + 4 + 1 + 4 + 4 + 4 + 4⟩]
  | syncReplayProcess =>
      -- `serverPipe[1]` is a pointer to the descriptors of the second worker, not a descriptor; the
      -- second message gets an LSN whose bytes were swapped twice
      [⟨.notOpen, requestHeader 'U' (4 + 8) ++ lsnField (untilLsn flushedUpto 0), 1 + 4 + 8⟩,
       ⟨.notOpen, requestHeader 'S' (4 + 8) ++ (lsnField (untilLsn flushedUpto 0)).reverse,
        1 + 4 + 8⟩]

/-- The commands a request stands for. -/
def commands (flushedUpto : Option UInt64) : ServerRequest → List Command
  | syncGetRelSize rel => [.getRelSize rel]
  | applyOneLsnWithoutBasePage tag lsn => [.applyOneXlogWithoutBasePage tag lsn]
  | applyOneLsn tag lsn origPage => [.applyOneXlog tag lsn origPage]
  | applyLsnListAndGetUpdatedPage tag lsnList => [.applyLsnListXlogWithoutBasePage tag lsnList]
  | applyLsnList tag lsnList origPage => [.applyLsnListXlog tag lsnList origPage]
  | walRedoExtendRel tag content => [.extendRel tag content]
  | walRedoCreateRel rel => [.createRel rel]
  | getBasePage tag => [.getPage tag]
  | getPageByLsn tag lsn => [.applyXlogUntil (untilLsn flushedUpto lsn), .getPage tag]
  | syncReplayProcess =>
      [.applyXlogUntil (untilLsn flushedUpto 0), .syncLsnReplay (untilLsn flushedUpto 0)]

/-- The number of bytes a request reads as its reply. -/
def replySize : ServerRequest → ℕ
  | syncGetRelSize _ => 4
  | walRedoExtendRel _ _ => 4
  | walRedoCreateRel _ => 4
  | syncReplayProcess => 2
  | _ => blcksz

/-- The longest message the worker makes room for is shorter than `MaxAllocSize`. -/
def maxAllocSize : ℕ := 0x3fffffff

/-- Requests that can be sent as they are: not a synchronisation, with a fork number that fits a
byte, and with a list of LSNs for which the worker can make room. -/
def Sendable : ServerRequest → Prop
  | syncGetRelSize rel => ByteFork rel.forkNumber
  | applyOneLsnWithoutBasePage tag _ => ByteFork tag.forkNum
  | applyOneLsn tag _ _ => ByteFork tag.forkNum
  | applyLsnListAndGetUpdatedPage tag lsnList =>
      ByteFork tag.forkNum ∧ 21 + 8 * lsnList.length < maxAllocSize
  | applyLsnList tag lsnList _ =>
      ByteFork tag.forkNum ∧ 21 + 8 * lsnList.length + blcksz < maxAllocSize
  | walRedoExtendRel tag _ => ByteFork tag.forkNum
  | walRedoCreateRel rel => ByteFork rel.forkNumber
  | getBasePage tag => ByteFork tag.forkNum
  | getPageByLsn tag _ => ByteFork tag.forkNum
  | syncReplayProcess => False

end ServerRequest

/-- A command whose message is received as it is. -/
def Command.Fits (c : Command) : Prop :=
  ByteFork c.forkNumber ∧ c.fields.length < ServerRequest.maxAllocSize

lemma int32_of_lt {n : ℕ} (h : n < 2 ^ 31) : int32 n = n := by
  apply Int.bmod_eq_of_le <;> omega

/-- The send loop of a command. -/
def Command.send (c : Command) : Send :=
  ⟨.serverPipe, c.message, c.message.length⟩

namespace ServerRequest

variable {flushedUpto : Option UInt64} {r : ServerRequest}

/-- Where a message is short enough, the length a sender adds up is the length of its buffer. -/
lemma send_list_eq {c : Command} {msgLen : ℕ} (hlen : 4 + c.fields.length = msgLen)
    (hmax : c.fields.length < maxAllocSize) :
    Send.mk .serverPipe (requestHeader c.type msgLen ++ c.fields) (int32 (1 + int32 msgLen))
      = c.send := by
  have hmsg : msgLen < 2 ^ 31 := by
    simp only [maxAllocSize] at hmax
    omega
  have htarget : (1 : ℤ) + (msgLen : ℤ) = ((1 + msgLen : ℕ) : ℤ) := by simp
  have hsize : 1 + msgLen < 2 ^ 31 := by
    simp only [maxAllocSize] at hmax
    omega
  rw [int32_of_lt hmsg, htarget, int32_of_lt hsize]
  subst hlen
  simp [Command.send, Command.message, requestHeader]
  omega

/-- **The senders use the layout**: a request that can be sent writes the messages of its commands
to its worker. -/
lemma sends_eq (h : r.Sendable) :
    r.sends flushedUpto = (r.commands flushedUpto).map Command.send := by
  have hpage (content : BlockImage) : content.bytes.length = blcksz := content.length_bytes
  cases r with
  | applyLsnListAndGetUpdatedPage tag lsnList =>
      obtain ⟨-, hmax⟩ := h
      refine congrArg (fun s => [s])
        (send_list_eq (c := .applyLsnListXlogWithoutBasePage tag lsnList) ?_ ?_)
      · simp [Command.fields]
        omega
      · simp [Command.fields]
        omega
  | applyLsnList tag lsnList origPage =>
      obtain ⟨-, hmax⟩ := h
      refine congrArg (fun s => [s])
        (send_list_eq (c := .applyLsnListXlog tag lsnList origPage) ?_ ?_)
      · simp [Command.fields, hpage]
        omega
      · simp [Command.fields, hpage]
        omega
  | walRedoExtendRel tag content =>
      refine congrArg (fun s => [s]) (send_list_eq (c := .extendRel tag content) ?_ ?_)
      · simp [Command.fields, hpage]
        omega
      · simp [Command.fields, hpage, maxAllocSize, blcksz]
  | syncReplayProcess => exact h.elim
  | _ =>
      simp [sends, commands, Command.send, Command.message, Command.fields, Command.type,
        requestHeader, hpage, blcksz]

/-- **A request that is no synchronisation can be sent** just if its commands are received as they
are. -/
lemma sendable_iff_fits (flushedUpto : Option UInt64) (hsync : r ≠ .syncReplayProcess) :
    r.Sendable ↔ ∀ c ∈ r.commands flushedUpto, c.Fits := by
  have hpage (content : BlockImage) : content.bytes.length = blcksz := content.length_bytes
  have hnone : ByteFork 0 := by decide
  cases r with
  | syncReplayProcess => exact absurd rfl hsync
  | applyLsnListAndGetUpdatedPage tag lsnList =>
      simp only [Sendable, commands, List.forall_mem_singleton, Command.Fits, Command.forkNumber]
      refine and_congr_right fun _ => ?_
      simp [Command.fields]
      omega
  | applyLsnList tag lsnList origPage =>
      simp only [Sendable, commands, List.forall_mem_singleton, Command.Fits, Command.forkNumber]
      refine and_congr_right fun _ => ?_
      simp [Command.fields, hpage]
      omega
  | _ =>
      simp [Sendable, commands, Command.Fits, Command.forkNumber, Command.fields, hpage, hnone,
        maxAllocSize, blcksz]

end ServerRequest

end GroundDB
