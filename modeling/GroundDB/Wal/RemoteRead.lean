import GroundDB.Lib.Memory

/-!
# Positioned reads over the RPC

A compute node reads WAL segments that lie on the storage node.  `pg_pread_rpc_local` calls `pread`
or, on a compute node, `RpcPgPRead`, whose server half reads into a fresh buffer, ignores the
result, and sends back as many bytes as were asked for.

So the remote read always reports a full read.  `remote_read_eq_local_iff` says that it is what a
local read would be just if the local one is full; `remote_read_past_end` shows what else is sent,
the bytes that `malloc` left in the buffer.
-/

namespace GroundDB

open Memory

/-- A regular file on the storage node that is open for reading: its content, the position of the
descriptor, and whether reads of it fail. -/
structure StorageFile where
  content : List UInt8
  pos : ℕ
  fails : Bool
deriving Repr

/-- The most that one `read` or `pread` transfers on Linux. -/
def maxRwCount : ℕ := 0x7ffff000

/-- Read up to `count` bytes from `offset` on.  Nothing is returned if the read fails. -/
def StorageFile.readAt (file : StorageFile) (count offset : ℕ) : Option (List UInt8) :=
  if file.fails then none else some ((file.content.drop offset).take (min count maxRwCount))

/-- `pread`, which refuses negative offsets and counts that are negative as `ssize_t`. -/
def StorageFile.pread (file : StorageFile) (amount : Int32) (offset : Int64) :
    Option (List UInt8) :=
  if amount.toInt < 0 ∨ offset.toInt < 0 then none
  else file.readAt amount.toInt.toNat offset.toInt.toNat

/-- `read`, from the position of the descriptor on. -/
def StorageFile.read (file : StorageFile) (amount : Int32) : Option (List UInt8) :=
  if amount.toInt < 0 then none else file.readAt amount.toInt.toNat file.pos

/-- The return value of a read and the reader's memory. -/
def readInto (bytes : Option (List UInt8)) (p : ℤ) (mem : ℤ → UInt8) : ℤ × (ℤ → UInt8) :=
  match bytes with
  | none => (-1, mem)
  | some bs => (bs.length, write mem p bs)

/-- The server's buffer after its read, whose result is ignored.  `malloced` is what `malloc` left
in it; the offset `-1` stands for `read`. -/
def serverBuffer (file : StorageFile) (segBytes : Int32) (startOff : Int64)
    (malloced : ℤ → UInt8) : ℤ → UInt8 :=
  (readInto (if startOff = -1 then file.read segBytes else file.pread segBytes startOff) 0
    malloced).2

/-- The server's `RpcPgPRead`: the string it returns, if it returns.  Where `_seg_bytes+64`
overflows there is no buffer, and a negative length is refused by `assign`. -/
def serverRpcPgPRead (file : StorageFile) (segBytes : Int32) (startOff : Int64)
    (malloced : ℤ → UInt8) : Option (List UInt8) :=
  if segBytes.toInt < 0 ∨ segBytes + 64 < 0 then none
  else some (slice (serverBuffer file segBytes startOff malloced) 0 segBytes.toInt.toNat)

/-- The client's `RpcPgPRead`: it copies the string to `p` and returns its length. -/
def rpcPgPRead (file : StorageFile) (p : ℤ) (amount offset : Int32) (malloced mem : ℤ → UInt8) :
    Option (ℤ × (ℤ → UInt8)) :=
  (serverRpcPgPRead file amount offset.toInt64 malloced).map fun bs => readInto (some bs) p mem

/-- `pg_pread_rpc_local`. -/
def pgPreadRpcLocal (isRpcClient : Bool) (file : StorageFile) (p : ℤ) (amount offset : Int32)
    (malloced mem : ℤ → UInt8) : Option (ℤ × (ℤ → UInt8)) :=
  if isRpcClient then rpcPgPRead file p amount offset malloced mem
  else some (readInto (file.pread amount offset.toInt64) p mem)

section Read

variable (file : StorageFile) (p : ℤ) (amount offset : Int32) (malloced mem : ℤ → UInt8)

/-- A read of the whole amount. -/
def StorageFile.FullRead : Prop :=
  0 ≤ amount.toInt ∧ amount.toInt ≤ 0x7ffff000 ∧ 0 ≤ offset.toInt ∧ file.fails = false ∧
    (amount.toInt = 0 ∨ offset.toInt + amount.toInt ≤ file.content.length)

/-- Just these are the reads for which `pread` returns the amount. -/
lemma fullRead_iff : file.FullRead amount offset ↔
    ∃ bs, file.pread amount offset.toInt64 = some bs ∧ (bs.length : ℤ) = amount.toInt := by
  rw [StorageFile.FullRead, StorageFile.pread, Int32.toInt_toInt64, StorageFile.readAt, maxRwCount]
  by_cases hneg : amount.toInt < 0 ∨ offset.toInt < 0
  · rw [if_pos hneg]
    simp only [reduceCtorEq, false_and, exists_false, iff_false]
    omega
  rw [if_neg hneg]
  cases file.fails with
  | true => simp
  | false =>
      simp only [Bool.false_eq_true, if_false, Option.some.injEq, exists_eq_left', List.length_take,
        List.length_drop, true_and]
      omega

lemma rpcPgPRead_fst {result : ℤ × (ℤ → UInt8)}
    (h : rpcPgPRead file p amount offset malloced mem = some result) :
    0 ≤ amount.toInt ∧ result.1 = amount.toInt := by
  rw [rpcPgPRead, serverRpcPgPRead] at h
  split_ifs at h with hneg
  · cases h
  · rw [← Option.some.inj h]
    simp only [readInto, length_slice]
    omega

lemma mallocSize_nonneg (h : 0 ≤ amount.toInt) (hle : amount.toInt ≤ 0x7ffff000) :
    ¬ (amount.toInt < 0 ∨ amount + 64 < 0) := by
  have h64 : (64 : Int32).toInt = 64 := rfl
  rw [Int32.lt_iff_toInt_lt, Int32.toInt_add, h64, Int.bmod_eq_of_le (by omega) (by omega),
    Int32.toInt_zero]
  omega

lemma serverRpcPgPRead_full {bs : List UInt8} (h : file.FullRead amount offset)
    (hread : file.pread amount offset.toInt64 = some bs) (hlen : (bs.length : ℤ) = amount.toInt) :
    serverRpcPgPRead file amount offset.toInt64 malloced = some bs := by
  obtain ⟨hamount, hmax, hoffset, -, -⟩ := h
  have hposition : offset.toInt64 ≠ -1 := by
    intro heq
    have hneg : offset.toInt64.toInt = -1 := congrArg Int64.toInt heq
    rw [Int32.toInt_toInt64] at hneg
    omega
  rw [serverRpcPgPRead, if_neg (mallocSize_nonneg amount hamount hmax), serverBuffer,
    if_neg hposition, hread, ← hlen, Int.toNat_natCast]
  exact congrArg some (slice_write malloced 0 bs)

/-- The client's read gives what `pread` on the storage node gives just if that is a full read. -/
lemma rpcPgPRead_eq_pread_iff :
    rpcPgPRead file p amount offset malloced mem =
      some (readInto (file.pread amount offset.toInt64) p mem) ↔
    file.FullRead amount offset := by
  constructor
  · intro h
    have hfst := rpcPgPRead_fst file p amount offset malloced mem h
    rw [fullRead_iff]
    cases hread : file.pread amount offset.toInt64 with
    | none =>
        rw [hread] at hfst
        simp only [readInto] at hfst
        omega
    | some bs =>
        rw [hread] at hfst
        exact ⟨bs, rfl, hfst.2⟩
  · intro h
    obtain ⟨bs, hread, hlen⟩ := (fullRead_iff file amount offset).mp h
    rw [rpcPgPRead, serverRpcPgPRead_full file amount offset malloced h hread hlen, hread]
    rfl

/-- **A remote read is a local read**, in its return value and in the bytes it stores, just if the
local one returns the whole amount: the amount and the offset are not negative, the amount can be
transferred in one call, the file can be read, and the bytes are all before its end. -/
theorem remote_read_eq_local_iff :
    pgPreadRpcLocal true file p amount offset malloced mem =
      pgPreadRpcLocal false file p amount offset malloced mem ↔
    file.FullRead amount offset :=
  rpcPgPRead_eq_pread_iff file p amount offset malloced mem

/-- Eight bytes asked for behind the end of an empty file: locally the read returns 0, remotely 8
with what `malloc` left in the server's buffer. -/
theorem remote_read_past_end :
    let file : StorageFile := ⟨[], 0, false⟩
    (readInto (file.pread 8 0) 0 fun _ => 1).1 = 0 ∧
      (rpcPgPRead file 0 8 0 (fun _ => 7) fun _ => 1).map (fun r => (r.1, r.2 0, r.2 7)) =
        some (8, 7, 7) := by
  decide

end Read

end GroundDB
