import Mathlib.Algebra.Group.Nat.Defs
import Mathlib.Data.Nat.Basic

/-!
# Pages, segments and ring slots

WAL positions are byte addresses.  They are divided into pages of `XLOG_BLCKSZ` bytes and into
segments, which are files; a ring of page buffers keeps the page at a position in the slot
`XLogRecPtrToBufIdx` gives.  The storage node keeps such a ring of the pages it received last, with
the end position of the page in each slot.
-/

namespace GroundDB

/-- `XLOG_BLCKSZ`; `BLCKSZ` has the same value. -/
def xlogBlcksz : ℕ := 8192

/-! ## Segments -/

/-- `wal_segment_size`: a power of two from 1 MB to 1 GB. -/
structure WalSegSize where
  log : ℕ
  ge : 20 ≤ log
  le : log ≤ 30

namespace WalSegSize

variable (z : WalSegSize)

def size : ℕ := 2 ^ z.log

/-- `XLByteToSeg`. -/
def segNo (p : ℕ) : ℕ := p / z.size

/-- `XLogSegmentOffset`. -/
def offset (p : ℕ) : ℕ := p % z.size

lemma size_pos : 0 < z.size := Nat.two_pow_pos _

lemma size_le : z.size ≤ 2 ^ 30 := Nat.pow_le_pow_right (by decide) z.le

lemma blcksz_dvd : xlogBlcksz ∣ z.size :=
  Nat.pow_dvd_pow (m := 13) 2 (by have := z.ge; omega)

lemma offset_lt (p : ℕ) : z.offset p < z.size := Nat.mod_lt _ z.size_pos

lemma segNo_mul_add_offset (p : ℕ) : z.segNo p * z.size + z.offset p = p :=
  Nat.div_add_mod' p z.size

lemma segNo_of_offset_add_le {p k : ℕ} (hpos : 0 < k) (hle : z.offset p + k ≤ z.size) :
    (p + k - 1) / z.size = z.segNo p := by
  have hp := z.segNo_mul_add_offset p
  refine Nat.div_eq_of_lt_le ?_ ?_
  · omega
  · rw [Nat.add_mul]
    omega

lemma offset_add_of_lt {p k : ℕ} (hlt : z.offset p + k < z.size) :
    z.offset (p + k) = z.offset p + k := by
  unfold offset at hlt ⊢
  rw [Nat.add_mod, Nat.mod_eq_of_lt (show k < z.size by omega), Nat.mod_eq_of_lt hlt]

lemma offset_add_blcksz_le {p : ℕ} (hal : xlogBlcksz ∣ p) : z.offset p + xlogBlcksz ≤ z.size := by
  obtain ⟨a, ha⟩ := (Nat.dvd_mod_iff z.blcksz_dvd).mpr hal
  obtain ⟨b, hb⟩ := z.blcksz_dvd
  have hlt := z.offset_lt p
  unfold offset at hlt ⊢
  rw [ha, hb] at hlt ⊢
  have : a < b := Nat.lt_of_mul_lt_mul_left hlt
  calc xlogBlcksz * a + xlogBlcksz = xlogBlcksz * (a + 1) := by rw [Nat.mul_add, Nat.mul_one]
    _ ≤ xlogBlcksz * b := Nat.mul_le_mul_left _ this

end WalSegSize

/-! ## The ring -/

/-- The bytes of a page. -/
abbrev PageBytes := Fin xlogBlcksz → UInt8

/-- `RpcXLogPages` and `RpcXlblocks` on the storage node, with `XLOGbuffers` slots. -/
structure RpcRing where
  xlogBuffers : ℕ
  pages : ℕ → UInt8
  xlblocks : ℕ → ℕ

/-- `XLogRecPtrToBufIdx`. -/
def bufIdx (xlogBuffers p : ℕ) : ℕ := p / xlogBlcksz % xlogBuffers

section BufIdx

variable {xlogBuffers p q i : ℕ}

lemma bufIdx_lt (hn : 0 < xlogBuffers) (p : ℕ) : bufIdx xlogBuffers p < xlogBuffers :=
  Nat.mod_lt _ hn

@[simp] lemma bufIdx_pageStart (xlogBuffers p : ℕ) :
    bufIdx xlogBuffers (p / xlogBlcksz * xlogBlcksz) = bufIdx xlogBuffers p := by
  rw [bufIdx, Nat.mul_div_cancel _ (by decide : 0 < xlogBlcksz), bufIdx]

lemma bufIdx_add (hlt : bufIdx xlogBuffers p + i < xlogBuffers) :
    bufIdx xlogBuffers (p + i * xlogBlcksz) = bufIdx xlogBuffers p + i := by
  unfold bufIdx at hlt ⊢
  rw [Nat.add_mul_div_right _ _ (by decide : 0 < xlogBlcksz), Nat.add_mod,
    Nat.mod_eq_of_lt (show i < xlogBuffers by omega), Nat.mod_eq_of_lt hlt]

lemma eq_of_bufIdx_eq (hp : xlogBlcksz ∣ p) (hq : xlogBlcksz ∣ q)
    (hidx : bufIdx xlogBuffers q = bufIdx xlogBuffers p) (hle : p ≤ q)
    (hlt : q < p + xlogBuffers * xlogBlcksz) : q = p := by
  obtain ⟨a, rfl⟩ := hp
  obtain ⟨b, rfl⟩ := hq
  unfold bufIdx at hidx
  rw [Nat.mul_div_cancel_left _ (by decide), Nat.mul_div_cancel_left _ (by decide)] at hidx
  have hab : a ≤ b := Nat.le_of_mul_le_mul_left hle (by decide)
  have hba : b - a < xlogBuffers := by
    rw [Nat.mul_comm xlogBuffers, ← Nat.mul_add] at hlt
    have := Nat.lt_of_mul_lt_mul_left hlt
    omega
  have hmod : (b - a) % xlogBuffers = 0 := Nat.sub_mod_eq_zero_of_mod_eq hidx
  rw [Nat.mod_eq_of_lt hba] at hmod
  rw [show b = a by omega]

end BufIdx

/-- The page at `targetPagePtr`, if the ring has it. -/
def RpcRing.lookup (ring : RpcRing) (targetPagePtr : ℕ) : Option PageBytes :=
  let bufferIdx := bufIdx ring.xlogBuffers targetPagePtr
  if ring.xlblocks bufferIdx = targetPagePtr + xlogBlcksz then
    some fun i => ring.pages (xlogBlcksz * bufferIdx + i.val)
  else none

lemma RpcRing.lookup_of_tag {ring : RpcRing} {targetPagePtr : ℕ}
    (h : ring.xlblocks (bufIdx ring.xlogBuffers targetPagePtr) = targetPagePtr + xlogBlcksz) :
    ring.lookup targetPagePtr = some fun i =>
      ring.pages (xlogBlcksz * bufIdx ring.xlogBuffers targetPagePtr + i.val) :=
  if_pos h

end GroundDB
