import GroundDB.Lib.Memory
import GroundDB.HashMap.Types

/-!
# Synchronising the page-id table

A compute node learns which pages the memory pool holds by asking for the page ids of a page array,
from an offset on (`sync_pat_handler`).  The handler copies up to 4096 ids into a reply whose array
has room for 256.

* `syncPatHandler_eq`: the loop stores one piece of the ids.
* `received_eq`: a client that asks for the ids from 0, 256, 512, … gets all of them in order.
* `sync_pat_exact_iff`: the handler stays inside the reply's array just if no more than 256 ids are
  left from the offset on.
-/

namespace GroundDB

open Memory

/-- The ids of a page array: `pida_buf` and `size`. -/
structure PageIds where
  size : UInt64
  pida : ℕ → KeyType

/-- The length of the reply's `page_id_array`. -/
def pageIdArrayLength : ℕ := 256

/-- The loop of `sync_pat_handler` from `i` on, with `turns` turns left.  `pa_ofs + i` is a
`size_t`. -/
def syncLoop (ids : PageIds) (paOfs : UInt64) (pageIdArray : ℤ) :
    (turns i : ℕ) → (ℤ → KeyType) → (ℤ → KeyType)
  | 0, _, mem => mem
  | turns + 1, i, mem =>
      if paOfs + UInt64.ofNat i < ids.size then
        syncLoop ids paOfs pageIdArray turns (i + 1)
          (write mem (pageIdArray + i) [ids.pida (paOfs + UInt64.ofNat i).toNat])
      else mem

/-- `sync_pat_handler`, on the reply whose array is at `page_id_array`. -/
def syncPatHandler (ids : PageIds) (paOfs : UInt64) (pageIdArray : ℤ) (mem : ℤ → KeyType) :
    ℤ → KeyType :=
  syncLoop ids paOfs pageIdArray 4096 0 mem

/-- What a client receives that asks `requests` times, from the request `k` on, advancing by the
length of the reply's array.  The replies are built in message slots of the server and read off as
far as there are ids. -/
def received (ids : PageIds) (slot : ℕ → ℤ) : (requests k : ℕ) → (ℤ → KeyType) → List KeyType
  | 0, _, _ => []
  | requests + 1, k, mem =>
      let paOfs := pageIdArrayLength * k
      let mem := syncPatHandler ids (UInt64.ofNat paOfs) (slot k) mem
      slice mem (slot k) (min pageIdArrayLength (ids.size.toNat - paOfs)) ++
        received ids slot requests (k + 1) mem

section Handler

variable (ids : PageIds) (paOfs : UInt64) (pageIdArray : ℤ) (mem : ℤ → KeyType)

lemma toNat_index {i : ℕ} (hi : i ≤ ids.size.toNat - paOfs.toNat) :
    (paOfs + UInt64.ofNat i).toNat = paOfs.toNat + i := by
  have hsize := ids.size.toNat_lt
  have hofs := paOfs.toNat_lt
  have hi' : (UInt64.ofNat i).toNat = i := UInt64.toNat_ofNat_of_lt' (by
    rw [UInt64.size]
    omega)
  rw [UInt64.toNat_add, hi']
  omega

/-- The ids stored in `i` turns grow to those that are left, or by one in each turn. -/
lemma syncLoop_eq (turns : ℕ) {i : ℕ} (hi : i ≤ ids.size.toNat - paOfs.toNat) :
    syncLoop ids paOfs pageIdArray turns i (write mem pageIdArray (piece ids.pida paOfs.toNat i)) =
      write mem pageIdArray
        (piece ids.pida paOfs.toNat (min (i + turns) (ids.size.toNat - paOfs.toNat))) := by
  induction turns generalizing i with
  | zero => simp [syncLoop, hi]
  | succ turns ih =>
      have hindex := toNat_index ids paOfs hi
      rw [syncLoop]
      by_cases hlt : paOfs + UInt64.ofNat i < ids.size
      · rw [if_pos hlt]
        rw [UInt64.lt_iff_toNat_lt, hindex] at hlt
        have hcell := write_write mem pageIdArray (piece ids.pida paOfs.toNat i)
          [ids.pida (paOfs.toNat + i)]
        rw [length_piece] at hcell
        have hnext : piece ids.pida paOfs.toNat i ++ [ids.pida (paOfs.toNat + i)] =
            piece ids.pida paOfs.toNat (i + 1) := by
          rw [piece_add]
          rfl
        rw [hindex, hcell, hnext, ih (by omega), Nat.add_right_comm, Nat.add_assoc]
      · rw [if_neg hlt]
        rw [UInt64.lt_iff_toNat_lt, hindex] at hlt
        rw [show min (i + (turns + 1)) (ids.size.toNat - paOfs.toNat) = i by omega]

/-- **The handler stores one piece of the ids**: those from the offset on, up to 4096. -/
lemma syncPatHandler_eq : syncPatHandler ids paOfs pageIdArray mem = write mem pageIdArray
    (piece ids.pida paOfs.toNat (min 4096 (ids.size.toNat - paOfs.toNat))) := by
  have hloop := syncLoop_eq ids paOfs pageIdArray mem 4096 (Nat.zero_le _)
  rwa [show piece ids.pida paOfs.toNat 0 = [] from rfl, write_nil, Nat.zero_add] at hloop

/-- The handler stays inside the reply's array, whatever the ids are and whatever stands behind it,
just if the ids that are left fit. -/
lemma syncPatHandler_inside_iff (size paOfs : UInt64) (pageIdArray : ℤ) :
    (∀ pida mem, SameOutside pageIdArray pageIdArrayLength mem
      (syncPatHandler ⟨size, pida⟩ paOfs pageIdArray mem)) ↔
    size.toNat ≤ paOfs.toNat + pageIdArrayLength := by
  constructor
  · intro h
    have hfits := h (fun _ => ⟨1, 1, 1, 1, 1⟩) fun _ => ⟨0, 0, 0, 0, 0⟩
    rw [syncPatHandler_eq] at hfits
    have hle : min 4096 (size.toNat - paOfs.toNat) ≤ pageIdArrayLength :=
      length_le_of_sameOutside (by decide) hfits
    unfold pageIdArrayLength at hle ⊢
    omega
  · intro h pida mem
    rw [syncPatHandler_eq]
    unfold pageIdArrayLength at h ⊢
    exact SameOutside.refl.write (by rw [length_piece]; dsimp only; omega)

end Handler

section Client

variable (ids : PageIds) (slot : ℕ → ℤ)

/-- The first ids of a reply are the ones asked for. -/
lemma slice_syncPatHandler (paOfs : UInt64) (pageIdArray : ℤ) (mem : ℤ → KeyType) :
    slice (syncPatHandler ids paOfs pageIdArray mem) pageIdArray
        (min pageIdArrayLength (ids.size.toNat - paOfs.toNat)) =
      piece ids.pida paOfs.toNat (min pageIdArrayLength (ids.size.toNat - paOfs.toNat)) := by
  rw [syncPatHandler_eq]
  apply slice_write_piece
  unfold pageIdArrayLength
  omega

/-- **What a client receives**: with enough requests, each id that is left, once and in order. -/
lemma received_eq {requests k : ℕ} (mem : ℤ → KeyType)
    (henough : ids.size.toNat ≤ pageIdArrayLength * (k + requests)) :
    received ids slot requests k mem = piece ids.pida (pageIdArrayLength * k)
      (ids.size.toNat - pageIdArrayLength * k) := by
  induction requests generalizing k mem with
  | zero =>
      rw [Nat.add_zero] at henough
      rw [received, Nat.sub_eq_zero_of_le henough]
      rfl
  | succ requests ih =>
      rw [received, ih _ (by rwa [Nat.add_right_comm, Nat.add_assoc])]
      by_cases hlt : pageIdArrayLength * k < ids.size.toNat
      · have hofs : (UInt64.ofNat (pageIdArrayLength * k)).toNat = pageIdArrayLength * k :=
          UInt64.toNat_ofNat_of_lt' (hlt.trans ids.size.toNat_lt)
        have hslice := slice_syncPatHandler ids (UInt64.ofNat (pageIdArrayLength * k)) (slot k) mem
        rw [hofs] at hslice
        rw [hslice, Nat.mul_succ, ← Nat.sub_sub]
        exact piece_min_append ids.pida _ _ _
      · -- past the end nothing is taken from the reply
        have hnone : ids.size.toNat - pageIdArrayLength * k = 0 := by omega
        have hnone' : ids.size.toNat - pageIdArrayLength * (k + 1) = 0 := by
          rw [Nat.mul_succ]
          omega
        rw [hnone, hnone', Nat.min_zero]
        rfl

/-- The requests of a client that asks for all ids. -/
def syncRequests (size : UInt64) : ℕ := (size.toNat + 255) / pageIdArrayLength

/-- **Synchronising the page-id table.**  The handler stays inside the reply's array, and a client
receives every id once and in order, for all ids and memories just if at most 256 ids are left from
the offset of the request on. -/
theorem sync_pat_exact_iff (size paOfs : UInt64) (pageIdArray : ℤ) (slot : ℕ → ℤ) :
    ((∀ pida mem, SameOutside pageIdArray pageIdArrayLength mem
        (syncPatHandler ⟨size, pida⟩ paOfs pageIdArray mem)) ∧
      ∀ pida mem, received ⟨size, pida⟩ slot (syncRequests size) 0 mem =
        piece pida 0 size.toNat) ↔
    size.toNat ≤ paOfs.toNat + pageIdArrayLength := by
  rw [syncPatHandler_inside_iff]
  refine and_iff_left fun pida mem => ?_
  have henough : size.toNat ≤ pageIdArrayLength * (0 + syncRequests size) := by
    unfold syncRequests pageIdArrayLength
    omega
  simpa using received_eq ⟨size, pida⟩ slot mem henough

/-- The first request for the array the server allocates, of `1 << 15` pages, writes behind the
reply's array: the cell behind it gets the id of page 256. -/
theorem first_request_overruns :
    let ids : PageIds := ⟨32768, fun i => ⟨1, 1, 1, 0, Int64.ofNat i⟩⟩
    syncPatHandler ids 0 0 (fun _ => ⟨0, 0, 0, 0, -1⟩) pageIdArrayLength = ⟨1, 1, 1, 0, 256⟩ := by
  intro ids
  have hcount : min 4096 (ids.size.toNat - UInt64.toNat 0) = 4096 := by decide
  have hcell := write_piece (fun _ => ⟨0, 0, 0, 0, -1⟩) 0 ids.pida 0 (show 256 < 4096 by decide)
  rw [zero_add, zero_add] at hcell
  rw [syncPatHandler_eq, hcount]
  exact hcell

end Client

end GroundDB
