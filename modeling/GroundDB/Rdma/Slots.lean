import GroundDB.Lib.OrderedMap
import GroundDB.Lib.Run
import Mathlib.Algebra.Group.Int.Defs
import Mathlib.Algebra.Group.Nat.Defs
import Mathlib.Data.Int.Basic

/-!
# Slots of registered memory

The RDMA manager hands out chunks of memory that is registered with the card.  Memory is registered
region by region; a pool keeps, by address, one array of free chunk indices for each of its regions.
An allocation searches the regions of the pool in the order of their addresses and registers another
region when all are full.  A free finds the region of an address as the last one that does not start
above it.

In every run of allocations, frees and registrations, of any pools, the slots in use are exactly
those that were handed out and not given back, and no two of them overlap (`rdma_slot_allocator`).
What registration has to provide is memory apart from all regions before.
-/

namespace GroundDB

/-! ## The manager -/

/-- Conversion of a `size_t` to `int`. -/
def toInt (n : ℕ) : ℤ := (n : ℤ).bmod (2 ^ 32)

/-- Conversion of an `int` to `size_t`. -/
def sizeT (i : ℤ) : ℕ := (i % 2 ^ 64).toNat

/-- A registered range of memory with its keys. -/
structure IbvMr where
  addr : ℕ
  length : ℕ
  lkey : ℕ
  rkey : ℕ
deriving DecidableEq, Repr

/-- The range of one chunk of a region. -/
def slotOf (mr : IbvMr) (blockIndex : ℤ) (chunkSize : ℕ) : IbvMr :=
  { mr with addr := mr.addr + sizeT blockIndex * chunkSize, length := chunkSize }

/-- `In_Use_Array`. -/
structure InUseArray where
  elementSize : ℕ
  chunkSize : ℕ
  mrOri : IbvMr
  freeList : List ℤ
  usedUp : Bool

namespace InUseArray

/-- All slots are free. -/
def init (size chunkSize : ℕ) (mrOri : IbvMr) : InUseArray where
  elementSize := size
  chunkSize := chunkSize
  mrOri := mrOri
  freeList := (List.range size).map toInt
  usedUp := false

/-- `allocate_memory_slot`. -/
def allocateMemorySlot (arr : InUseArray) : ℤ × InUseArray :=
  if arr.usedUp then (-1, arr)
  else
    match arr.freeList.getLast? with
    | none => (-1, { arr with usedUp := true })
    | some result => (result, { arr with freeList := arr.freeList.dropLast })

/-- `deallocate_memory_slot`. -/
def deallocateMemorySlot (arr : InUseArray) (index : ℤ) : Bool × InUseArray :=
  let arr := { arr with freeList := arr.freeList ++ [index] }
  if sizeT index < arr.elementSize then (true, { arr with usedUp := false }) else (false, arr)

/-- An allocation, with the region of the array. -/
def take (arr : InUseArray) : (ℤ × IbvMr) × InUseArray :=
  ((arr.allocateMemorySlot.1, arr.mrOri), arr.allocateMemorySlot.2)

end InUseArray

/-- `Chunk_type`. -/
inductive ChunkType
  | internalAndLeaf | lockTable | message | pageArray | pageIDArray | versionEdit | indexChunk
  | filterChunk | flushBuffer | dataChunk
deriving DecidableEq, Repr

/-- The regions of a pool, by address. -/
abbrev RegionMap := List (ℕ × InUseArray)

/-- The memory of an `RDMA_Manager`. -/
structure RdmaManager where
  nodeId : ℕ
  nameToChunksize : ChunkType → ℕ
  nameToAllocatedSize : ChunkType → ℕ
  nameToMemPool : ChunkType → RegionMap
  localMemRegions : List IbvMr
  preAllocatedPool : List IbvMr

/-- What the system makes of a request for memory: its address and the keys of the region. -/
structure Registration where
  addr : ℕ
  lkey : ℕ
  rkey : ℕ

namespace RdmaManager

variable (m : RdmaManager)

/-- The pools for which the manager keeps the regions: all of them on a node with an even number,
only that for messages on the others. -/
def Maintained (pool : ChunkType) : Prop := m.nodeId % 2 = 0 ∨ pool = .message

instance (pool : ChunkType) : Decidable (m.Maintained pool) :=
  inferInstanceAs (Decidable (_ ∨ _))

/-- Replace the regions of a pool. -/
def setPool (pool : ChunkType) (regions : RegionMap) : RdmaManager :=
  { m with nameToMemPool := Function.update m.nameToMemPool pool regions }

/-- The memory that a registration is about: from the preallocated pool, or new.  `none` is the exit
of a node with an odd number that would allocate tree nodes outside its pool. -/
def registeredMemory (size : ℕ) (pool : ChunkType) (fresh : Registration) :
    Option (RdmaManager × IbvMr) :=
  if m.nodeId % 2 = 1 ∧ m.preAllocatedPool ≠ [] ∧ pool ≠ .message then
    m.preAllocatedPool.getLast?.map fun mr =>
      ({ m with preAllocatedPool := m.preAllocatedPool.dropLast }, mr)
  else if m.nodeId % 2 = 1 ∧ pool = .internalAndLeaf then none
  else
    let mr : IbvMr := ⟨fresh.addr, size, fresh.lkey, fresh.rkey⟩
    some ({ m with localMemRegions := m.localMemRegions ++ [mr] }, mr)

/-- `Local_Memory_Register`. -/
def localMemoryRegister (size : ℕ) (pool : ChunkType) (fresh : Registration) :
    Option (RdmaManager × IbvMr) :=
  (m.registeredMemory size pool fresh).map fun r =>
    if m.Maintained pool then
      let chunkSize := m.nameToChunksize pool
      let placeholderNum := toInt (r.2.length / chunkSize)
      let inUseArray := InUseArray.init (sizeT placeholderNum) chunkSize r.2
      (r.1.setPool pool (OrderedMap.insert r.2.addr inUseArray (r.1.nameToMemPool pool)), r.2)
    else r

/-- The size of the regions of a pool. -/
def allocatedSize (pool : ChunkType) : ℕ :=
  if m.nameToAllocatedSize pool = 0 then 1024 * 1024 * 1024 else m.nameToAllocatedSize pool

/-- The search for a slot along the regions of a pool. -/
def searchRegions (chunkSize : ℕ) : RegionMap → Option IbvMr × RegionMap
  | [] => (none, [])
  | (addr, arr) :: rest =>
      if arr.chunkSize ≠ chunkSize then
        ((searchRegions chunkSize rest).1, (addr, arr) :: (searchRegions chunkSize rest).2)
      else if 0 ≤ arr.allocateMemorySlot.1 then
        (some (slotOf arr.mrOri arr.allocateMemorySlot.1 chunkSize),
          (addr, arr.allocateMemorySlot.2) :: rest)
      else
        ((searchRegions chunkSize rest).1,
          (addr, arr.allocateMemorySlot.2) :: (searchRegions chunkSize rest).2)

/-- The end of `Allocate_Local_RDMA_Slot`, when the search has found nothing: the last region that
was registered is tried, if it is of this pool, and then another one is registered. -/
def growPool (pool : ChunkType) (fresh : Registration) : Option (RdmaManager × IbvMr) := do
  let chunkSize := m.nameToChunksize pool
  let mrLast ← m.localMemRegions.getLast?
  let last := (OrderedMap.access mrLast.addr InUseArray.take (m.nameToMemPool pool)).getD
    ((-1, mrLast), m.nameToMemPool pool)
  let m := m.setPool pool last.2
  if 0 ≤ last.1.1 then some (m, slotOf last.1.2 last.1.1 chunkSize)
  else do
    let reg ← m.localMemoryRegister (m.allocatedSize pool) pool fresh
    let taken ← OrderedMap.access reg.2.addr InUseArray.take (reg.1.nameToMemPool pool)
    if 0 ≤ taken.1.1 then
      some (reg.1.setPool pool taken.2, slotOf reg.2 taken.1.1 chunkSize)
    else none

/-- The beginning of `Allocate_Local_RDMA_Slot`: a pool without regions gets one. -/
def firstRegion (pool : ChunkType) (fresh : Registration) : Option RdmaManager :=
  if (m.nameToMemPool pool).isEmpty then
    (m.localMemoryRegister (m.allocatedSize pool) pool fresh).map Prod.fst
  else some m

/-- `Allocate_Local_RDMA_Slot`.  `first` and `more` are what the system makes of a registration for
an empty and for a full pool. -/
def allocateLocalRDMASlot (pool : ChunkType) (first more : Registration) :
    Option (RdmaManager × IbvMr) := do
  let m ← m.firstRegion pool first
  let found := searchRegions (m.nameToChunksize pool) (m.nameToMemPool pool)
  match found.1 with
  | some mr => some (m.setPool pool found.2, mr)
  | none => (m.setPool pool found.2).growPool pool more

/-- `Deallocate_Local_RDMA_Slot`, given the address of the slot. -/
def deallocateLocalRDMASlot (p : ℕ) (pool : ChunkType) : Option (RdmaManager × Bool) :=
  match OrderedMap.predecessor p (m.nameToMemPool pool) with
  | none => some (m, false)
  | some region =>
      let buffOffset := p - region.1
      if buffOffset < region.2.mrOri.length then do
        let freed ← OrderedMap.access region.1
          (fun arr => arr.deallocateMemorySlot (toInt (buffOffset / arr.chunkSize)))
          (m.nameToMemPool pool)
        some (m.setPool pool freed.2, freed.1)
      else some (m, false)

/-- `Deallocate_Local_RDMA_Slot`, given the region as well. -/
def deallocateInRegion (mr mapPointer : IbvMr) (pool : ChunkType) :
    Option (RdmaManager × Bool) := do
  let buffOffset := mr.addr - mapPointer.addr
  let freed ← OrderedMap.access mapPointer.addr
    (fun arr => arr.deallocateMemorySlot (toInt (buffOffset / m.nameToChunksize pool)))
    (m.nameToMemPool pool)
  some (m.setPool pool freed.2, freed.1)

end RdmaManager

/-! ## One region -/

lemma toInt_natCast {n : ℕ} (h : n < 2 ^ 31) : toInt n = n := by
  unfold toInt
  exact Int.bmod_eq_of_le (by omega) (by omega)

lemma sizeT_natCast {n : ℕ} (h : n < 2 ^ 31) : sizeT n = n := by
  rw [sizeT, Int.emod_eq_of_lt (by omega) (by omega), Int.toNat_natCast]

/-- The ranges do not overlap. -/
def IbvMr.Apart (a b : IbvMr) : Prop := a.addr + a.length ≤ b.addr ∨ b.addr + b.length ≤ a.addr

instance : DecidableRel IbvMr.Apart := fun _ _ => inferInstanceAs (Decidable (_ ∨ _))

lemma IbvMr.Apart.symm {a b : IbvMr} (h : a.Apart b) : b.Apart a := Or.symm h

/-- The range lies in the other one. -/
def IbvMr.Inside (a b : IbvMr) : Prop := b.addr ≤ a.addr ∧ a.addr + a.length ≤ b.addr + b.length

lemma IbvMr.Apart.mono {a b a' b' : IbvMr} (h : a.Apart b) (ha : a'.Inside a) (hb : b'.Inside b) :
    a'.Apart b' := by
  unfold IbvMr.Inside IbvMr.Apart at *
  omega

namespace InUseArray

/-- The slot with a number. -/
def slot (arr : InUseArray) (i : ℕ) : IbvMr := slotOf arr.mrOri i arr.chunkSize

/-- The slot is in use. -/
def Taken (arr : InUseArray) (mr : IbvMr) : Prop :=
  ∃ i < arr.elementSize, (i : ℤ) ∉ arr.freeList ∧ mr = arr.slot i

/-- The slot is available. -/
def Free (arr : InUseArray) (mr : IbvMr) : Prop :=
  ∃ i < arr.elementSize, (i : ℤ) ∈ arr.freeList ∧ mr = arr.slot i

/-- The shortcut is taken from now on. -/
def flag (arr : InUseArray) : InUseArray := { arr with usedUp := true }

/-- The array of a region of chunks of the given size: it fits the region, its free list has no
doubles and no strangers, and the shortcut is only taken when it is empty. -/
structure Ok (chunkSize : ℕ) (arr : InUseArray) : Prop where
  chunkSize_eq : arr.chunkSize = chunkSize
  chunk_pos : 0 < chunkSize
  size_eq : arr.elementSize = arr.mrOri.length / chunkSize
  size_pos : 0 < arr.elementSize
  size_lt : arr.elementSize < 2 ^ 31
  nodup : arr.freeList.Nodup
  bounds : ∀ x ∈ arr.freeList, ∃ i < arr.elementSize, x = (i : ℕ)
  used_up : arr.usedUp = true → arr.freeList = []

variable {chunkSize : ℕ} {arr : InUseArray}

lemma Ok.slot_eq (h : arr.Ok chunkSize) {i : ℕ} (hi : i < arr.elementSize) :
    arr.slot i =
      { arr.mrOri with addr := arr.mrOri.addr + i * chunkSize, length := chunkSize } := by
  rw [slot, slotOf, sizeT_natCast (hi.trans h.size_lt), h.chunkSize_eq]

lemma Ok.slot_inside (h : arr.Ok chunkSize) {i : ℕ} (hi : i < arr.elementSize) :
    (arr.slot i).Inside arr.mrOri := by
  have hle : (i + 1) * chunkSize ≤ arr.mrOri.length := by
    have hi' : i + 1 ≤ arr.mrOri.length / chunkSize := h.size_eq ▸ hi
    exact (Nat.le_div_iff_mul_le h.chunk_pos).mp hi'
  rw [Nat.add_mul, Nat.one_mul] at hle
  rw [h.slot_eq hi]
  exact ⟨Nat.le_add_right _ _, by dsimp only; omega⟩

lemma Ok.slot_apart (h : arr.Ok chunkSize) {i j : ℕ} (hi : i < arr.elementSize)
    (hj : j < arr.elementSize) (hne : i ≠ j) : (arr.slot i).Apart (arr.slot j) := by
  rw [h.slot_eq hi, h.slot_eq hj]
  rcases Nat.lt_or_gt_of_ne hne with hlt | hlt
  · left
    have := Nat.mul_le_mul_right chunkSize (Nat.succ_le_of_lt hlt)
    rw [Nat.succ_mul] at this
    dsimp only
    omega
  · right
    have := Nat.mul_le_mul_right chunkSize (Nat.succ_le_of_lt hlt)
    rw [Nat.succ_mul] at this
    dsimp only
    omega

lemma Ok.not_apart_self (h : arr.Ok chunkSize) {i : ℕ} (hi : i < arr.elementSize) :
    ¬(arr.slot i).Apart (arr.slot i) := by
  have hpos := h.chunk_pos
  rw [h.slot_eq hi]
  rintro (hle | hle) <;> dsimp only at hle <;> omega

lemma Ok.slot_injective (h : arr.Ok chunkSize) {i j : ℕ} (hi : i < arr.elementSize)
    (hj : j < arr.elementSize) (heq : arr.slot i = arr.slot j) : i = j := by
  by_contra hne
  have hapart := h.slot_apart hi hj hne
  rw [← heq] at hapart
  exact h.not_apart_self hi hapart

/-- **An allocation** in a region takes the last free slot, or sets the flag of the shortcut. -/
lemma Ok.allocate (h : arr.Ok chunkSize) :
    (arr.freeList = [] ∧ arr.allocateMemorySlot = (-1, arr.flag)) ∨
    ∃ rest, ∃ i < arr.elementSize, arr.freeList = rest ++ [(i : ℤ)] ∧
      arr.allocateMemorySlot = ((i : ℤ), { arr with freeList := rest }) := by
  rcases List.eq_nil_or_concat arr.freeList with hnil | ⟨rest, x, hlast⟩
  · left
    refine ⟨hnil, ?_⟩
    cases hup : arr.usedUp with
    | true =>
        have hself : arr.flag = arr := by
          rw [flag, ← hup]
        rw [hself, allocateMemorySlot, if_pos hup]
    | false =>
        simp [allocateMemorySlot, InUseArray.flag, hup, hnil]
  · right
    rw [List.concat_eq_append] at hlast
    obtain ⟨i, hi, rfl⟩ := h.bounds x (by simp [hlast])
    refine ⟨rest, i, hi, hlast, ?_⟩
    have hup : arr.usedUp = false := by
      cases hup : arr.usedUp with
      | false => rfl
      | true => simp [h.used_up hup] at hlast
    simp [allocateMemorySlot, hup, hlast]

lemma Ok.flag (h : arr.Ok chunkSize) (hnil : arr.freeList = []) : arr.flag.Ok chunkSize :=
  ⟨h.chunkSize_eq, h.chunk_pos, h.size_eq, h.size_pos, h.size_lt, h.nodup, h.bounds, fun _ => hnil⟩

lemma Ok.taken (h : arr.Ok chunkSize) {rest : List ℤ} {i : ℕ}
    (hlast : arr.freeList = rest ++ [(i : ℤ)]) (hi : i < arr.elementSize) :
    ({ arr with freeList := rest } : InUseArray).Ok chunkSize ∧
    ∀ mr, ({ arr with freeList := rest } : InUseArray).Taken mr ↔
      arr.Taken mr ∨ mr = arr.slot i := by
  have hnodup := h.nodup
  rw [hlast, List.nodup_append] at hnodup
  have hnot : (i : ℤ) ∉ rest := fun hmem => hnodup.2.2 i hmem i (by simp) rfl
  refine ⟨⟨h.chunkSize_eq, h.chunk_pos, h.size_eq, h.size_pos, h.size_lt, hnodup.1,
    fun x hx => h.bounds x (by simp [hlast, hx]), fun hup => ?_⟩, fun mr => ?_⟩
  · have hnil := h.used_up hup
    simp [hlast] at hnil
  · constructor
    · rintro ⟨j, hj, hfree, rfl⟩
      by_cases hji : j = i
      · exact .inr (by rw [hji]; rfl)
      · refine .inl ⟨j, hj, ?_, rfl⟩
        have hne : (j : ℤ) ≠ i := by omega
        rw [hlast]
        simpa [hne] using hfree
    · rintro (⟨j, hj, hfree, rfl⟩ | rfl)
      · refine ⟨j, hj, fun hmem => hfree ?_, rfl⟩
        rw [hlast]
        exact List.mem_append_left _ hmem
      · exact ⟨i, hi, hnot, rfl⟩

/-- **A free** in a region makes the slot available, and changes nothing else about slots. -/
lemma Ok.deallocate (h : arr.Ok chunkSize) {i : ℕ} (hi : i < arr.elementSize)
    (htaken : (i : ℤ) ∉ arr.freeList) :
    ∃ arr', arr.deallocateMemorySlot i = (true, arr') ∧ arr'.Ok chunkSize ∧
      arr'.mrOri = arr.mrOri ∧ (∀ mr, arr'.Taken mr ↔ arr.Taken mr ∧ mr ≠ arr.slot i) ∧
      ∀ mr, arr'.Free mr ↔ arr.Free mr ∨ mr = arr.slot i := by
  refine ⟨{ arr with freeList := arr.freeList ++ [(i : ℤ)], usedUp := false }, ?_, ?_, rfl, ?_, ?_⟩
  · simp [deallocateMemorySlot, sizeT_natCast (hi.trans h.size_lt), hi]
  · refine ⟨h.chunkSize_eq, h.chunk_pos, h.size_eq, h.size_pos, h.size_lt, ?_, ?_, by simp⟩
    · rw [List.nodup_append]
      refine ⟨h.nodup, List.nodup_singleton _, fun x hx y hy => ?_⟩
      rw [List.mem_singleton.mp hy]
      rintro rfl
      exact htaken hx
    · intro x hx
      rcases List.mem_append.mp hx with hx | hx
      · exact h.bounds x hx
      · exact ⟨i, hi, List.mem_singleton.mp hx⟩
  · intro mr
    simp only [Taken, List.mem_append, List.mem_singleton, not_or, Int.natCast_inj]
    constructor
    · rintro ⟨j, hj, hfree, rfl⟩
      exact ⟨⟨j, hj, hfree.1, rfl⟩, fun heq => hfree.2 (h.slot_injective hj hi heq)⟩
    · rintro ⟨⟨j, hj, hfree, rfl⟩, hne⟩
      exact ⟨j, hj, ⟨hfree, fun heq => hne (by rw [heq])⟩, rfl⟩
  · intro mr
    simp only [Free, List.mem_append, List.mem_singleton, Int.natCast_inj]
    constructor
    · rintro ⟨j, hj, hfree | rfl, rfl⟩
      · exact .inl ⟨j, hj, hfree, rfl⟩
      · exact .inr rfl
    · rintro (⟨j, hj, hfree, rfl⟩ | rfl)
      · exact ⟨j, hj, .inl hfree, rfl⟩
      · exact ⟨i, hi, .inr rfl, rfl⟩

lemma ok_init {mr : IbvMr} (hpos : 0 < chunkSize) (hone : chunkSize ≤ mr.length)
    (hlt : mr.length / chunkSize < 2 ^ 31) :
    (InUseArray.init (mr.length / chunkSize) chunkSize mr).Ok chunkSize ∧
    ∀ mr', ¬(InUseArray.init (mr.length / chunkSize) chunkSize mr).Taken mr' := by
  have hlist : (List.range (mr.length / chunkSize)).map toInt =
      (List.range (mr.length / chunkSize)).map (fun i : ℕ => (i : ℤ)) :=
    List.map_congr_left fun i hi => toInt_natCast ((List.mem_range.mp hi).trans hlt)
  refine ⟨⟨rfl, hpos, rfl, Nat.div_pos hone hpos, hlt, ?_, ?_, by simp [init]⟩, ?_⟩
  · rw [init, hlist]
    exact List.nodup_range.map fun _ _ h => Int.natCast_inj.mp h
  · rw [init, hlist]
    intro x hx
    obtain ⟨i, hi, rfl⟩ := List.mem_map.mp hx
    exact ⟨i, List.mem_range.mp hi, rfl⟩
  · rintro mr' ⟨i, hi, hfree, -⟩
    refine hfree ?_
    rw [init, hlist]
    exact List.mem_map_of_mem (List.mem_range.mpr hi)

end InUseArray

/-! ## The invariant -/

namespace RdmaManager

/-- The arrays fit their regions, the regions do not overlap, and the slots in use are those of
`live`, which has no doubles. -/
structure Ok (m : RdmaManager) (live : List (ChunkType × IbvMr)) : Prop where
  sizes : ∀ t, m.Maintained t → 0 < m.nameToChunksize t ∧
    m.nameToChunksize t ≤ m.allocatedSize t ∧ m.allocatedSize t / m.nameToChunksize t < 2 ^ 31
  sorted : ∀ t, OrderedMap.Sorted (m.nameToMemPool t)
  arrays : ∀ t, ∀ e ∈ m.nameToMemPool t, e.2.Ok (m.nameToChunksize t) ∧ e.2.mrOri.addr = e.1 ∧
    e.2.mrOri ∈ m.localMemRegions
  apart : ∀ t t' e e', e ∈ m.nameToMemPool t → e' ∈ m.nameToMemPool t' → (t, e.1) ≠ (t', e'.1) →
    e.2.mrOri.Apart e'.2.mrOri
  live_iff : ∀ t mr, (t, mr) ∈ live ↔ ∃ e ∈ m.nameToMemPool t, e.2.Taken mr
  live_nodup : live.Nodup

variable {m : RdmaManager} {live live' : List (ChunkType × IbvMr)} {t t' : ChunkType}
  {new pre post : RegionMap} {a : ℕ} {arr arr' : InUseArray}

@[simp] lemma setPool_self : (m.setPool t new).nameToMemPool t = new := Function.update_self ..

lemma setPool_of_ne (hne : t' ≠ t) :
    (m.setPool t new).nameToMemPool t' = m.nameToMemPool t' := Function.update_of_ne hne _ _

@[simp] lemma setPool_setPool (new' : RegionMap) :
    (m.setPool t new).setPool t new' = m.setPool t new' := by
  simp [setPool]

lemma setPool_same : m.setPool t (m.nameToMemPool t) = m := by
  simp [setPool]

/-- Slots of different regions, also of different pools, do not overlap. -/
lemma Ok.slots_apart (h : m.Ok live) {e e' : ℕ × InUseArray} {i j : ℕ}
    (he : e ∈ m.nameToMemPool t) (he' : e' ∈ m.nameToMemPool t') (hi : i < e.2.elementSize)
    (hj : j < e'.2.elementSize) (hne : (t, e.1) ≠ (t', e'.1)) :
    (e.2.slot i).Apart (e'.2.slot j) := by
  exact (h.apart t t' e e' he he' hne).mono ((h.arrays t e he).1.slot_inside hi)
    ((h.arrays t' e' he').1.slot_inside hj)

lemma Ok.region_unique (h : m.Ok live) {e e' : ℕ × InUseArray} {i j : ℕ}
    (he : e ∈ m.nameToMemPool t) (he' : e' ∈ m.nameToMemPool t') (hi : i < e.2.elementSize)
    (hj : j < e'.2.elementSize) (heq : e.2.slot i = e'.2.slot j) : (t, e.1) = (t', e'.1) := by
  by_contra hne
  have hapart := h.slots_apart he he' hi hj hne
  rw [← heq] at hapart
  exact (h.arrays t e he).1.not_apart_self hi hapart

/-- **One pool changes**, but not its regions. -/
lemma Ok.setPool (h : m.Ok live) (hsorted : OrderedMap.Sorted new)
    (hnew : ∀ e' ∈ new, ∃ e ∈ m.nameToMemPool t, e'.1 = e.1 ∧ e'.2.mrOri = e.2.mrOri ∧
      e'.2.Ok (m.nameToChunksize t))
    (hlive : ∀ mr, (t, mr) ∈ live' ↔ ∃ e ∈ new, e.2.Taken mr)
    (hother : ∀ t' mr, t' ≠ t → ((t', mr) ∈ live' ↔ (t', mr) ∈ live)) (hnodup : live'.Nodup) :
    (m.setPool t new).Ok live' := by
  -- every entry has the key and the region of one that was there
  have horigin : ∀ t' e', e' ∈ (m.setPool t new).nameToMemPool t' → ∃ e ∈ m.nameToMemPool t',
      e'.1 = e.1 ∧ e'.2.mrOri = e.2.mrOri ∧ e'.2.Ok (m.nameToChunksize t') := by
    intro t' e' he'
    by_cases ht : t' = t
    · subst ht
      rw [setPool_self] at he'
      exact hnew e' he'
    · rw [setPool_of_ne ht] at he'
      exact ⟨e', he', rfl, rfl, (h.arrays t' e' he').1⟩
  refine ⟨h.sizes, fun t' => ?_, fun t' e' he' => ?_, fun t₁ t₂ e₁ e₂ he₁ he₂ hne => ?_,
    fun t' mr => ?_, hnodup⟩
  · by_cases ht : t' = t
    · subst ht
      rwa [setPool_self]
    · rw [setPool_of_ne ht]
      exact h.sorted t'
  · obtain ⟨e, he, hkey, hmr, hok⟩ := horigin t' e' he'
    obtain ⟨-, haddr, hmem⟩ := h.arrays t' e he
    exact ⟨hok, by rw [hmr, haddr, hkey], hmr ▸ hmem⟩
  · obtain ⟨d₁, hd₁, hk₁, hr₁, -⟩ := horigin t₁ e₁ he₁
    obtain ⟨d₂, hd₂, hk₂, hr₂, -⟩ := horigin t₂ e₂ he₂
    rw [hr₁, hr₂]
    exact h.apart t₁ t₂ d₁ d₂ hd₁ hd₂ (by rwa [← hk₁, ← hk₂])
  · by_cases ht : t' = t
    · subst ht
      rw [setPool_self]
      exact hlive mr
    · rw [setPool_of_ne ht, hother t' mr ht]
      exact h.live_iff t' mr

/-- The entries of full regions, with the flags of the shortcut set. -/
def flagged (regions : RegionMap) : RegionMap := regions.map fun e => (e.1, e.2.flag)

lemma Ok.flag (h : m.Ok live) (hpool : m.nameToMemPool t = pre ++ post)
    (hfull : ∀ e ∈ pre, e.2.freeList = []) : (m.setPool t (flagged pre ++ post)).Ok live := by
  refine h.setPool ?_ ?_ (fun mr => ?_) (fun _ _ _ => Iff.rfl) h.live_nodup
  · have hsorted := h.sorted t
    rw [hpool] at hsorted
    have hkeys : (flagged pre).map Prod.fst = pre.map Prod.fst := by
      simp [flagged, Function.comp_def]
    rw [OrderedMap.Sorted, List.map_append] at hsorted ⊢
    rwa [hkeys]
  · intro e' he'
    rcases List.mem_append.mp he' with he' | he'
    · obtain ⟨e, he, rfl⟩ := List.mem_map.mp he'
      have hin : e ∈ m.nameToMemPool t := hpool ▸ List.mem_append_left _ he
      exact ⟨e, hin, rfl, rfl, (h.arrays t e hin).1.flag (hfull e he)⟩
    · have hin : e' ∈ m.nameToMemPool t := hpool ▸ List.mem_append_right _ he'
      exact ⟨e', hin, rfl, rfl, (h.arrays t e' hin).1⟩
  · have hflag : ∀ arr : InUseArray, arr.flag.Taken mr ↔ arr.Taken mr := fun _ => Iff.rfl
    rw [h.live_iff, hpool]
    simp [flagged, or_and_right, exists_or, hflag]

lemma exists_mem_split {P : ℕ × InUseArray → Prop} :
    (∃ e ∈ pre ++ (a, arr) :: post, P e) ↔ (∃ e ∈ pre ++ post, P e) ∨ P (a, arr) := by
  simp only [List.mem_append, List.mem_cons, or_and_right, exists_or, exists_eq_left]
  rw [or_assoc, or_comm (a := P _)]

/-- **The array of one region changes.** -/
lemma Ok.replace (h : m.Ok live) (hpool : m.nameToMemPool t = pre ++ (a, arr) :: post)
    (hok : arr'.Ok (m.nameToChunksize t)) (hmr : arr'.mrOri = arr.mrOri)
    (hlive : ∀ mr, (t, mr) ∈ live' ↔ (∃ e ∈ pre ++ post, e.2.Taken mr) ∨ arr'.Taken mr)
    (hother : ∀ t' mr, t' ≠ t → ((t', mr) ∈ live' ↔ (t', mr) ∈ live)) (hnodup : live'.Nodup) :
    (m.setPool t (pre ++ (a, arr') :: post)).Ok live' := by
  have hsorted := h.sorted t
  rw [hpool] at hsorted
  refine h.setPool (hsorted.replace arr') ?_ (fun mr => ?_) hother hnodup
  · intro e' he'
    rcases List.mem_append.mp he' with he' | he'
    · have hin : e' ∈ m.nameToMemPool t := hpool ▸ List.mem_append_left _ he'
      exact ⟨e', hin, rfl, rfl, (h.arrays t e' hin).1⟩
    · rcases List.mem_cons.mp he' with rfl | he'
      · exact ⟨(a, arr), by simp [hpool], rfl, hmr, hok⟩
      · have hin : e' ∈ m.nameToMemPool t :=
          hpool ▸ List.mem_append_right _ (List.mem_cons_of_mem _ he')
        exact ⟨e', hin, rfl, rfl, (h.arrays t e' hin).1⟩
  · rw [hlive, exists_mem_split]

lemma Ok.live_split (h : m.Ok live) (hpool : m.nameToMemPool t = pre ++ (a, arr) :: post)
    (mr : IbvMr) : (t, mr) ∈ live ↔ (∃ e ∈ pre ++ post, e.2.Taken mr) ∨ arr.Taken mr := by
  rw [h.live_iff, hpool, exists_mem_split]

lemma Ok.not_taken_elsewhere (h : m.Ok live) (hpool : m.nameToMemPool t = pre ++ (a, arr) :: post)
    {i : ℕ} (hi : i < arr.elementSize) : ¬∃ e ∈ pre ++ post, e.2.Taken (arr.slot i) := by
  rintro ⟨e, he, j, hj, -, heq⟩
  have hin : e ∈ m.nameToMemPool t := by
    rw [hpool]
    rcases List.mem_append.mp he with he | he <;> simp [he]
  have hself : (a, arr) ∈ m.nameToMemPool t := by simp [hpool]
  have hkey : a = e.1 := (Prod.mk.inj (h.region_unique hself hin hi hj heq)).2
  -- no other entry has that key
  have hsorted := h.sorted t
  rw [hpool, OrderedMap.Sorted, List.map_append, List.map_cons, List.pairwise_append,
    List.pairwise_cons] at hsorted
  obtain ⟨-, ⟨hbehind, -⟩, hbefore⟩ := hsorted
  rcases List.mem_append.mp he with he | he
  · have := hbefore e.1 (List.mem_map_of_mem he) a List.mem_cons_self
    omega
  · have := hbehind e.1 (List.mem_map_of_mem he)
    omega

/-- **A slot is taken** from a region. -/
lemma Ok.take (h : m.Ok live) (hpool : m.nameToMemPool t = pre ++ (a, arr) :: post)
    {rest : List ℤ} {i : ℕ} (hlast : arr.freeList = rest ++ [(i : ℤ)]) (hi : i < arr.elementSize) :
    (m.setPool t (pre ++ (a, { arr with freeList := rest }) :: post)).Ok
      (live ++ [(t, arr.slot i)]) := by
  have hok := (h.arrays t (a, arr) (by simp [hpool])).1
  obtain ⟨hok', htaken⟩ := hok.taken hlast hi
  have hnew : (t, arr.slot i) ∉ live := by
    rw [h.live_split hpool]
    rintro (helse | ⟨j, hj, hfree, heq⟩)
    · exact h.not_taken_elsewhere hpool hi helse
    · rw [hok.slot_injective hi hj heq] at hlast
      exact hfree (by simp [hlast])
  refine h.replace hpool hok' rfl (fun mr => ?_) (fun t' mr ht => ?_) ?_
  · rw [List.mem_append, h.live_split hpool, htaken]
    simp [or_assoc]
  · simp [ht]
  · rw [List.nodup_append]
    refine ⟨h.live_nodup, List.nodup_singleton _, fun x hx y hy => ?_⟩
    rw [List.mem_singleton.mp hy]
    rintro rfl
    exact hnew hx

/-- **A slot is given back** to its region. -/
lemma Ok.giveBack (h : m.Ok live) (hpool : m.nameToMemPool t = pre ++ (a, arr) :: post) {i : ℕ}
    (hi : i < arr.elementSize) (hok : arr'.Ok (m.nameToChunksize t)) (hmr : arr'.mrOri = arr.mrOri)
    (htaken : ∀ mr, arr'.Taken mr ↔ arr.Taken mr ∧ mr ≠ arr.slot i) :
    (m.setPool t (pre ++ (a, arr') :: post)).Ok (live.erase (t, arr.slot i)) := by
  refine h.replace hpool hok hmr (fun mr => ?_) (fun t' mr ht => ?_) (h.live_nodup.erase _)
  · rw [h.live_nodup.mem_erase_iff, h.live_split hpool, htaken]
    constructor
    · rintro ⟨hne, helse | hhere⟩
      · exact .inl helse
      · exact .inr ⟨hhere, fun heq => hne (by rw [heq])⟩
    · rintro (helse | ⟨hhere, hne⟩)
      · refine ⟨fun heq => ?_, .inl helse⟩
        rw [(Prod.mk.inj heq).2] at helse
        exact h.not_taken_elsewhere hpool hi helse
      · exact ⟨fun heq => hne (Prod.mk.inj heq).2, .inr hhere⟩
  · rw [h.live_nodup.mem_erase_iff]
    simp [ht]

/-! ## The operations -/

/-- The memory that is registered lies apart from all regions before. -/
def Fresh (m : RdmaManager) (size : ℕ) (fresh : Registration) : Prop :=
  ∀ mr ∈ m.localMemRegions ++ m.preAllocatedPool,
    mr.Apart ⟨fresh.addr, size, fresh.lkey, fresh.rkey⟩

instance (m : RdmaManager) (size : ℕ) (fresh : Registration) : Decidable (m.Fresh size fresh) :=
  inferInstanceAs (Decidable (∀ _ ∈ _, _))

/-- A registration for a pool whose slots this node hands out: the memory is new, and the number of
its chunks fits an `int`. -/
lemma localMemoryRegister_maintained (ht : m.Maintained t) {size : ℕ} {fresh : Registration}
    (hlt : size / m.nameToChunksize t < 2 ^ 31) {mr : IbvMr}
    (hmr : mr = ⟨fresh.addr, size, fresh.lkey, fresh.rkey⟩) :
    m.localMemoryRegister size t fresh =
      some ({ m.setPool t (OrderedMap.insert mr.addr (InUseArray.init
        (mr.length / m.nameToChunksize t) (m.nameToChunksize t) mr) (m.nameToMemPool t)) with
          localMemRegions := m.localMemRegions ++ [mr] }, mr) := by
  subst hmr
  have hmemory : m.registeredMemory size t fresh =
      some ({ m with localMemRegions :=
        m.localMemRegions ++ [⟨fresh.addr, size, fresh.lkey, fresh.rkey⟩] },
        ⟨fresh.addr, size, fresh.lkey, fresh.rkey⟩) := by
    rw [registeredMemory, if_neg, if_neg]
    · rintro ⟨hodd, rfl⟩
      rcases ht with heven | hmsg
      · omega
      · cases hmsg
    · rintro ⟨hodd, -, hne⟩
      rcases ht with heven | hmsg
      · omega
      · exact hne hmsg
  rw [localMemoryRegister, hmemory, Option.map_some, if_pos ht]
  simp only [toInt_natCast hlt, sizeT_natCast hlt]
  rfl

/-- **A registration** adds a region with free slots only. -/
lemma Ok.register (h : m.Ok live) (ht : m.Maintained t) {size : ℕ} {fresh : Registration}
    (hone : m.nameToChunksize t ≤ size) (hlt : size / m.nameToChunksize t < 2 ^ 31)
    (hfresh : m.Fresh size fresh) :
    ∃ m' mr pre post, m.localMemoryRegister size t fresh = some (m', mr) ∧ m'.Ok live ∧
      m.nameToMemPool t = pre ++ post ∧
      m'.nameToMemPool t = pre ++ (mr.addr, InUseArray.init (mr.length / m.nameToChunksize t)
        (m.nameToChunksize t) mr) :: post ∧
      m'.localMemRegions = m.localMemRegions ++ [mr] ∧
      m'.nameToChunksize = m.nameToChunksize ∧ mr.length = size := by
  set mr : IbvMr := ⟨fresh.addr, size, fresh.lkey, fresh.rkey⟩ with hmr
  obtain ⟨hpos, -, -⟩ := h.sizes t ht
  have hinit := InUseArray.ok_init hpos (show m.nameToChunksize t ≤ mr.length from hone) hlt
  set arr := InUseArray.init (mr.length / m.nameToChunksize t) (m.nameToChunksize t) mr with harr
  obtain ⟨hok, hfree⟩ := hinit
  -- the regions of all pools are apart from the new one
  have hapart : ∀ t' e, e ∈ m.nameToMemPool t' → e.2.mrOri.Apart mr := fun t' e he =>
    hfresh _ (List.mem_append_left _ (h.arrays t' e he).2.2)
  have hnew : ∀ e ∈ m.nameToMemPool t, e.1 ≠ mr.addr := by
    intro e he heq
    obtain ⟨hoke, haddr, -⟩ := h.arrays t e he
    have hlen : 0 < e.2.mrOri.length := by
      have := hoke.size_eq ▸ hoke.size_pos
      exact Nat.pos_of_ne_zero fun hzero => by simp [hzero] at this
    have := hapart t e he
    unfold IbvMr.Apart at this
    have hsize : mr.length = size := rfl
    omega
  obtain ⟨pre, post, hpool, hins, hsorted⟩ := OrderedMap.insert_split arr (h.sorted t) hnew
  set m' : RdmaManager := { m.setPool t (pre ++ (mr.addr, arr) :: post) with
    localMemRegions := m.localMemRegions ++ [mr] } with hm'
  have hmem : ∀ t' e, e ∈ m'.nameToMemPool t' ↔
      e ∈ m.nameToMemPool t' ∨ t' = t ∧ e = (mr.addr, arr) := by
    intro t' e
    change e ∈ (m.setPool t (pre ++ (mr.addr, arr) :: post)).nameToMemPool t' ↔ _
    by_cases heq : t' = t
    · subst heq
      rw [setPool_self, hpool]
      simp only [List.mem_append, List.mem_cons, true_and]
      tauto
    · rw [setPool_of_ne heq]
      simp [heq]
  refine ⟨m', mr, pre, post, ?_, ⟨h.sizes, fun t' => ?_, fun t' e he => ?_,
    fun t₁ t₂ e₁ e₂ he₁ he₂ hne => ?_, fun t' mr' => ?_, h.live_nodup⟩, hpool, setPool_self, rfl,
    rfl, rfl⟩
  · rw [localMemoryRegister_maintained ht hlt hmr, ← harr, hins]
  · change OrderedMap.Sorted ((m.setPool t (pre ++ (mr.addr, arr) :: post)).nameToMemPool t')
    by_cases heq : t' = t
    · subst heq
      rwa [setPool_self]
    · rw [setPool_of_ne heq]
      exact h.sorted t'
  · rcases (hmem t' e).mp he with he | ⟨rfl, rfl⟩
    · obtain ⟨hoke, haddr, hreg⟩ := h.arrays t' e he
      exact ⟨hoke, haddr, List.mem_append_left _ hreg⟩
    · exact ⟨hok, rfl, List.mem_append_right _ (List.mem_singleton.mpr rfl)⟩
  · rcases (hmem t₁ e₁).mp he₁ with hd₁ | ⟨rfl, rfl⟩ <;>
      rcases (hmem t₂ e₂).mp he₂ with hd₂ | ⟨rfl, rfl⟩
    · exact h.apart t₁ t₂ e₁ e₂ hd₁ hd₂ hne
    · exact hapart t₁ e₁ hd₁
    · exact (hapart t₂ e₂ hd₂).symm
    · exact absurd rfl hne
  · rw [h.live_iff]
    constructor
    · rintro ⟨e, he, htaken⟩
      exact ⟨e, (hmem t' e).mpr (.inl he), htaken⟩
    · rintro ⟨e, he, htaken⟩
      rcases (hmem t' e).mp he with he | ⟨rfl, rfl⟩
      · exact ⟨e, he, htaken⟩
      · exact absurd htaken (hfree mr')

/-- **The search** takes a slot of the first region that is not full. -/
lemma searchRegions_spec {chunkSize : ℕ} {l : RegionMap} (hl : ∀ e ∈ l, e.2.Ok chunkSize) :
    ((∀ e ∈ l, e.2.freeList = []) ∧ searchRegions chunkSize l = (none, flagged l)) ∨
    ∃ pre a arr post rest, ∃ i : ℕ, l = pre ++ (a, arr) :: post ∧
      (∀ e ∈ pre, e.2.freeList = []) ∧ arr.freeList = rest ++ [(i : ℤ)] ∧ i < arr.elementSize ∧
      searchRegions chunkSize l =
        (some (arr.slot i), flagged pre ++ (a, { arr with freeList := rest }) :: post) := by
  induction l with
  | nil => exact .inl ⟨by simp, rfl⟩
  | cons e l ih =>
      obtain ⟨a, arr⟩ := e
      have hok : arr.Ok chunkSize := hl (a, arr) List.mem_cons_self
      have hsize : ¬arr.chunkSize ≠ chunkSize := not_not.mpr hok.chunkSize_eq
      rcases hok.allocate with ⟨hnil, halloc⟩ | ⟨rest, i, hi, hlast, halloc⟩
      · -- the region is full
        have hstep : searchRegions chunkSize ((a, arr) :: l) =
            ((searchRegions chunkSize l).1, (a, arr.flag) :: (searchRegions chunkSize l).2) := by
          rw [searchRegions, if_neg hsize, halloc]
          rfl
        rcases ih fun e he => hl e (List.mem_cons_of_mem _ he) with
          ⟨hfull, hsearch⟩ | ⟨pre, b, arr', post, rest, i, rfl, hfull, hlast, hi, hsearch⟩
        · refine .inl ⟨List.forall_mem_cons.mpr ⟨hnil, hfull⟩, ?_⟩
          rw [hstep, hsearch]
          rfl
        · refine .inr ⟨(a, arr) :: pre, b, arr', post, rest, i, rfl,
            List.forall_mem_cons.mpr ⟨hnil, hfull⟩, hlast, hi, ?_⟩
          rw [hstep, hsearch]
          rfl
      · refine .inr ⟨[], a, arr, l, rest, i, rfl, by simp, hlast, hi, ?_⟩
        rw [searchRegions, if_neg hsize, halloc, if_pos (Int.natCast_nonneg i),
          InUseArray.slot, hok.chunkSize_eq]
        rfl

lemma take_init {chunkSize : ℕ} {mr : IbvMr} (hpos : 0 < chunkSize) (hone : chunkSize ≤ mr.length)
    (hlt : mr.length / chunkSize < 2 ^ 31) :
    ∃ rest, ∃ i : ℕ, (InUseArray.init (mr.length / chunkSize) chunkSize mr).freeList =
        rest ++ [(i : ℤ)] ∧
      i < (InUseArray.init (mr.length / chunkSize) chunkSize mr).elementSize ∧
      (InUseArray.init (mr.length / chunkSize) chunkSize mr).take = (((i : ℤ), mr),
        { InUseArray.init (mr.length / chunkSize) chunkSize mr with freeList := rest }) := by
  rcases (InUseArray.ok_init hpos hone hlt).1.allocate with
    ⟨hnil, -⟩ | ⟨rest, i, hi, hlast, halloc⟩
  · have hsize : mr.length / chunkSize ≠ 0 := (Nat.div_pos hone hpos).ne'
    simp [InUseArray.init, hsize] at hnil
  · refine ⟨rest, i, hlast, hi, ?_⟩
    rw [InUseArray.take, halloc]
    rfl

/-- **Growth**: when all regions are full, another one is registered and a slot of it is taken. -/
lemma Ok.growPool (h : m.Ok live) (ht : m.Maintained t) (hne : m.nameToMemPool t ≠ [])
    (hfull : ∀ e ∈ m.nameToMemPool t, e.2.freeList = [] ∧ e.2.usedUp = true)
    {more : Registration} (hmore : m.Fresh (m.allocatedSize t) more) :
    ∃ m' mr reg, m.growPool t more = some (m', mr) ∧ m'.Ok (live ++ [(t, mr)]) ∧
      m'.localMemRegions = m.localMemRegions ++ [reg] ∧ mr.Inside reg := by
  obtain ⟨hpos, hone, hlt⟩ := h.sizes t ht
  obtain ⟨mrLast, hlast⟩ : ∃ mr, m.localMemRegions.getLast? = some mr := by
    obtain ⟨e, he⟩ := List.exists_mem_of_ne_nil _ hne
    have hregs : m.localMemRegions ≠ [] := List.ne_nil_of_mem (h.arrays t e he).2.2
    exact ⟨_, List.getLast?_eq_some_getLast hregs⟩
  -- the last region is full as well, if it is of this pool
  have htry : ∃ mr₀, (OrderedMap.access mrLast.addr InUseArray.take (m.nameToMemPool t)).getD
      ((-1, mrLast), m.nameToMemPool t) = ((-1, mr₀), m.nameToMemPool t) := by
    by_cases hin : ∃ arr, (mrLast.addr, arr) ∈ m.nameToMemPool t
    · obtain ⟨arr, hin⟩ := hin
      obtain ⟨pre, post, hpool, hpre, -⟩ := OrderedMap.exists_split (h.sorted t) hin
      have htake : arr.take = ((-1, arr.mrOri), arr) := by
        rw [InUseArray.take, InUseArray.allocateMemorySlot, if_pos (hfull _ hin).2]
      refine ⟨arr.mrOri, ?_⟩
      rw [hpool, OrderedMap.access_split InUseArray.take fun e he => (hpre e he).ne, htake]
      rfl
    · refine ⟨mrLast, ?_⟩
      rw [OrderedMap.access_none]
      · rfl
      · rintro ⟨a, arr⟩ he rfl
        exact hin ⟨arr, he⟩
  obtain ⟨mr₀, htry⟩ := htry
  obtain ⟨m₁, reg, pre, post, hreg, hok₁, hpool, hpool₁, hregs, hchunks, hlen⟩ :=
    h.register ht hone hlt hmore
  have hlen' : m.nameToChunksize t ≤ reg.length := hlen ▸ hone
  have hlt' : reg.length / m.nameToChunksize t < 2 ^ 31 := hlen ▸ hlt
  obtain ⟨rest, i, hfree, hi, htake⟩ := take_init hpos hlen' hlt'
  set arr := InUseArray.init (reg.length / m.nameToChunksize t) (m.nameToChunksize t) reg with harr
  have hpre : ∀ e ∈ pre, e.1 ≠ reg.addr := by
    have hsorted := hok₁.sorted t
    rw [hpool₁, OrderedMap.Sorted, List.map_append, List.map_cons, List.pairwise_append] at hsorted
    exact fun e he =>
      (hsorted.2.2 e.1 (List.mem_map_of_mem he) reg.addr List.mem_cons_self).ne
  have haccess : OrderedMap.access reg.addr InUseArray.take (m₁.nameToMemPool t) =
      some (((i : ℤ), reg), pre ++ (reg.addr, { arr with freeList := rest }) :: post) := by
    rw [hpool₁, OrderedMap.access_split InUseArray.take hpre, htake]
  have hok₂ := hok₁.take hpool₁ hfree hi
  have hinside := (InUseArray.ok_init hpos hlen' hlt').1.slot_inside hi
  refine ⟨_, arr.slot i, reg, ?_, hok₂, hregs, hinside⟩
  simp only [RdmaManager.growPool, hlast, htry, setPool_same, hreg, haccess, Option.bind_eq_bind,
    Option.bind_some, Int.natCast_nonneg, if_true]
  rfl

lemma Ok.search (h : m.Ok live) :
    ((∀ e ∈ m.nameToMemPool t, e.2.freeList = []) ∧
      searchRegions (m.nameToChunksize t) (m.nameToMemPool t) =
        (none, flagged (m.nameToMemPool t)) ∧
      (m.setPool t (flagged (m.nameToMemPool t))).Ok live) ∨
    ∃ mr regions, searchRegions (m.nameToChunksize t) (m.nameToMemPool t) = (some mr, regions) ∧
      (m.setPool t regions).Ok (live ++ [(t, mr)]) ∧
      ∃ e ∈ m.nameToMemPool t, e.2.freeList ≠ [] ∧ mr.Inside e.2.mrOri := by
  rcases searchRegions_spec fun e he => (h.arrays t e he).1 with
    ⟨hfull, hsearch⟩ | ⟨pre, a, arr, post, rest, i, hpool, hfull, hlast, hi, hsearch⟩
  · have hok : (m.setPool t (flagged (m.nameToMemPool t) ++ [])).Ok live :=
      h.flag (List.append_nil _).symm hfull
    rw [List.append_nil] at hok
    exact .inl ⟨hfull, hsearch, hok⟩
  · have hself : (a, arr) ∈ m.nameToMemPool t := by simp [hpool]
    have hin := (h.arrays t (a, arr) hself).1.slot_inside hi
    have hok := (h.flag hpool hfull).take setPool_self hlast hi
    rw [setPool_setPool] at hok
    exact .inr ⟨arr.slot i, _, hsearch, hok, (a, arr), hself, by simp [hlast], hin⟩

/-- **An allocation** succeeds.  It registers a region exactly when all regions of the pool are
full. -/
lemma Ok.allocate (h : m.Ok live) (ht : m.Maintained t) {first more : Registration}
    (hfirst : m.Fresh (m.allocatedSize t) first) (hmore : m.Fresh (m.allocatedSize t) more) :
    ∃ m' mr, m.allocateLocalRDMASlot t first more = some (m', mr) ∧ m'.Ok (live ++ [(t, mr)]) ∧
      ((∃ e ∈ m.nameToMemPool t, e.2.freeList ≠ []) → m'.localMemRegions = m.localMemRegions) ∧
      ((∀ e ∈ m.nameToMemPool t, e.2.freeList = []) → ∃ reg,
        m'.localMemRegions = m.localMemRegions ++ [reg] ∧ mr.Inside reg) := by
  by_cases hempty : m.nameToMemPool t = []
  · -- the first region of the pool
    obtain ⟨hpos, hone, hlt⟩ := h.sizes t ht
    obtain ⟨m₁, reg, pre, post, hreg, hok₁, hpool, hpool₁, hregs, hchunks, hlen⟩ :=
      h.register ht hone hlt hfirst
    obtain ⟨rfl, rfl⟩ : pre = [] ∧ post = [] := by simpa [hempty] using hpool.symm
    have hstart : m.firstRegion t first = some m₁ := by simp [firstRegion, hempty, hreg]
    rcases hok₁.search with ⟨hfull, -⟩ | ⟨mr, regions, hsearch, hok, e, he, -, hin⟩
    · obtain ⟨rest, i, hfree, -⟩ := take_init hpos (hlen ▸ hone) (hlen ▸ hlt)
      have hnil := hfull (reg.addr, _) (by rw [hpool₁]; exact List.mem_cons_self)
      rw [hfree] at hnil
      simp at hnil
    · rw [hpool₁, List.nil_append, List.mem_singleton] at he
      subst he
      refine ⟨_, mr, ?_, hok, fun ⟨e, he, _⟩ => ?_, fun _ => ⟨reg, hregs, hin⟩⟩
      · simp [allocateLocalRDMASlot, hstart, hsearch]
      · rw [hempty] at he
        cases he
  · have hstart : m.firstRegion t first = some m := by
      simp [firstRegion, hempty]
    rcases h.search with ⟨hfull, hsearch, hok⟩ | ⟨mr, regions, hsearch, hok, e, he, hne, -⟩
    · have hflagged : ∀ e ∈ (m.setPool t (flagged (m.nameToMemPool t))).nameToMemPool t,
          e.2.freeList = [] ∧ e.2.usedUp = true := by
        intro e he
        rw [setPool_self] at he
        obtain ⟨d, hd, rfl⟩ := List.mem_map.mp he
        exact ⟨hfull d hd, rfl⟩
      have hne : (m.setPool t (flagged (m.nameToMemPool t))).nameToMemPool t ≠ [] := by
        simpa [flagged] using hempty
      obtain ⟨m', mr, reg, hgrow, hok', hregs, hin⟩ := hok.growPool ht hne hflagged hmore
      refine ⟨m', mr, ?_, hok', fun ⟨e, he, hfree⟩ => absurd (hfull e he) hfree,
        fun _ => ⟨reg, hregs, hin⟩⟩
      simp [allocateLocalRDMASlot, hstart, hsearch, hgrow]
    · refine ⟨_, mr, ?_, hok, fun _ => rfl, fun hfull => absurd (hfull e he) hne⟩
      simp [allocateLocalRDMASlot, hstart, hsearch]

/-- The slot is available in its pool. -/
def FreeSlot (m : RdmaManager) (t : ChunkType) (mr : IbvMr) : Prop :=
  ∃ e ∈ m.nameToMemPool t, e.2.Free mr

/-- **A free** of a slot in use finds its region, by either function, and makes just this slot
available. -/
lemma Ok.deallocate (h : m.Ok live) {mr : IbvMr} (he : (a, arr) ∈ m.nameToMemPool t)
    (hmr : arr.Taken mr) :
    ∃ m', m.deallocateLocalRDMASlot mr.addr t = some (m', true) ∧
      m.deallocateInRegion mr arr.mrOri t = some (m', true) ∧ m'.Ok (live.erase (t, mr)) ∧
      ∀ t' mr', m'.FreeSlot t' mr' ↔ m.FreeSlot t' mr' ∨ (t', mr') = (t, mr) := by
  obtain ⟨i, hi, htaken, rfl⟩ := hmr
  obtain ⟨hok, haddr, -⟩ : arr.Ok (m.nameToChunksize t) ∧ arr.mrOri.addr = a ∧ _ :=
    h.arrays t (a, arr) he
  obtain ⟨arr', hdealloc, hok', hmr, htaken', hfree'⟩ := hok.deallocate hi htaken
  obtain ⟨pre, post, hpool, hpre, hpost⟩ := OrderedMap.exists_split (h.sorted t) he
  have hslot : (arr.slot i).addr = a + i * m.nameToChunksize t := by
    rw [hok.slot_eq hi, ← haddr]
  have hoffset : toInt (((arr.slot i).addr - a) / m.nameToChunksize t) = (i : ℤ) := by
    rw [hslot, Nat.add_sub_cancel_left, Nat.mul_div_cancel _ hok.chunk_pos,
      toInt_natCast (hi.trans hok.size_lt)]
  obtain ⟨hin, hin'⟩ := hok.slot_inside hi
  have hpos : 0 < (arr.slot i).length := by
    rw [hok.slot_eq hi]
    exact hok.chunk_pos
  have hbehind : ∀ e ∈ post, (arr.slot i).addr < e.1 := by
    intro e hepost
    have hemem : e ∈ m.nameToMemPool t := by simp [hpool, hepost]
    have hlt := hpost e hepost
    have haddr' := (h.arrays t e hemem).2.1
    have hapart := h.apart t t (a, arr) e he hemem fun heq => hlt.ne (Prod.mk.inj heq).2
    unfold IbvMr.Apart at hapart
    dsimp only at hapart
    omega
  -- the two functions find the number of the slot with the chunk size of the array or of the pool
  have haccess : ∀ number : InUseArray → ℤ, number arr = i →
      OrderedMap.access a (fun arr => arr.deallocateMemorySlot (number arr)) (m.nameToMemPool t) =
        some (true, pre ++ (a, arr') :: post) := by
    intro number hnumber
    rw [hpool, OrderedMap.access_split _ fun e he => (hpre e he).ne, hnumber, hdealloc]
  refine ⟨m.setPool t (pre ++ (a, arr') :: post), ?_, ?_,
    h.giveBack hpool hi hok' hmr htaken', fun t' mr' => ?_⟩
  · have hpred : OrderedMap.predecessor (arr.slot i).addr (m.nameToMemPool t) = some (a, arr) := by
      rw [hpool]
      exact OrderedMap.predecessor_split hpre (by omega) hbehind
    have hoff : (arr.slot i).addr - a < arr.mrOri.length := by omega
    simp only [deallocateLocalRDMASlot, hpred, if_pos hoff]
    rw [haccess (fun arr => toInt (_ / arr.chunkSize)) (by rw [hok.chunkSize_eq, hoffset])]
    rfl
  · simp only [deallocateInRegion, haddr]
    rw [haccess (fun _ => _) hoffset]
    rfl
  · have hhere : (m.setPool t (pre ++ (a, arr') :: post)).FreeSlot t mr' ↔
        m.FreeSlot t mr' ∨ mr' = arr.slot i := by
      rw [FreeSlot, FreeSlot, setPool_self, hpool, exists_mem_split, exists_mem_split, hfree',
        or_assoc]
    by_cases ht : t' = t
    · subst ht
      simpa using hhere
    · simp [FreeSlot, setPool_of_ne ht, ht]

lemma Ok.live_apart (h : m.Ok live) : live.Pairwise fun a b => a.2.Apart b.2 := by
  refine h.live_nodup.pairwise_of_forall_ne ?_
  rintro ⟨t, mr⟩ hmr ⟨t', mr'⟩ hmr' hne
  obtain ⟨e, he, i, hi, -, rfl⟩ := (h.live_iff t mr).mp hmr
  obtain ⟨e', he', j, hj, -, rfl⟩ := (h.live_iff t' mr').mp hmr'
  by_cases hkey : (t, e.1) = (t', e'.1)
  · obtain ⟨rfl, hsame⟩ := Prod.mk.inj hkey
    obtain rfl : e = e' := OrderedMap.eq_of_key (h.sorted t) he he' hsame
    exact (h.arrays t e he).1.slot_apart hi hj fun hij => hne (by rw [hij])
  · exact h.slots_apart he he' hi hj hkey

lemma Ok.live_inside (h : m.Ok live) {mr : IbvMr} (hmr : (t, mr) ∈ live) :
    ∃ region ∈ m.localMemRegions, (∃ e ∈ m.nameToMemPool t, e.2.mrOri = region) ∧
      (∃ k, mr.addr = region.addr + k * m.nameToChunksize t) ∧ mr.length = m.nameToChunksize t ∧
      mr.addr + mr.length ≤ region.addr + region.length := by
  obtain ⟨e, he, i, hi, -, rfl⟩ := (h.live_iff t mr).mp hmr
  obtain ⟨hok, -, hreg⟩ := h.arrays t e he
  refine ⟨e.2.mrOri, hreg, ⟨e, he, rfl⟩, ⟨i, ?_⟩, ?_, (hok.slot_inside hi).2⟩
  · rw [hok.slot_eq hi]
  · rw [hok.slot_eq hi]

/-- Memory registered for a pool whose regions are not kept changes nothing about slots. -/
lemma Ok.register_elsewhere (h : m.Ok live) (ht : ¬m.Maintained t) {size : ℕ}
    {fresh : Registration} {r : RdmaManager × IbvMr}
    (hreg : m.localMemoryRegister size t fresh = some r) : r.1.Ok live := by
  rw [localMemoryRegister, Option.map_eq_some_iff] at hreg
  obtain ⟨r', hmemory, rfl⟩ := hreg
  rw [if_neg ht]
  rw [registeredMemory] at hmemory
  split at hmemory
  · obtain ⟨mr, -, rfl⟩ := Option.map_eq_some_iff.mp hmemory
    exact ⟨h.sizes, h.sorted, h.arrays, h.apart, h.live_iff, h.live_nodup⟩
  · split at hmemory
    · cases hmemory
    · obtain rfl := Option.some.inj hmemory
      refine ⟨h.sizes, h.sorted, fun t' e he => ?_, h.apart, h.live_iff, h.live_nodup⟩
      obtain ⟨hok, haddr, hmem⟩ := h.arrays t' e he
      exact ⟨hok, haddr, List.mem_append_left _ hmem⟩

/-- A manager before its first registration.  The regions of a pool are to hold at least one chunk,
and fewer than `2 ^ 31`. -/
structure Start (m : RdmaManager) : Prop where
  sizes : ∀ t, m.Maintained t → 0 < m.nameToChunksize t ∧
    m.nameToChunksize t ≤ m.allocatedSize t ∧ m.allocatedSize t / m.nameToChunksize t < 2 ^ 31
  empty : ∀ t, m.nameToMemPool t = []

lemma Start.ok (h : m.Start) : m.Ok [] where
  sizes := h.sizes
  sorted t := by
    rw [h.empty]
    exact List.Pairwise.nil
  arrays t e he := by
    rw [h.empty] at he
    cases he
  apart t t' e e' he := by
    rw [h.empty] at he
    cases he
  live_iff t mr := by
    simp [h.empty]
  live_nodup := List.nodup_nil

end RdmaManager

/-! ## Runs -/

/-- The manager and the slots that were handed out and not given back. -/
structure SlotState where
  manager : RdmaManager
  live : List (ChunkType × IbvMr)

/-- Calls of the manager. -/
inductive SlotCall
  | allocate (pool : ChunkType) (first more : Registration)
  | deallocate (mr : IbvMr) (pool : ChunkType)
  | deallocateIn (mr mapPointer : IbvMr) (pool : ChunkType)
  | register (size : ℕ) (pool : ChunkType) (fresh : Registration)

/-- What a call does.  Slots are allocated in pools whose regions are kept, those freed are in use,
and memory that is registered is apart from what was registered before. -/
inductive SlotStep (s : SlotState) : SlotCall → SlotState → Prop
  | allocate {pool : ChunkType} {first more : Registration} {m : RdmaManager} {mr : IbvMr} :
      s.manager.Maintained pool →
      s.manager.Fresh (s.manager.allocatedSize pool) first →
      s.manager.Fresh (s.manager.allocatedSize pool) more →
      s.manager.allocateLocalRDMASlot pool first more = some (m, mr) →
      SlotStep s (.allocate pool first more) ⟨m, s.live ++ [(pool, mr)]⟩
  | deallocate {mr : IbvMr} {pool : ChunkType} {m : RdmaManager} {status : Bool} :
      (pool, mr) ∈ s.live →
      s.manager.deallocateLocalRDMASlot mr.addr pool = some (m, status) →
      SlotStep s (.deallocate mr pool) ⟨m, s.live.erase (pool, mr)⟩
  | deallocateIn {mr : IbvMr} {e : ℕ × InUseArray} {pool : ChunkType} {m : RdmaManager}
      {status : Bool} :
      e ∈ s.manager.nameToMemPool pool → e.2.Taken mr →
      s.manager.deallocateInRegion mr e.2.mrOri pool = some (m, status) →
      SlotStep s (.deallocateIn mr e.2.mrOri pool) ⟨m, s.live.erase (pool, mr)⟩
  | register {size : ℕ} {pool : ChunkType} {fresh : Registration} {m : RdmaManager} {mr : IbvMr} :
      (s.manager.Maintained pool → s.manager.nameToChunksize pool ≤ size ∧
        size / s.manager.nameToChunksize pool < 2 ^ 31) →
      s.manager.Fresh size fresh →
      s.manager.localMemoryRegister size pool fresh = some (m, mr) →
      SlotStep s (.register size pool fresh) ⟨m, s.live⟩

lemma SlotStep.ok {s s' : SlotState} {call : SlotCall} (hok : s.manager.Ok s.live)
    (hstep : SlotStep s call s') : s'.manager.Ok s'.live := by
  cases hstep with
  | allocate ht hfirst hmore halloc =>
      obtain ⟨m', mr', halloc', hok', -⟩ := hok.allocate ht hfirst hmore
      obtain ⟨rfl, rfl⟩ := Prod.mk.inj (Option.some.inj (halloc.symm.trans halloc'))
      exact hok'
  | deallocate hlive hfree =>
      obtain ⟨e, he, htaken⟩ := (hok.live_iff _ _).mp hlive
      obtain ⟨m', hfree', -, hok', -⟩ := hok.deallocate he htaken
      obtain ⟨rfl, -⟩ := Prod.mk.inj (Option.some.inj (hfree.symm.trans hfree'))
      exact hok'
  | deallocateIn he htaken hfree =>
      obtain ⟨m', -, hfree', hok', -⟩ := hok.deallocate he htaken
      obtain ⟨rfl, -⟩ := Prod.mk.inj (Option.some.inj (hfree.symm.trans hfree'))
      exact hok'
  | @register size pool fresh m mr hsize hfresh hreg =>
      by_cases ht : s.manager.Maintained pool
      · obtain ⟨hone, hlt⟩ := hsize ht
        obtain ⟨m', mr', -, -, hreg', hok', -⟩ := hok.register ht hone hlt hfresh
        obtain ⟨rfl, -⟩ := Prod.mk.inj (Option.some.inj (hreg.symm.trans hreg'))
        exact hok'
      · exact hok.register_elsewhere ht hreg

/-- **The slot allocator.**  After every run of calls the slots in use do not overlap, and each is a
chunk of a region of its pool.  An allocation succeeds; it registers a region just when all regions
of the pool are full, and takes its slot there.  A free of a slot in use succeeds, and makes this
slot available and no other. -/
theorem rdma_slot_allocator {m : RdmaManager} {calls : List SlotCall} {s : SlotState}
    (hstart : m.Start) (hrun : Lts.Run SlotStep ⟨m, []⟩ calls s) :
    s.live.Pairwise (fun a b => a.2.Apart b.2) ∧
    (∀ t mr, (t, mr) ∈ s.live → ∃ region ∈ s.manager.localMemRegions,
      (∃ e ∈ s.manager.nameToMemPool t, e.2.mrOri = region) ∧
      (∃ k, mr.addr = region.addr + k * s.manager.nameToChunksize t) ∧
      mr.length = s.manager.nameToChunksize t ∧
      mr.addr + mr.length ≤ region.addr + region.length) ∧
    (∀ t first more, s.manager.Maintained t →
      s.manager.Fresh (s.manager.allocatedSize t) first →
      s.manager.Fresh (s.manager.allocatedSize t) more →
      ∃ m' mr, s.manager.allocateLocalRDMASlot t first more = some (m', mr) ∧
        ((∃ e ∈ s.manager.nameToMemPool t, e.2.freeList ≠ []) →
          m'.localMemRegions = s.manager.localMemRegions) ∧
        ((∀ e ∈ s.manager.nameToMemPool t, e.2.freeList = []) → ∃ region,
          m'.localMemRegions = s.manager.localMemRegions ++ [region] ∧
          region.addr ≤ mr.addr ∧ mr.addr + mr.length ≤ region.addr + region.length)) ∧
    (∀ t mr, (t, mr) ∈ s.live → ∃ m',
      s.manager.deallocateLocalRDMASlot mr.addr t = some (m', true) ∧
      ∀ t' mr', m'.FreeSlot t' mr' ↔ s.manager.FreeSlot t' mr' ∨ (t', mr') = (t, mr)) := by
  have hok : s.manager.Ok s.live :=
    hrun.invariant (I := fun s => s.manager.Ok s.live) hstart.ok fun _ _ _ h hstep => hstep.ok h
  refine ⟨hok.live_apart, fun t mr => hok.live_inside, fun t first more ht hfirst hmore => ?_,
    fun t mr hlive => ?_⟩
  · obtain ⟨m', mr, halloc, -, hroom, hfull⟩ := hok.allocate ht hfirst hmore
    exact ⟨m', mr, halloc, hroom, hfull⟩
  · obtain ⟨e, he, htaken⟩ := (hok.live_iff t mr).mp hlive
    obtain ⟨m', hfree, -, -, hslots⟩ := hok.deallocate he htaken
    exact ⟨m', hfree, hslots⟩

/-- A manager with chunks of four bytes and regions of two chunks. -/
def sampleManager : RdmaManager := ⟨0, fun _ => 4, fun _ => 8, fun _ => [], [], []⟩

/-- Two allocations fill the first region, a third one registers another, and a free finds its slot
in the first. -/
theorem rdma_slot_allocator_two_regions :
    ∃ calls s, Lts.Run SlotStep ⟨sampleManager, []⟩ calls s ∧
      s.live = [(.message, ⟨100, 4, 0, 0⟩), (.message, ⟨204, 4, 0, 0⟩)] ∧
      s.live.Pairwise (fun a b => a.2.Apart b.2) ∧
      ∃ m', s.manager.deallocateLocalRDMASlot 100 .message = some (m', true) ∧
        m'.FreeSlot .message ⟨100, 4, 0, 0⟩ := by
  have hstart : sampleManager.Start :=
    ⟨fun _ _ => by simp [sampleManager, RdmaManager.allocatedSize], fun _ => rfl⟩
  have hrun : ∃ calls s, Lts.Run SlotStep ⟨sampleManager, []⟩ calls s ∧
      s.live = [(.message, ⟨100, 4, 0, 0⟩), (.message, ⟨204, 4, 0, 0⟩)] :=
    ⟨[.allocate .message ⟨100, 0, 0⟩ ⟨300, 0, 0⟩, .allocate .message ⟨300, 0, 0⟩ ⟨300, 0, 0⟩,
        .allocate .message ⟨300, 0, 0⟩ ⟨200, 0, 0⟩, .deallocate ⟨104, 4, 0, 0⟩ .message], _,
      .cons (.allocate (.inr rfl) (by decide) (by decide) rfl)
        (.cons (.allocate (.inr rfl) (by decide) (by decide) rfl)
          (.cons (.allocate (.inr rfl) (by decide) (by decide) rfl)
            (.cons (.deallocate (by decide) rfl) .nil))), rfl⟩
  obtain ⟨calls, s, hrun, hlive⟩ := hrun
  obtain ⟨hapart, -, -, hfree⟩ := rdma_slot_allocator hstart hrun
  obtain ⟨m', hcall, hslots⟩ := hfree .message ⟨100, 4, 0, 0⟩ (by simp [hlive])
  exact ⟨calls, s, hrun, hlive, hapart, m', hcall, (hslots _ _).mpr (.inr rfl)⟩

end GroundDB
