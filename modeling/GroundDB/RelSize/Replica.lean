import GroundDB.RelSize.ComputeNode

/-!
# Relation sizes on a secondary node

A secondary compute node replays the WAL (`StartupXLOG`) on the pages its buffer pool holds; a page
it does not hold is skipped, since it will be read from the storage node.  Sizes are never
revisited: `rpcmdnblocks` answers a cached size for ever, and only redo of a page in the pool can
raise it, when it finds the page past the cached end.

So the size of a fork stays fresh if every record finds the fork either cached with a size that
holds its blocks, or neither cached nor in the pool (`replayed_size_fresh`).  A query followed by
a record for a later block breaks it (`replayed_size_stale`).
-/

namespace GroundDB

open Lts Overlay Function

/-! ## Redo of one page -/

/-- `ReadBufferMode`. -/
inductive ReadBufferMode
  | normal | zeroAndLock | zeroAndCleanupLock | zeroOnError | normalNoLog
deriving DecidableEq

/-- How single-page redo reaches its page: through `XLogReadBufferExtended`, or through
`visibilitymap_pin`. -/
inductive RedoAccess
  | readBuffer (mode : ReadBufferMode)
  | visibilityMap

/-- A page a record refers to. -/
structure PageRef where
  rel : RelTag
  blkno : BlockNumber
  access : RedoAccess

/-- The buffer pool: for a page in it, whether the page is new (`PageIsNew`). -/
abbrev BufferPool := RelTag → UInt32 → Option Bool

/-- A secondary node: the storage manager and the `smgr_vm_nblocks` of the startup process, `none`
for `InvalidBlockNumber`. -/
structure Replica where
  node : ComputeNode
  vmNblocks : RelTag → Option UInt32

section Redo

variable (pool : BufferPool) (rel : RelTag)

/-- `ReadBuffer_common` with `P_NEW`: data beyond the end of the fork is an error. -/
def readNewBlock (s : ComputeNode) : Option (ComputeNode × UInt32) :=
  let (s, blockNum) := rpcmdnblocks s rel
  if pool rel blockNum = some false then none
  else some (rpcmdextend true s rel blockNum, blockNum)

/-- The loop of `XLogReadBufferExtended` that extends the fork through block `blkno`.  Every round
but the last adds a block below `blkno`, so `blkno + 1` rounds are enough. -/
def extendThrough (blkno : UInt32) : ℕ → ComputeNode → Option ComputeNode
  | 0, _ => none
  | n + 1, s => do
    let (s, block) ← readNewBlock pool rel s
    if block < blkno then extendThrough blkno n s else some s

/-- `XLogReadBufferExtended`, as far as it is about sizes. -/
def xlogReadBufferExtended (s : ComputeNode) (blkno : UInt32) (mode : ReadBufferMode) :
    Option ComputeNode :=
  let s := rpcmdcreate true s rel
  let (s, lastblock) := rpcmdnblocks s rel
  if blkno < lastblock then some s
  else match mode with
    | .normal | .normalNoLog => some s
    | .zeroAndLock | .zeroAndCleanupLock | .zeroOnError =>
      extendThrough pool rel blkno (blkno.toNat + 1) s

/-- `vm_extend`. -/
def vmExtend (s : Replica) (vmNblocks : UInt32) : Replica :=
  let node :=
    if (s.vmNblocks rel = some 0 ∨ s.vmNblocks rel = none) ∧ rpcmdexists s.node rel = false then
      rpcmdcreate true s.node rel
    else s.node
  let (node, now) := rpcmdnblocks node rel
  ⟨vmExtendLoop (fun block node => rpcmdextend true node rel block)
      (vmNblocks.toNat - now.toNat) now node,
    update s.vmNblocks rel (some (max now vmNblocks))⟩

/-- `vm_readbuf` with `extend`. -/
def vmReadbuf (s : Replica) (blkno : UInt32) : Replica :=
  let s : Replica :=
    match s.vmNblocks rel with
    | some _ => s
    | none =>
      if rpcmdexists s.node rel then
        let (node, nblocks) := rpcmdnblocks s.node rel
        ⟨node, update s.vmNblocks rel (some nblocks)⟩
      else { s with vmNblocks := update s.vmNblocks rel (some 0) }
  if (s.vmNblocks rel).getD 0 ≤ blkno then vmExtend rel s (blkno + 1) else s

end Redo

/-- One page of a record: skipped unless `FindPageInBuffer` finds it. -/
def replayPage (pool : BufferPool) (s : Replica) (ref : PageRef) : Option Replica :=
  match pool ref.rel ref.blkno.1 with
  | none => some s
  | some _ =>
    match ref.access with
    | .readBuffer mode =>
      (xlogReadBufferExtended pool ref.rel s.node ref.blkno.1 mode).map fun node =>
        { s with node := node }
    | .visibilityMap => some (vmReadbuf ref.rel s ref.blkno.1)

/-- The forks of the storage node as of a record that refers to the given pages. -/
def growTo (m : FileModel) (refs : List PageRef) : FileModel :=
  refs.foldl (fun m ref => m.extend ref.rel ref.blkno.1) m

/-- What happens on a secondary node: a record is replayed while the pool holds some pages, a size
is asked for, a fork is truncated. -/
inductive ReplicaOp
  | replay (refs : List PageRef) (pool : BufferPool)
  | nblocks (rel : RelTag)
  | truncate (rel : RelTag) (n : UInt32)

/-- The node after an operation that completes. -/
def replicaStep (s : Replica) : ReplicaOp → Option Replica
  | .replay refs pool =>
    refs.foldlM (replayPage pool)
      { s with node := { s.node with remote := growTo s.node.remote refs } }
  | .nblocks rel => some { s with node := (rpcmdnblocks s.node rel).1 }
  | .truncate rel n =>
    let node := rpcmdtruncate true s.node rel n
    some { s with node := { node with remote := node.remote.truncate rel n } }

/-- The secondary node as a transition system. -/
def ReplicaStep (s : Replica) (op : ReplicaOp) (s' : Replica) : Prop :=
  replicaStep s op = some s'

/-! ## Redo and the size of one fork -/

/-- The size of `rel` and the remote forks are as before. -/
def SameSize (rel : RelTag) (s s' : ComputeNode) : Prop :=
  cachedSize s'.cache rel = cachedSize s.cache rel ∧ s'.remote = s.remote

section Frame

variable {pool : BufferPool} {rel rel' : RelTag} {s s' : ComputeNode} {n : UInt32}

lemma SameSize.refl (rel : RelTag) (s : ComputeNode) : SameSize rel s s := ⟨rfl, rfl⟩

lemma SameSize.trans {s'' : ComputeNode} (h : SameSize rel s s') (h' : SameSize rel s' s'') :
    SameSize rel s s'' :=
  ⟨h'.1.trans h.1, h'.2.trans h.2⟩

lemma sameSize_create (h : rel ≠ rel') (s : ComputeNode) :
    SameSize rel s (rpcmdcreate true s rel') :=
  ⟨by rw [cachedSize_rpcmdcreate, update_of_ne h], rfl⟩

lemma sameSize_nblocks (h : rel ≠ rel') (s : ComputeNode) :
    SameSize rel s (rpcmdnblocks s rel').1 :=
  ⟨by rw [cachedSize_rpcmdnblocks, update_of_ne h], rpcmdnblocks_remote s rel'⟩

lemma sameSize_extend (h : rel ≠ rel') (s : ComputeNode) (b : UInt32) :
    SameSize rel s (rpcmdextend true s rel' b) :=
  ⟨by rw [cachedSize_rpcmdextend, update_of_ne h], rfl⟩

lemma sameSize_create_cached (h : cachedSize s.cache rel = some n) :
    SameSize rel s (rpcmdcreate true s rel) := by
  refine ⟨?_, rfl⟩
  rw [cachedSize_rpcmdcreate, update_self, h, Option.getD_some]

lemma rpcmdnblocks_cached (h : cachedSize s.cache rel = some n) :
    rpcmdnblocks s rel = (s, n) := by
  simp only [rpcmdnblocks, getRelSizeCache_trans, h]

lemma sameSize_extendThrough (h : rel ≠ rel') (blkno : UInt32) (k : ℕ)
    (hs : extendThrough pool rel' blkno k s = some s') : SameSize rel s s' := by
  induction k generalizing s with
  | zero => cases hs
  | succ k ih =>
      simp only [extendThrough, readNewBlock] at hs
      split at hs
      · cases hs
      · have hround : SameSize rel s (rpcmdextend true (rpcmdnblocks s rel').1 rel'
            (rpcmdnblocks s rel').2) :=
          (sameSize_nblocks h s).trans (sameSize_extend h _ _)
        simp only [Option.bind_eq_bind, Option.bind_some] at hs
        split at hs
        · exact hround.trans (ih hs)
        · obtain rfl := Option.some.inj hs
          exact hround

lemma sameSize_readBuffer (h : rel ≠ rel') {blkno : UInt32} {mode : ReadBufferMode}
    (hs : xlogReadBufferExtended pool rel' s blkno mode = some s') : SameSize rel s s' := by
  have hopen : SameSize rel s (rpcmdnblocks (rpcmdcreate true s rel') rel').1 :=
    (sameSize_create h s).trans (sameSize_nblocks h _)
  simp only [xlogReadBufferExtended] at hs
  split at hs
  · obtain rfl := Option.some.inj hs
    exact hopen
  · split at hs
    case h_1 => obtain rfl := Option.some.inj hs; exact hopen
    case h_2 => obtain rfl := Option.some.inj hs; exact hopen
    all_goals exact hopen.trans (sameSize_extendThrough h _ _ hs)

lemma sameSize_readBuffer_cached {blkno : UInt32} {mode : ReadBufferMode}
    (hc : cachedSize s.cache rel = some n) (hlt : blkno < n)
    (hs : xlogReadBufferExtended pool rel s blkno mode = some s') : SameSize rel s s' := by
  have hcreate := sameSize_create_cached hc
  simp only [xlogReadBufferExtended, rpcmdnblocks_cached (hcreate.1.trans hc), if_pos hlt] at hs
  obtain rfl := Option.some.inj hs
  exact hcreate

lemma sameSize_vmExtendLoop (h : rel ≠ rel') (k : ℕ) (now : UInt32) (s : ComputeNode) :
    SameSize rel s (vmExtendLoop (fun block s => rpcmdextend true s rel' block) k now s) := by
  induction k generalizing now s with
  | zero => exact SameSize.refl rel s
  | succ k ih => exact (sameSize_extend h s now).trans (ih _ _)

lemma sameSize_vmExtend (h : rel ≠ rel') (r : Replica) (k : UInt32) :
    SameSize rel r.node (vmExtend rel' r k).node := by
  simp only [vmExtend]
  refine SameSize.trans ?_ ((sameSize_nblocks h _).trans (sameSize_vmExtendLoop h _ _ _))
  split
  · exact sameSize_create h _
  · exact SameSize.refl _ _

lemma sameSize_vmExtend_cached {r : Replica} {k : UInt32}
    (hc : cachedSize r.node.cache rel = some n) (hle : k ≤ n) :
    SameSize rel r.node (vmExtend rel r k).node := by
  have hexists : rpcmdexists r.node rel = true := by
    simp [rpcmdexists, getRelSizeCache_trans, hc, UInt32.le_iff_toNat_le]
  have hloop : k.toNat - n.toNat = 0 := by
    have := UInt32.le_iff_toNat_le.mp hle
    omega
  simp [vmExtend, hexists, rpcmdnblocks_cached hc, hloop, vmExtendLoop, SameSize.refl]

lemma sameSize_vmReadbuf (h : rel ≠ rel') (r : Replica) (blkno : UInt32) :
    SameSize rel r.node (vmReadbuf rel' r blkno).node := by
  simp only [vmReadbuf]
  have hsize : ∀ r' : Replica, SameSize rel r.node r'.node →
      SameSize rel r.node
        (if (r'.vmNblocks rel').getD 0 ≤ blkno then vmExtend rel' r' (blkno + 1) else r').node := by
    intro r' hr'
    split
    · exact hr'.trans (sameSize_vmExtend h _ _)
    · exact hr'
  apply hsize
  split
  · exact SameSize.refl _ _
  · split
    · exact sameSize_nblocks h _
    · exact SameSize.refl _ _

lemma sameSize_vmReadbuf_cached {r : Replica} {blkno : UInt32}
    (hc : cachedSize r.node.cache rel = some n) (hle : blkno + 1 ≤ n) :
    SameSize rel r.node (vmReadbuf rel r blkno).node := by
  have hexists : rpcmdexists r.node rel = true := by
    simp [rpcmdexists, getRelSizeCache_trans, hc, UInt32.le_iff_toNat_le]
  simp only [vmReadbuf]
  have hsize : ∀ r' : Replica, r'.node = r.node →
      SameSize rel r.node
        (if (r'.vmNblocks rel).getD 0 ≤ blkno then vmExtend rel r' (blkno + 1) else r').node := by
    rintro ⟨node, nblocks⟩ rfl
    split
    · exact sameSize_vmExtend_cached hc hle
    · exact SameSize.refl _ _
  apply hsize
  split
  · rfl
  · simp only [hexists, if_true, rpcmdnblocks_cached hc]

end Frame

/-! ## Replay of a record -/

/-- A page that replay may meet without losing the size of `rel`: a page of another fork, a page
below the cached end of the fork, or a page outside the pool if the fork is not cached. -/
def RefKept (rel : RelTag) (s : ComputeNode) (pool : BufferPool) (ref : PageRef) : Prop :=
  ref.rel = rel → match cachedSize s.cache rel with
    | some n => ref.blkno.1.toNat + 1 ≤ n.toNat
    | none => pool rel ref.blkno.1 = none

section Replay

variable {pool : BufferPool} {rel : RelTag} {s s' : Replica}

lemma BlockNumber.toNat_succ (b : BlockNumber) : (b.1 + 1).toNat = b.1.toNat + 1 := by
  have hne : b.1.toNat ≠ 0xFFFFFFFF := fun h => b.2 (UInt32.toNat_inj.mp h)
  have hlt := UInt32.toNat_lt b.1
  rw [UInt32.toNat_add]
  simp
  omega

/-- **One page.**  Replay of a page that keeps to the condition keeps the size of `rel`. -/
lemma sameSize_replayPage {ref : PageRef} (hkept : RefKept rel s.node pool ref)
    (hs : replayPage pool s ref = some s') : SameSize rel s.node s'.node := by
  unfold replayPage at hs
  split at hs
  · obtain rfl := Option.some.inj hs
    exact SameSize.refl _ _
  · rename_i hpool
    by_cases hrel : rel = ref.rel
    · subst hrel
      have hkept := hkept rfl
      cases hc : cachedSize s.node.cache ref.rel with
      | none =>
          -- the page is in the pool, against the condition
          simp only [hc, hpool] at hkept
          cases hkept
      | some n =>
          simp only [hc] at hkept
          split at hs
          · obtain ⟨node, hnode, rfl⟩ := Option.map_eq_some_iff.mp hs
            exact sameSize_readBuffer_cached hc (UInt32.lt_iff_toNat_lt.mpr (by omega)) hnode
          · obtain rfl := Option.some.inj hs
            refine sameSize_vmReadbuf_cached hc (UInt32.le_iff_toNat_le.mpr ?_)
            rwa [BlockNumber.toNat_succ]
    · split at hs
      · obtain ⟨node, hnode, rfl⟩ := Option.map_eq_some_iff.mp hs
        exact sameSize_readBuffer hrel hnode
      · obtain rfl := Option.some.inj hs
        exact sameSize_vmReadbuf hrel _ _

/-- **One record.** -/
lemma sameSize_replay (refs : List PageRef) (hkept : ∀ ref ∈ refs, RefKept rel s.node pool ref)
    (hs : refs.foldlM (replayPage pool) s = some s') : SameSize rel s.node s'.node := by
  induction refs generalizing s with
  | nil =>
      obtain rfl := Option.some.inj hs
      exact SameSize.refl _ _
  | cons ref refs ih =>
      rw [List.foldlM_cons] at hs
      obtain ⟨t, ht, hrest⟩ := Option.bind_eq_some_iff.mp hs
      have hpage := sameSize_replayPage (hkept ref List.mem_cons_self) ht
      refine hpage.trans (ih ?_ hrest)
      intro ref' hmem
      have := hkept ref' (List.mem_cons_of_mem _ hmem)
      simpa only [RefKept, hpage.1] using this

lemma le_growTo (refs : List PageRef) {m : FileModel} {n : UInt32} (h : m rel = some n) :
    ∃ n', growTo m refs rel = some n' ∧ n.toNat ≤ n'.toNat := by
  induction refs generalizing m n with
  | nil => exact ⟨n, h, le_rfl⟩
  | cons ref refs ih =>
      have hmax : ∀ k : UInt32, n.toNat ≤ (max n k).toNat := by
        intro k
        change n.toNat ≤ (if n ≤ k then k else n).toNat
        split
        · exact UInt32.le_iff_toNat_le.mp ‹_›
        · exact le_rfl
      by_cases hrel : rel = ref.rel
      · subst hrel
        have hext : m.extend ref.rel ref.blkno.1 ref.rel = some (max n (ref.blkno.1 + 1)) := by
          simp [FileModel.extend, h]
        obtain ⟨n', hn', hle⟩ := ih hext
        exact ⟨n', hn', (hmax _).trans hle⟩
      · exact ih (by simpa [FileModel.extend, hrel] using h)

lemma mem_growTo {refs : List PageRef} {ref : PageRef} (hmem : ref ∈ refs) (m : FileModel) :
    ∃ n, growTo m refs ref.rel = some n ∧ ref.blkno.1.toNat + 1 ≤ n.toNat := by
  induction refs generalizing m with
  | nil => cases hmem
  | cons ref' refs ih =>
      rcases List.mem_cons.mp hmem with rfl | hmem
      · have hext : m.extend ref.rel ref.blkno.1 ref.rel
            = some (max ((m ref.rel).getD 0) (ref.blkno.1 + 1)) := by
          simp [FileModel.extend]
        obtain ⟨n, hn, hle⟩ := le_growTo refs hext
        refine ⟨n, hn, le_trans ?_ hle⟩
        rw [← BlockNumber.toNat_succ]
        change _ ≤ (if _ ≤ ref.blkno.1 + 1 then ref.blkno.1 + 1 else _).toNat
        split
        · exact le_rfl
        · exact (UInt32.lt_iff_toNat_lt.mp (UInt32.not_le.mp ‹_›)).le
      · exact ih hmem _

end Replay

/-! ## Runs -/

/-- The blocks of `rel` that replayed records referred to since its last truncation. -/
def replayedSince (rel : RelTag) (ops : List ReplicaOp) : List BlockNumber :=
  ops.foldl (fun bs op => match op with
    | .replay refs _ => bs ++ (refs.filter (·.rel = rel)).map (·.blkno)
    | .truncate rel' _ => if rel' = rel then [] else bs
    | .nblocks _ => bs) []

/-- The steps that keep the size of `rel` fresh. -/
def ReplayKept (rel : RelTag) (s : Replica) : ReplicaOp → Prop
  | .replay refs pool => ∀ ref ∈ refs, RefKept rel s.node pool ref
  | .nblocks _ | .truncate _ _ => True

/-- The invariant: the storage node and the cache, if it holds the fork, know every block. -/
def SizeFresh (rel : RelTag) (ops : List ReplicaOp) (s : Replica) : Prop :=
  ∀ b ∈ replayedSince rel ops,
    (∃ n, s.node.remote rel = some n ∧ b.1.toNat + 1 ≤ n.toNat)
    ∧ ∀ n, cachedSize s.node.cache rel = some n → b.1.toNat + 1 ≤ n.toNat

section Runs

variable {rel : RelTag} {ops : List ReplicaOp} {s s' : Replica}

lemma SizeFresh.answer (h : SizeFresh rel ops s) {b : BlockNumber}
    (hb : b ∈ replayedSince rel ops) : b.1.toNat + 1 ≤ (rpcmdnblocks s.node rel).2.toNat := by
  obtain ⟨⟨n, hremote, hle⟩, hcached⟩ := h b hb
  rw [rpcmdnblocks_answer]
  cases hc : cachedSize s.node.cache rel with
  | some v => rw [view_of_some hc]; exact hcached v hc
  | none => rw [view_of_none hc, reportedSize, hremote]; exact hle

lemma SizeFresh.replay {refs : List PageRef} {pool : BufferPool} (h : SizeFresh rel ops s)
    (hkept : ∀ ref ∈ refs, RefKept rel s.node pool ref)
    (hs : replicaStep s (.replay refs pool) = some s') :
    SizeFresh rel (ops ++ [.replay refs pool]) s' := by
  let grown : Replica := { s with node := { s.node with remote := growTo s.node.remote refs } }
  have hgrown : ∀ ref ∈ refs, RefKept rel grown.node pool ref := hkept
  have hsame : SameSize rel grown.node s'.node := sameSize_replay refs hgrown hs
  have hcache : cachedSize s'.node.cache rel = cachedSize s.node.cache rel := hsame.1
  have hremote : s'.node.remote = growTo s.node.remote refs := hsame.2
  intro b hb
  simp only [replayedSince, List.foldl_append, List.foldl_cons, List.foldl_nil,
    List.mem_append] at hb
  rw [hremote, hcache]
  rcases hb with hb | hb
  · obtain ⟨⟨n, hn, hle⟩, hcached⟩ := h b hb
    obtain ⟨n', hn', hle'⟩ := le_growTo refs hn
    exact ⟨⟨n', hn', hle.trans hle'⟩, hcached⟩
  · -- a block of this record: the storage node holds it, and so does the cached size
    obtain ⟨ref, hfilter, rfl⟩ := List.mem_map.mp hb
    obtain ⟨hmem, hrel⟩ := List.mem_filter.mp hfilter
    obtain rfl : ref.rel = rel := by simpa using hrel
    refine ⟨mem_growTo hmem _, fun n hn => ?_⟩
    have := hkept ref hmem rfl
    rwa [hn] at this

lemma SizeFresh.nblocks (h : SizeFresh rel ops s) (rel' : RelTag)
    (hs : replicaStep s (.nblocks rel') = some s') :
    SizeFresh rel (ops ++ [.nblocks rel']) s' := by
  obtain rfl := Option.some.inj hs
  intro b hb
  have hold : b ∈ replayedSince rel ops := by
    simpa [replayedSince, List.foldl_append] using hb
  obtain ⟨hremote, hcached⟩ := h b hold
  refine ⟨by simpa only [rpcmdnblocks_remote] using hremote, fun n hn => ?_⟩
  simp only [cachedSize_rpcmdnblocks] at hn
  by_cases hrel : rel = rel'
  · subst hrel
    rw [update_self] at hn
    obtain ⟨-, rfl⟩ := cacheable_eq_some_iff.mp hn
    exact h.answer hold
  · rw [update_of_ne hrel] at hn
    exact hcached n hn

lemma SizeFresh.truncate (h : SizeFresh rel ops s) (rel' : RelTag) (k : UInt32)
    (hs : replicaStep s (.truncate rel' k) = some s') :
    SizeFresh rel (ops ++ [.truncate rel' k]) s' := by
  obtain rfl := Option.some.inj hs
  intro b hb
  by_cases hrel : rel' = rel
  · simp [replayedSince, List.foldl_append, hrel] at hb
  · have hb : b ∈ replayedSince rel ops := by
      simpa [replayedSince, List.foldl_append, hrel] using hb
    obtain ⟨hremote, hcached⟩ := h b hb
    simp only [rpcmdtruncate, cachedSize_insert, FileModel.truncate,
      update_of_ne (Ne.symm hrel), if_true]
    exact ⟨hremote, hcached⟩

/-- **Replayed sizes are fresh.**  In every run whose records find the fork cached with a size that
holds their blocks, or neither cached nor with one of their pages in the pool, from any cache and
any remote forks, `rpcmdnblocks` answers at least one more than every block a record referred to
since the last truncation. -/
theorem replayed_size_fresh (hrun : Run (Guarded ReplicaStep (ReplayKept rel)) s ops s') :
    ∀ b ∈ replayedSince rel ops, b.1.toNat + 1 ≤ (rpcmdnblocks s'.node rel).2.toNat := by
  have hfresh : SizeFresh rel ops s' := by
    refine hrun.history_invariant ?_ ?_
    · intro b hb
      cases hb
    · rintro ops t op u - h ⟨hkept, hstep⟩
      cases op with
      | replay refs pool => exact h.replay hkept hstep
      | nblocks rel' => exact h.nblocks rel' hstep
      | truncate rel' n => exact h.truncate rel' n hstep
  intro b hb
  exact hfresh.answer hb

end Runs

/-- A secondary node before a fork of three blocks, with nothing cached. -/
def threeBlocks : Replica where
  node := ⟨fun _ => none, fun rel => if rel = sampleFork then some 3 else none⟩
  vmNblocks := fun _ => none

/-- A reference to block 5 of the fork. -/
def blockFive : PageRef := ⟨sampleFork, ⟨5, by decide⟩, .readBuffer .normal⟩

/-- The storage node after the record. -/
def Replica.grown (s : Replica) : Replica :=
  { s with node := { s.node with remote := growTo s.node.remote [blockFive] } }

/-- Without a query before the record, the size is asked of the storage node. -/
theorem replayed_size_fresh_uncached :
    Run (Guarded ReplicaStep (ReplayKept sampleFork)) threeBlocks
        [.replay [blockFive] fun _ _ => none] threeBlocks.grown
      ∧ blockFive.blkno ∈ replayedSince sampleFork [.replay [blockFive] fun _ _ => none]
      ∧ blockFive.blkno.1.toNat + 1
        ≤ (rpcmdnblocks threeBlocks.grown.node sampleFork).2.toNat := by
  have hstep : ReplicaStep threeBlocks (.replay [blockFive] fun _ _ => none)
      threeBlocks.grown := rfl
  have hkept : ReplayKept sampleFork threeBlocks (.replay [blockFive] fun _ _ => none) := by
    intro ref _ _
    have hnone : cachedSize threeBlocks.node.cache sampleFork = none := by decide
    rw [hnone]
  have hmem : blockFive.blkno ∈ replayedSince sampleFork
      [.replay [blockFive] fun _ _ => none] := List.mem_singleton_self _
  exact ⟨.snoc .nil ⟨hkept, hstep⟩, hmem,
    replayed_size_fresh (.snoc .nil ⟨hkept, hstep⟩) _ hmem⟩

/-- **A query before the record leaves a stale size**: it caches three blocks, the record for
block 5 is skipped because its page is not in the pool, and the next query still answers three. -/
theorem replayed_size_stale :
    ∃ s', Run ReplicaStep threeBlocks
        [.nblocks sampleFork, .replay [blockFive] fun _ _ => none] s'
      ∧ blockFive.blkno ∈ replayedSince sampleFork
          [.nblocks sampleFork, .replay [blockFive] fun _ _ => none]
      ∧ (rpcmdnblocks s'.node sampleFork).2 = 3 := by
  let queried : Replica := { threeBlocks with node := (rpcmdnblocks threeBlocks.node sampleFork).1 }
  have hquery : ReplicaStep threeBlocks (.nblocks sampleFork) queried := rfl
  have hreplay : ReplicaStep queried (.replay [blockFive] fun _ _ => none) queried.grown := rfl
  exact ⟨_, .cons hquery (.cons hreplay .nil), List.mem_singleton_self _, by decide⟩

end GroundDB
