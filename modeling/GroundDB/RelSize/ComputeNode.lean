import GroundDB.RelSize.Cache
import GroundDB.Lib.Run

/-!
# The storage manager of a compute node

A compute node reaches the storage node through `rpcmd.c`, which keeps a size cache of its own in
front of the remote forks.  What the storage manager should be is a map from forks to sizes
(`FileModel`): the remote side is assumed to implement it, and the cache should not be noticed.

It is not, as long as every fork is created when it is new, extended at its end and never dropped
(`smgr_refines_files`).  Dropping is not implemented at all: `rpcmdunlink` is empty, and a cached
size is unsigned, so the tests `result >= 0` and `result < 0` that were to recognise a deleted fork
are constant (`unlink_ignored`).
-/

namespace GroundDB

open Lts Overlay Function

/-- A block number: any word but `InvalidBlockNumber`. -/
def BlockNumber := { b : UInt32 // b ≠ invalidSize }

/-! ## The file model -/

/-- The file model: the size of every fork that exists. -/
abbrev FileModel := RelFiles

namespace FileModel

variable (m : FileModel) (rel : RelTag)

/-- A missing fork is made, with no blocks. -/
def create : FileModel := update m rel (some ((m rel).getD 0))

/-- The fork grows to hold a block. -/
def extend (blocknum : UInt32) : FileModel :=
  update m rel (some (max ((m rel).getD 0) (blocknum + 1)))

/-- The fork has `n` blocks. -/
def truncate (n : UInt32) : FileModel := update m rel (some n)

/-- The fork is gone. -/
def unlink : FileModel := update m rel none

end FileModel

/-! ## `rpcmd.c` -/

/-- A compute node: its size cache and the forks on the storage node. -/
structure ComputeNode where
  cache : RelSizeTable
  remote : FileModel

section Rpcmd

variable (inRecovery : Bool) (s : ComputeNode) (rel : RelTag)

/-- `rpcmdexists`. -/
def rpcmdexists : Bool :=
  match getRelSizeCache s.cache (transRelNode2RelKey rel) with
  | some result => decide (0 ≤ result)
  | none => (s.remote rel).isSome

/-- `rpcmdcreate`.  A secondary node does not alter the shared relation. -/
def rpcmdcreate : ComputeNode where
  cache :=
    let relKey := transRelNode2RelKey rel
    match getRelSizeCache s.cache relKey with
    | some result => if result < 0 then insertRelSizeCache s.cache relKey 0 else s.cache
    | none => insertRelSizeCache s.cache relKey 0
  remote := if inRecovery then s.remote else s.remote.create rel

/-- `rpcmdunlink`: its body is empty. -/
def rpcmdunlink : ComputeNode := s

/-- `rpcmdextend`. -/
def rpcmdextend (blocknum : UInt32) : ComputeNode where
  cache :=
    let relKey := transRelNode2RelKey rel
    match getRelSizeCache s.cache relKey with
    | some result =>
      if blocknum + 1 > result then insertRelSizeCache s.cache relKey (blocknum + 1) else s.cache
    | none => insertRelSizeCache s.cache relKey (blocknum + 1)
  remote := if inRecovery then s.remote else s.remote.extend rel blocknum

/-- `rpcmdnblocks`.  The size is cached unless another process did so meanwhile. -/
def rpcmdnblocks : ComputeNode × UInt32 :=
  let relKey := transRelNode2RelKey rel
  match getRelSizeCache s.cache relKey with
  | some result => (s, result)
  | none => ({ s with cache := insertRelSizeCache s.cache relKey (reportedSize s.remote rel) },
      reportedSize s.remote rel)

/-- `rpcmdtruncate`. -/
def rpcmdtruncate (nblocks : UInt32) : ComputeNode where
  cache := insertRelSizeCache s.cache (transRelNode2RelKey rel) nblocks
  remote := if inRecovery then s.remote else s.remote.truncate rel nblocks

end Rpcmd

/-! ## What the calls do to the cache -/

section Cache

variable (inRecovery : Bool) (s : ComputeNode) (rel : RelTag)

lemma getRelSizeCache_trans (table : RelSizeTable) :
    getRelSizeCache table (transRelNode2RelKey rel) = cachedSize table rel := rfl

lemma cacheable_of_cached {n : UInt32} (h : cachedSize s.cache rel = some n) :
    cacheable n = cachedSize s.cache rel := by
  rw [h, cacheable, if_neg (cachedSize_ne_invalidSize h)]

lemma cachedSize_rpcmdcreate : cachedSize (rpcmdcreate inRecovery s rel).cache
    = update (cachedSize s.cache) rel (some ((cachedSize s.cache rel).getD 0)) := by
  simp only [rpcmdcreate, getRelSizeCache_trans]
  cases hc : cachedSize s.cache rel with
  | some n =>
      have hneg : ¬ n < 0 := by simp [UInt32.lt_iff_toNat_lt]
      simp only [if_neg hneg, Option.getD_some]
      rw [← hc, update_eq_self]
  | none => exact cachedSize_insert _ _ _

/-- An extended fork is cached with the larger of its cached size and the end of the block. -/
lemma cachedSize_rpcmdextend (b : UInt32) :
    cachedSize (rpcmdextend inRecovery s rel b).cache
      = update (cachedSize s.cache) rel
          (cacheable (max ((cachedSize s.cache rel).getD 0) (b + 1))) := by
  have hmax : ∀ n m : UInt32, max n m = if n ≤ m then m else n := fun _ _ => rfl
  simp only [rpcmdextend, getRelSizeCache_trans]
  cases hc : cachedSize s.cache rel with
  | some n =>
      simp only [Option.getD_some]
      by_cases hgt : b + 1 > n
      · rw [if_pos hgt, cachedSize_insert, hmax, if_pos (UInt32.le_of_lt hgt)]
      · have hkeep : max n (b + 1) = n := by
          rw [hmax]
          split
          · exact UInt32.le_antisymm (UInt32.not_lt.mp hgt) ‹_›
          · rfl
        rw [if_neg hgt, hkeep, cacheable_of_cached s rel hc, update_eq_self]
  | none =>
      have hzero : max 0 (b + 1) = b + 1 := by
        rw [hmax, if_pos (by simp [UInt32.le_iff_toNat_le])]
      simp only [Option.getD_none, hzero]
      exact cachedSize_insert _ _ _

lemma rpcmdnblocks_answer :
    (rpcmdnblocks s rel).2 = view (cachedSize s.cache) (reportedSize s.remote) rel := by
  simp only [rpcmdnblocks, getRelSizeCache_trans]
  cases hc : cachedSize s.cache rel with
  | some n => rw [view_of_some hc]
  | none => rw [view_of_none hc]

lemma cachedSize_rpcmdnblocks : cachedSize (rpcmdnblocks s rel).1.cache
    = update (cachedSize s.cache) rel (cacheable (rpcmdnblocks s rel).2) := by
  simp only [rpcmdnblocks, getRelSizeCache_trans]
  cases hc : cachedSize s.cache rel with
  | some n => rw [cacheable_of_cached s rel hc, update_eq_self]
  | none => exact cachedSize_insert _ _ _

lemma rpcmdnblocks_remote : (rpcmdnblocks s rel).1.remote = s.remote := by
  simp only [rpcmdnblocks]
  split <;> rfl

end Cache

/-! ## Calls on a primary node -/

/-- The calls of the storage manager. -/
inductive SmgrCall
  | create (rel : RelTag)
  | smgrExists (rel : RelTag)
  | extend (rel : RelTag) (b : BlockNumber)
  | nblocks (rel : RelTag)
  | truncate (rel : RelTag) (n : UInt32)
  | unlink (rel : RelTag)

/-- What a call answers. -/
inductive SmgrAnswer
  | done
  | found (b : Bool)
  | size (n : UInt32)
deriving DecidableEq

/-- A call on a primary compute node. -/
def rpcmdCall (s : ComputeNode) : SmgrCall → ComputeNode × SmgrAnswer
  | .create rel => (rpcmdcreate false s rel, .done)
  | .smgrExists rel => (s, .found (rpcmdexists s rel))
  | .extend rel b => (rpcmdextend false s rel b.1, .done)
  | .nblocks rel => ((rpcmdnblocks s rel).1, .size (rpcmdnblocks s rel).2)
  | .truncate rel n => (rpcmdtruncate false s rel n, .done)
  | .unlink _ => (rpcmdunlink s, .done)

/-- The same call in the file model; a missing fork has no size, which the remote side reports as
`InvalidBlockNumber`. -/
def fileCall (m : FileModel) : SmgrCall → FileModel × SmgrAnswer
  | .create rel => (m.create rel, .done)
  | .smgrExists rel => (m, .found (m rel).isSome)
  | .extend rel b => (m.extend rel b.1, .done)
  | .nblocks rel => (m, .size (reportedSize m rel))
  | .truncate rel n => (m.truncate rel n, .done)
  | .unlink rel => (m.unlink rel, .done)

/-- The storage manager and the file model make the same call. -/
def CallStep (p : ComputeNode × FileModel) (call : SmgrCall) (p' : ComputeNode × FileModel) :
    Prop :=
  p' = ((rpcmdCall p.1 call).1, (fileCall p.2 call).1)

/-- The calls that keep the cache unnoticed: a fork that is not cached is created only if it is
missing or empty on the storage node, and extended only at its end or beyond; only a missing fork is
dropped. -/
def CallKept (p : ComputeNode × FileModel) : SmgrCall → Prop
  | .create rel => cachedSize p.1.cache rel = none → (p.1.remote rel).getD 0 = 0
  | .extend rel b => cachedSize p.1.cache rel = none → (p.1.remote rel).getD 0 ≤ b.1 + 1
  | .unlink rel => p.1.remote rel = none
  | .smgrExists _ | .nblocks _ | .truncate _ _ => True

/-- The simulation relation: the remote forks are those of the model, and no cached size differs
from them. -/
structure Refines (s : ComputeNode) (m : FileModel) : Prop where
  remote : s.remote = m
  coherent : Coherent (cachedSize s.cache) (reportedSize m)

lemma reportedSize_update (m : FileModel) (rel : RelTag) (n : UInt32) :
    reportedSize (update m rel (some n)) = update (reportedSize m) rel n := by
  funext rel'
  by_cases h : rel' = rel
  · subst h; simp [reportedSize]
  · simp [reportedSize, h]

variable {s : ComputeNode} {m : FileModel} {rel : RelTag}

lemma Refines.file_of_cached (h : Refines s m) {n : UInt32}
    (hc : cachedSize s.cache rel = some n) : m rel = some n := by
  have hsize := h.coherent rel n hc
  cases hm : m rel with
  | none =>
      rw [reportedSize, hm] at hsize
      exact absurd hsize.symm (cachedSize_ne_invalidSize hc)
  | some k =>
      rw [reportedSize, hm] at hsize
      exact congrArg some hsize

/-- A call that writes `c` to the cache and `n` to the remote fork keeps the relation if `c`, where
cached, is `n`. -/
lemma Refines.write (h : Refines s m) {s' : ComputeNode} {c : Option UInt32} {n : UInt32}
    (hremote : s'.remote = update s.remote rel (some n))
    (hcache : cachedSize s'.cache = update (cachedSize s.cache) rel c)
    (hc : ∀ w, c = some w → n = w) : Refines s' (update m rel (some n)) where
  remote := by rw [hremote, h.remote]
  coherent := by
    rw [hcache, reportedSize_update]
    exact h.coherent.write hc

/-- **Every call that keeps to the condition keeps the relation.** -/
lemma Refines.call (h : Refines s m) {call : SmgrCall} (hkept : CallKept (s, m) call) :
    Refines (rpcmdCall s call).1 (fileCall m call).1 := by
  cases call with
  | create rel =>
      refine h.write (n := (m rel).getD 0) (by rw [← h.remote]; rfl)
        (cachedSize_rpcmdcreate false s rel) ?_
      intro w hw
      obtain rfl := Option.some.inj hw
      cases hc : cachedSize s.cache rel with
      | some n => rw [h.file_of_cached hc]
      | none => rw [← h.remote]; exact hkept hc
  | smgrExists rel => exact h
  | extend rel b =>
      refine h.write (n := max ((m rel).getD 0) (b.1 + 1)) (by rw [← h.remote]; rfl)
        (cachedSize_rpcmdextend false s rel b.1) ?_
      intro w hw
      obtain ⟨-, rfl⟩ := cacheable_eq_some_iff.mp hw
      cases hc : cachedSize s.cache rel with
      | some n => rw [h.file_of_cached hc]
      | none =>
          have hle : (m rel).getD 0 ≤ b.1 + 1 := by rw [← h.remote]; exact hkept hc
          have hmax : ∀ n : UInt32, n ≤ b.1 + 1 → max n (b.1 + 1) = b.1 + 1 := fun n hn => if_pos hn
          rw [hmax _ hle, Option.getD_none, hmax 0 (by simp [UInt32.le_iff_toNat_le])]
  | nblocks rel =>
      refine ⟨(rpcmdnblocks_remote s rel).trans h.remote, ?_⟩
      change Coherent (cachedSize (rpcmdnblocks s rel).1.cache) (reportedSize m)
      rw [cachedSize_rpcmdnblocks, rpcmdnblocks_answer, h.remote, h.coherent.view_eq]
      refine h.coherent.fill fun w hw => ?_
      exact (cacheable_eq_some_iff.mp hw).2
  | truncate rel n =>
      refine h.write (n := n) rfl (cachedSize_insert _ _ _) ?_
      intro w hw
      exact (cacheable_eq_some_iff.mp hw).2
  | unlink rel =>
      have hmissing : m rel = none := by rw [← h.remote]; exact hkept
      have hsame : (fileCall m (.unlink rel)).1 = m := by
        simp only [fileCall, FileModel.unlink, ← hmissing, update_eq_self]
      rw [hsame]
      exact h

lemma Refines.answer (h : Refines s m) (call : SmgrCall) :
    (rpcmdCall s call).2 = (fileCall m call).2 := by
  cases call with
  | smgrExists rel =>
      simp only [rpcmdCall, fileCall, rpcmdexists, getRelSizeCache_trans, SmgrAnswer.found.injEq]
      cases hc : cachedSize s.cache rel with
      | some n => simp [h.file_of_cached hc, UInt32.le_iff_toNat_le]
      | none => simp only [h.remote]
  | nblocks rel =>
      simp only [rpcmdCall, fileCall, rpcmdnblocks_answer, h.remote, h.coherent.view_eq]
  | create _ => rfl
  | extend _ _ => rfl
  | truncate _ _ => rfl
  | unlink _ => rfl

/-- **The storage manager refines the file model.**  From an empty cache and any remote forks, in
every run whose calls keep to the condition, every call answers as it does in the file model. -/
theorem smgr_refines_files {files : FileModel} {calls : List SmgrCall} {p : ComputeNode × FileModel}
    (hrun : Run (Guarded CallStep CallKept) (⟨fun _ => none, files⟩, files) calls p)
    (call : SmgrCall) : (rpcmdCall p.1 call).2 = (fileCall p.2 call).2 := by
  have hrefines : Refines p.1 p.2 := by
    refine hrun.invariant (I := fun p => Refines p.1 p.2) ⟨rfl, ?_⟩ ?_
    · intro rel n hn
      have hnone : cachedSize (fun _ => none) rel = none := rfl
      rw [hnone] at hn
      cases hn
    · rintro ⟨s, m⟩ call _ h ⟨hkept, rfl⟩
      exact h.call hkept
  exact hrefines.answer call

/-- Creating a fork on an empty storage node, then asking for its size. -/
theorem smgr_refines_created :
    (rpcmdCall (rpcmdcreate false ⟨fun _ => none, fun _ => none⟩ sampleFork)
        (.nblocks sampleFork)).2
      = (fileCall (FileModel.create (fun _ => none) sampleFork) (.nblocks sampleFork)).2 := by
  have hstep : Guarded CallStep CallKept (⟨fun _ => none, fun _ => none⟩, fun _ => none)
      (.create sampleFork)
      (rpcmdcreate false ⟨fun _ => none, fun _ => none⟩ sampleFork,
        FileModel.create (fun _ => none) sampleFork) := ⟨fun _ => rfl, rfl⟩
  exact smgr_refines_files (.snoc .nil hstep) (.nblocks sampleFork)

/-- **A dropped fork is still there.**  After create and unlink on an empty storage node, the
storage manager says that the fork exists; in the file model it is gone. -/
theorem unlink_ignored :
    ∃ p, Run CallStep (⟨fun _ => none, fun _ => none⟩, fun _ => none)
        [.create sampleFork, .unlink sampleFork] p
      ∧ (rpcmdCall p.1 (.smgrExists sampleFork)).2 = .found true
      ∧ (fileCall p.2 (.smgrExists sampleFork)).2 = .found false :=
  ⟨_, .cons rfl (.cons rfl .nil), by decide, by decide⟩

end GroundDB
