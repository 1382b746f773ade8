import GroundDB.RelSize.Parse

/-!
# Size requests on the storage node

`RpcMdNblocks` and `RpcMdExists` answer from the size cache and fill it from the files of the replay
process.  `RpcMdCreate` and `RpcMdExtend` only write the files: the code that would have moved the
cache is compiled out (`#ifdef PASS`).  `RpcTruncate` only writes the cache.

The answer to a size query is the cache laid over the files (`toUInt32_rpcMdNblocks`).  An extension
is a write to the files alone, so a query sees it as long as the fork is not cached with a smaller
size (`extend_visible`); an earlier query may have left such a size (`extend_hidden`).
-/

namespace GroundDB

open Lts Overlay

/-- The relation sizes of the storage node: the shared cache and the files of the replay process. -/
structure SizeNode where
  cache : RelSizeTable
  files : RelFiles

namespace SizeNode

variable (s : SizeNode) (rel : RelTag)

/-- The size a query sees. -/
def seen : RelTag → UInt32 := view (cachedSize s.cache) (reportedSize s.files)

/-- What `RpcMdNblocks` and `RpcMdExists` do when the fork is not cached: the size of the file is
cached unless there is no file.  The second lookup is made under the write lock. -/
def cacheRelSize : SizeNode :=
  let relSize := getRelSize s.files rel
  let relKey := transRelNode2RelKey rel
  if 0 ≤ relSize ∧ getRelSizeCache s.cache relKey = none then
    { s with cache := insertRelSizeCache s.cache relKey relSize.toUInt32 }
  else s

end SizeNode

/-- `RpcMdNblocks`. -/
def rpcMdNblocks (s : SizeNode) (rel : RelTag) : SizeNode × Int32 :=
  match getRelSizeCache s.cache (transRelNode2RelKey rel) with
  | some foundPageNum => (s, foundPageNum.toInt32)
  | none => (s.cacheRelSize rel, getRelSize s.files rel)

/-- `RpcMdExists`. -/
def rpcMdExists (s : SizeNode) (rel : RelTag) : SizeNode × Bool :=
  match getRelSizeCache s.cache (transRelNode2RelKey rel) with
  | some _ => (s, true)
  | none => (s.cacheRelSize rel, decide (0 ≤ getRelSize s.files rel))

/-- `RpcMdCreate`: `smgrcreate` in the replay process, which keeps a file that exists. -/
def rpcMdCreate (s : SizeNode) (rel : RelTag) : SizeNode :=
  { s with files := Function.update s.files rel (some ((s.files rel).getD 0)) }

/-- `RpcMdExtend`: `smgrextend` in the replay process.  A fork without a file and the block number
`InvalidBlockNumber` are errors there, and the request does not complete. -/
def rpcMdExtend (s : SizeNode) (rel : RelTag) (blknum : UInt32) : Option SizeNode :=
  match s.files rel with
  | none => none
  | some nblocks =>
    if blknum = invalidSize then none
    else some { s with files := Function.update s.files rel (some (max nblocks (blknum + 1))) }

/-- The requests about relation sizes. -/
inductive SizeRequest
  | create (rel : RelTag)
  | extend (rel : RelTag) (blknum : UInt32)
  | truncate (rel : RelTag) (blknum : Int32)
  | nblocks (rel : RelTag)
  | mdExists (rel : RelTag)

/-- The node after a request that completes. -/
def requestStep (s : SizeNode) : SizeRequest → Option SizeNode
  | .create rel => some (rpcMdCreate s rel)
  | .extend rel blknum => rpcMdExtend s rel blknum
  | .truncate rel blknum => some { s with cache := rpcTruncate s.cache rel blknum }
  | .nblocks rel => some (rpcMdNblocks s rel).1
  | .mdExists rel => some (rpcMdExists s rel).1

/-- The storage node as a transition system. -/
def RequestStep (s : SizeNode) (req : SizeRequest) (s' : SizeNode) : Prop :=
  requestStep s req = some s'

/-! ## What a query sees -/

variable {s s' : SizeNode} {rel : RelTag}

/-- **The answer of `RpcMdNblocks`** is the cache laid over the files. -/
lemma toUInt32_rpcMdNblocks (s : SizeNode) (rel : RelTag) :
    (rpcMdNblocks s rel).2.toUInt32 = s.seen rel := by
  have hget : getRelSizeCache s.cache (transRelNode2RelKey rel) = cachedSize s.cache rel := rfl
  simp only [rpcMdNblocks, hget]
  cases hc : cachedSize s.cache rel with
  | some n => simp [SizeNode.seen, view_of_some hc]
  | none => simp [SizeNode.seen, view_of_none hc]

@[simp] lemma cacheRelSize_files (s : SizeNode) (rel : RelTag) :
    (s.cacheRelSize rel).files = s.files := by
  unfold SizeNode.cacheRelSize
  dsimp only
  split <;> rfl

lemma seen_cacheRelSize (s : SizeNode) (rel : RelTag) : (s.cacheRelSize rel).seen = s.seen := by
  unfold SizeNode.cacheRelSize
  dsimp only
  split
  · rename_i h
    obtain ⟨hpos, hnone⟩ := h
    have hvalid : reportedSize s.files rel ≠ invalidSize := by
      intro hinv
      rw [← toUInt32_getRelSize, ← toInt32_eq_neg_one_iff, Int32.toInt32_toUInt32] at hinv
      rw [hinv] at hpos
      exact absurd hpos (by decide)
    simp only [SizeNode.seen, cachedSize_insert, toUInt32_getRelSize, cacheable, if_neg hvalid]
    exact view_fill hnone
  · rfl

lemma query_frame (s : SizeNode) (rel : RelTag) :
    ((rpcMdNblocks s rel).1.files = s.files ∧ (rpcMdNblocks s rel).1.seen = s.seen)
    ∧ ((rpcMdExists s rel).1.files = s.files ∧ (rpcMdExists s rel).1.seen = s.seen) := by
  unfold rpcMdNblocks rpcMdExists
  cases getRelSizeCache s.cache (transRelNode2RelKey rel) with
  | some n => exact ⟨⟨rfl, rfl⟩, rfl, rfl⟩
  | none => simp [seen_cacheRelSize]

lemma seen_of_ne {req : SizeRequest} (hstep : requestStep s req = some s')
    (hrel : ∀ b, req ≠ .extend rel b) (htrunc : ∀ n, req ≠ .truncate rel n)
    (hfile : s.files rel ≠ none) : s'.seen rel = s.seen rel ∧ s'.files rel = s.files rel := by
  cases req with
  | create rel' =>
      obtain rfl := Option.some.inj hstep
      have hfiles : (rpcMdCreate s rel').files rel = s.files rel := by
        by_cases h : rel = rel'
        · subst h
          obtain ⟨n, hn⟩ := Option.ne_none_iff_exists'.mp hfile
          simp [rpcMdCreate, hn]
        · simp [rpcMdCreate, h]
      refine ⟨?_, hfiles⟩
      simp only [SizeNode.seen, view, reportedSize, hfiles]
      rfl
  | extend rel' blknum =>
      have hne : rel ≠ rel' := by
        rintro rfl
        exact hrel blknum rfl
      simp only [requestStep, rpcMdExtend] at hstep
      split at hstep
      · cases hstep
      · split at hstep
        · cases hstep
        · obtain rfl := Option.some.inj hstep
          simp [SizeNode.seen, view, reportedSize, hne]
  | truncate rel' blknum =>
      have hne : rel ≠ rel' := by
        rintro rfl
        exact htrunc blknum rfl
      obtain rfl := Option.some.inj hstep
      simp [SizeNode.seen, view, rpcTruncate, cachedSize_insert, hne]
  | nblocks rel' =>
      obtain rfl := Option.some.inj hstep
      obtain ⟨⟨hfiles, hseen⟩, -⟩ := query_frame s rel'
      rw [hfiles, hseen]
      exact ⟨rfl, rfl⟩
  | mdExists rel' =>
      obtain rfl := Option.some.inj hstep
      obtain ⟨-, hfiles, hseen⟩ := query_frame s rel'
      rw [hfiles, hseen]
      exact ⟨rfl, rfl⟩

/-- **A completed extension.**  The file holds the block; a query sees the larger size if the fork
is not cached, and the cached one otherwise. -/
lemma extend_spec {blknum : UInt32} (h : rpcMdExtend s rel blknum = some s') :
    ∃ nblocks, s.files rel = some nblocks ∧ s'.files rel = some (max nblocks (blknum + 1))
      ∧ (blknum + 1).toNat = blknum.toNat + 1
      ∧ s'.seen rel = (cachedSize s.cache rel).getD (max nblocks (blknum + 1)) := by
  simp only [rpcMdExtend] at h
  split at h
  · cases h
  · rename_i nblocks hfile
    split at h
    · cases h
    · rename_i hvalid
      obtain rfl := Option.some.inj h
      refine ⟨nblocks, hfile, by simp, ?_, by simp [SizeNode.seen, view, reportedSize]⟩
      have hne : blknum.toNat ≠ 0xFFFFFFFF := fun h => hvalid (UInt32.toNat_inj.mp h)
      have hlt := UInt32.toNat_lt blknum
      rw [UInt32.toNat_add]
      simp
      omega

/-! ## Runs -/

/-- The blocks `rel` was extended by since its last truncation. -/
def extendedSince (rel : RelTag) (ops : List SizeRequest) : List UInt32 :=
  ops.foldl (fun bs op => match op with
    | .extend rel' blknum => if rel' = rel then blknum :: bs else bs
    | .truncate rel' _ => if rel' = rel then [] else bs
    | _ => bs) []

section Since

variable {ops : List SizeRequest}

lemma extendedSince_extend (b : UInt32) :
    extendedSince rel (ops ++ [.extend rel b]) = b :: extendedSince rel ops := by
  simp [extendedSince, List.foldl_append]

lemma extendedSince_truncate (n : Int32) :
    extendedSince rel (ops ++ [.truncate rel n]) = [] := by
  simp [extendedSince, List.foldl_append]

lemma extendedSince_of_ne {op : SizeRequest} (hext : ∀ b, op ≠ .extend rel b)
    (htrunc : ∀ n, op ≠ .truncate rel n) :
    extendedSince rel (ops ++ [op]) = extendedSince rel ops := by
  cases op with
  | extend rel' b =>
      have hne : rel' ≠ rel := fun h => hext b (h ▸ rfl)
      simp [extendedSince, List.foldl_append, hne]
  | truncate rel' n =>
      have hne : rel' ≠ rel := fun h => htrunc n (h ▸ rfl)
      simp [extendedSince, List.foldl_append, hne]
  | create _ => simp [extendedSince, List.foldl_append]
  | nblocks _ => simp [extendedSince, List.foldl_append]
  | mdExists _ => simp [extendedSince, List.foldl_append]

end Since

/-- The steps that keep extensions visible: an extension of `rel` finds the fork either not cached
or cached with a size that already holds the block. -/
def ExtendKept (rel : RelTag) (s : SizeNode) : SizeRequest → Prop
  | .extend rel' blknum =>
      rel' = rel → ∀ n, cachedSize s.cache rel = some n → blknum.toNat + 1 ≤ n.toNat
  | _ => True

/-- The invariant: every extension since the last truncation is visible, and left a file. -/
def ExtendsVisible (rel : RelTag) (ops : List SizeRequest) (s : SizeNode) : Prop :=
  ∀ b ∈ extendedSince rel ops, b.toNat + 1 ≤ (s.seen rel).toNat ∧ s.files rel ≠ none

lemma le_toNat_max_left (n m : UInt32) : n.toNat ≤ (max n m).toNat := by
  change n.toNat ≤ (if n ≤ m then m else n).toNat
  split
  · exact UInt32.le_iff_toNat_le.mp ‹_›
  · exact le_rfl

lemma le_toNat_max_right (n m : UInt32) : m.toNat ≤ (max n m).toNat := by
  change m.toNat ≤ (if n ≤ m then m else n).toNat
  split
  · exact le_rfl
  · exact (UInt32.lt_iff_toNat_lt.mp (UInt32.not_le.mp ‹_›)).le

/-- An extension that keeps to the condition makes its block visible and hides no earlier one. -/
lemma ExtendsVisible.extend {ops : List SizeRequest} {blknum : UInt32}
    (hvis : ExtendsVisible rel ops s)
    (hkept : ∀ n, cachedSize s.cache rel = some n → blknum.toNat + 1 ≤ n.toNat)
    (hstep : rpcMdExtend s rel blknum = some s') :
    ExtendsVisible rel (ops ++ [.extend rel blknum]) s' := by
  obtain ⟨nblocks, hfile, hfile', hsucc, hseen⟩ := extend_spec hstep
  have hfiles : s'.files rel ≠ none := by simp [hfile']
  intro b hb
  rw [extendedSince_extend, List.mem_cons] at hb
  refine ⟨?_, hfiles⟩
  rw [hseen]
  cases hc : cachedSize s.cache rel with
  | some n =>
      have hold : s.seen rel = n := view_of_some hc
      rcases hb with rfl | hb
      · exact hkept n hc
      · have := (hvis b hb).1
        rwa [hold] at this
  | none =>
      have hold : s.seen rel = nblocks := by
        simp [SizeNode.seen, view_of_none hc, reportedSize, hfile]
      rcases hb with rfl | hb
      · rw [← hsucc]
        exact le_toNat_max_right nblocks (b + 1)
      · have := (hvis b hb).1
        rw [hold] at this
        exact this.trans (le_toNat_max_left nblocks (blknum + 1))

lemma ExtendsVisible.frame {ops : List SizeRequest} {op : SizeRequest}
    (hvis : ExtendsVisible rel ops s) (hext : ∀ b, op ≠ .extend rel b)
    (htrunc : ∀ n, op ≠ .truncate rel n) (hstep : requestStep s op = some s') :
    ExtendsVisible rel (ops ++ [op]) s' := by
  intro b hb
  rw [extendedSince_of_ne hext htrunc] at hb
  obtain ⟨hle, hfile⟩ := hvis b hb
  obtain ⟨hseen, hfiles⟩ := seen_of_ne hstep hext htrunc hfile
  rw [hseen, hfiles]
  exact ⟨hle, hfile⟩

/-- **Extensions are visible to size queries.**  In every run whose extensions of `rel` find the
fork not cached or cached with a size that holds the block, from any cache and any files, a query
answers at least one more than every block extended since the last truncation. -/
theorem extend_visible {ops : List SizeRequest}
    (hrun : Run (Guarded RequestStep (ExtendKept rel)) s ops s') :
    ∀ b ∈ extendedSince rel ops, b.toNat + 1 ≤ (rpcMdNblocks s' rel).2.toUInt32.toNat := by
  have hvis : ExtendsVisible rel ops s' := by
    refine hrun.history_invariant ?_ ?_
    · intro b hb
      cases hb
    · rintro ops t op u - hvis ⟨hkept, hstep⟩
      by_cases hext : ∃ b, op = .extend rel b
      · obtain ⟨blknum, rfl⟩ := hext
        exact hvis.extend (hkept rfl) hstep
      by_cases htrunc : ∃ n, op = .truncate rel n
      · obtain ⟨n, rfl⟩ := htrunc
        intro b hb
        rw [extendedSince_truncate] at hb
        cases hb
      exact hvis.frame (fun b h => hext ⟨b, h⟩) (fun n h => htrunc ⟨n, h⟩) hstep
  intro b hb
  rw [toUInt32_rpcMdNblocks]
  exact (hvis b hb).1

/-- A fork with one block that nobody has asked about yet. -/
def oneBlockFork : SizeNode where
  cache := fun _ => none
  files := fun rel => if rel = sampleFork then some 1 else none

/-- The same fork after it was extended by block 1. -/
def SizeNode.twoBlocks (s : SizeNode) : SizeNode :=
  { s with files := Function.update s.files sampleFork (some 2) }

/-- The extension by block 1 is seen when no query came before it. -/
theorem extend_visible_uncached :
    Run (Guarded RequestStep (ExtendKept sampleFork)) oneBlockFork [.extend sampleFork 1]
        oneBlockFork.twoBlocks
      ∧ 1 ∈ extendedSince sampleFork [.extend sampleFork 1]
      ∧ (1 : UInt32).toNat + 1
        ≤ (rpcMdNblocks oneBlockFork.twoBlocks sampleFork).2.toUInt32.toNat := by
  have hstep : RequestStep oneBlockFork (.extend sampleFork 1) oneBlockFork.twoBlocks := rfl
  have hkept : ExtendKept sampleFork oneBlockFork (.extend sampleFork 1) := by
    intro _ n hn
    have hnone : cachedSize oneBlockFork.cache sampleFork = none := by decide
    rw [hnone] at hn
    cases hn
  have hmem : (1 : UInt32) ∈ extendedSince sampleFork [.extend sampleFork 1] := by decide
  exact ⟨.snoc .nil ⟨hkept, hstep⟩, hmem, extend_visible (.snoc .nil ⟨hkept, hstep⟩) 1 hmem⟩

/-- **A size query hides the extension that follows it**: it caches one block, the extension by
block 1 completes, and the next query still answers one. -/
theorem extend_hidden :
    ∃ s', Run RequestStep oneBlockFork [.nblocks sampleFork, .extend sampleFork 1] s'
      ∧ extendedSince sampleFork [.nblocks sampleFork, .extend sampleFork 1] = [1]
      ∧ (rpcMdNblocks s' sampleFork).2 = 1 := by
  have hquery : RequestStep oneBlockFork (.nblocks sampleFork)
      (rpcMdNblocks oneBlockFork sampleFork).1 := rfl
  have hextend : RequestStep (rpcMdNblocks oneBlockFork sampleFork).1 (.extend sampleFork 1)
      (rpcMdNblocks oneBlockFork sampleFork).1.twoBlocks := rfl
  exact ⟨_, .cons hquery (.cons hextend .nil), by decide, by decide⟩

end GroundDB
