import GroundDB.RelSize.Cache
import GroundDB.Lib.Run

/-!
# Relation sizes kept by the parser

While the storage node parses the WAL (`StartupXLOG`), it raises the cached size of every fork a
record refers to.  For a fork that is not cached it first asks the replay process for the size of
the file.  A truncate request overwrites the cached size.

The size expected of a fork is the size of the last truncation, or of the file, raised by every
block parsed since then (`expectedSize`).  The parser keeps it as long as the fork has a file.
Without one the replay process answers `-1`, and the comparison `baseRelSize > blkno + 1` is between
unsigned words: the sentinel wins, is stored, and is read back as "not found"
(`parse_missing_fork`).
-/

namespace GroundDB

open Lts Overlay Function

variable {D : Type}

/-! ## The parser -/

/-- The resource managers whose records the parser looks at for relation sizes. -/
def RmgrId.sized : RmgrId → Bool
  | .xlog | .smgr | .heap2 | .heap | .btree | .hash | .gin | .gist | .seq | .spgist | .brin
  | .generic => true
  | _ => false

/-- The pages a record refers to, by block id. -/
def XLogRecord.tags (record : XLogRecord D) : List BufferTag :=
  record.blocks.filterMap (·.map (·.tag))

/-- One block reference.  `baseRelSize` is an `int`, compared with a `BlockNumber`. -/
def parseBlockSize (base : RelFiles) (table : RelSizeTable) (tag : BufferTag) : RelSizeTable :=
  let relKey := transRelNode2RelKey tag.relTag
  match getRelSizeCache table relKey with
  | some result =>
    if result < tag.blockNum + 1 then insertRelSizeCache table relKey (tag.blockNum + 1) else table
  | none =>
    let baseRelSize := getRelSize base tag.relTag
    if baseRelSize.toUInt32 > tag.blockNum + 1 then
      insertRelSizeCache table relKey baseRelSize.toUInt32
    else insertRelSizeCache table relKey (tag.blockNum + 1)

/-- The relation sizes of one record, after `polar_xlog_decode_data`. -/
def parseRelSizes (base : RelFiles) (table : RelSizeTable) (record : XLogRecord D) :
    RelSizeTable :=
  if record.rmid.sized then record.tags.foldl (parseBlockSize base) table else table

/-- `RpcTruncate`. -/
def rpcTruncate (table : RelSizeTable) (rel : RelTag) (blknum : Int32) : RelSizeTable :=
  insertRelSizeCache table (transRelNode2RelKey rel) blknum.toUInt32

/-- What moves the cache: a parsed record or a truncate request. -/
inductive SizeOp (D : Type)
  | parse (record : XLogRecord D)
  | truncate (rel : RelTag) (blknum : Int32)

/-- The cache after an operation; the files do not move. -/
def sizeStep (base : RelFiles) (table : RelSizeTable) : SizeOp D → RelSizeTable
  | .parse record => parseRelSizes base table record
  | .truncate rel blknum => rpcTruncate table rel blknum

/-- The cache as a transition system. -/
def SizeStep (base : RelFiles) (table : RelSizeTable) (op : SizeOp D) (table' : RelSizeTable) :
    Prop :=
  table' = sizeStep base table op

/-! ## The expected size -/

/-- The blocks of `rel` among pages, in order. -/
def blocksOn (rel : RelTag) (tags : List BufferTag) : List UInt32 :=
  (tags.filter (·.relTag = rel)).map (·.blockNum)

/-- The blocks of `rel` an operation parses. -/
def SizeOp.blocks (rel : RelTag) : SizeOp D → List UInt32
  | .parse record => if record.rmid.sized then blocksOn rel record.tags else []
  | .truncate _ _ => []

/-- The size the last truncation of `rel` set, or else the size of its file. -/
def floorSize (base : RelFiles) (rel : RelTag) (ops : List (SizeOp D)) : ℕ :=
  ops.foldl (fun n op => match op with
    | .truncate rel' blknum => if rel' = rel then blknum.toUInt32.toNat else n
    | .parse _ => n) ((base rel).elim 0 UInt32.toNat)

/-- The blocks of `rel` parsed since its last truncation. -/
def parsedSince (rel : RelTag) (ops : List (SizeOp D)) : List UInt32 :=
  ops.foldl (fun bs op => match op with
    | .truncate rel' _ => if rel' = rel then [] else bs
    | .parse _ => bs ++ op.blocks rel) []

/-- A size raised to hold the given blocks. -/
def raiseTo (n : ℕ) (bs : List UInt32) : ℕ :=
  bs.foldl (fun m b => max m (b.toNat + 1)) n

/-- The size of `rel` after `ops`: the last truncation or the file, and the blocks parsed since. -/
def expectedSize (base : RelFiles) (rel : RelTag) (ops : List (SizeOp D)) : ℕ :=
  raiseTo (floorSize base rel ops) (parsedSince rel ops)

section Expected

variable {base : RelFiles} {rel : RelTag} {ops : List (SizeOp D)}

lemma expectedSize_parse (record : XLogRecord D) :
    expectedSize base rel (ops ++ [.parse record])
      = raiseTo (expectedSize base rel ops) ((SizeOp.parse record).blocks rel) := by
  simp [expectedSize, raiseTo, floorSize, parsedSince, List.foldl_append]

lemma expectedSize_truncate (blknum : Int32) :
    expectedSize base rel (ops ++ [.truncate rel blknum]) = blknum.toUInt32.toNat := by
  simp [expectedSize, raiseTo, floorSize, parsedSince, List.foldl_append]

lemma expectedSize_truncate_of_ne {rel' : RelTag} (h : rel' ≠ rel) (blknum : Int32) :
    expectedSize base rel (ops ++ [.truncate rel' blknum]) = expectedSize base rel ops := by
  simp [expectedSize, floorSize, parsedSince, List.foldl_append, h]

end Expected

/-! ## The parser keeps the expected size -/

section Parser

variable {base : RelFiles} {table : RelSizeTable} {rel : RelTag}

/-- The size of a fork as the parser finds it: cached, or that of the file. -/
def knownSize (base : RelFiles) (table : RelSizeTable) : RelTag → UInt32 :=
  view (cachedSize table) (reportedSize base)

/-- **One block.**  The parser caches the larger of the size it knows and one more than the block
number, compared as unsigned words. -/
lemma cachedSize_parseBlockSize (base : RelFiles) (table : RelSizeTable) (tag : BufferTag) :
    cachedSize (parseBlockSize base table tag)
      = update (cachedSize table) tag.relTag
          (cacheable (max (knownSize base table tag.relTag) (tag.blockNum + 1))) := by
  have hget : getRelSizeCache table (transRelNode2RelKey tag.relTag)
      = cachedSize table tag.relTag := rfl
  have hmax : ∀ n m : UInt32, max n m = if n ≤ m then m else n := fun _ _ => rfl
  simp only [parseBlockSize, hget]
  cases hc : cachedSize table tag.relTag with
  | some result =>
      have hres : knownSize base table tag.relTag = result := view_of_some hc
      simp only [hres]
      by_cases hlt : result < tag.blockNum + 1
      · rw [if_pos hlt, cachedSize_insert, hmax, if_pos (UInt32.le_of_lt hlt)]
      · -- the cached size stays, which is what caching it again would do
        have hkeep : max result (tag.blockNum + 1) = result := by
          rw [hmax]
          split
          · exact UInt32.le_antisymm (UInt32.not_lt.mp hlt) ‹_›
          · rfl
        rw [if_neg hlt, hkeep, cacheable, if_neg (cachedSize_ne_invalidSize hc), ← hc,
          update_eq_self]
  | none =>
      have hres : knownSize base table tag.relTag = reportedSize base tag.relTag := view_of_none hc
      simp only [hres, toUInt32_getRelSize]
      by_cases hgt : tag.blockNum + 1 < reportedSize base tag.relTag
      · rw [if_pos hgt, cachedSize_insert, hmax, if_neg (UInt32.not_le.mpr hgt)]
      · rw [if_neg hgt, cachedSize_insert, hmax, if_pos (UInt32.not_lt.mp hgt)]

/-- A known size, raised to hold a block that is not the last possible one, can be cached. -/
lemma cacheable_max {n b : UInt32} (hn : n ≠ invalidSize) (hb : b < 0xFFFFFFFE) :
    ∃ m, cacheable (max n (b + 1)) = some m ∧ m.toNat = max n.toNat (b.toNat + 1) := by
  have hlt : b.toNat < 0xFFFFFFFE := hb
  have hsucc : (b + 1).toNat = b.toNat + 1 := by
    rw [UInt32.toNat_add]
    simp
    omega
  have hvalid : b + 1 ≠ invalidSize := by
    intro h
    have := congrArg UInt32.toNat h
    simp only [hsucc, invalidSize] at this
    simp at this
    omega
  have hmax : max n (b + 1) = if n ≤ b + 1 then b + 1 else n := rfl
  refine ⟨max n (b + 1), ?_, ?_⟩
  · rw [hmax]
    split
    · simp [cacheable, hvalid]
    · simp [cacheable, hn]
  · rw [hmax]
    split
    · have := UInt32.le_iff_toNat_le.mp ‹n ≤ b + 1›
      omega
    · have := UInt32.lt_iff_toNat_lt.mp (UInt32.not_le.mp ‹¬ n ≤ b + 1›)
      omega

/-- **One record.**  A fork whose size is known and that the record refers to is cached afterwards,
with the size raised to hold the record's blocks. -/
lemma cachedSize_foldl_parseBlockSize (tags : List BufferTag)
    (hb : ∀ b ∈ blocksOn rel tags, b < 0xFFFFFFFE) (hknown : knownSize base table rel ≠ invalidSize)
    (hcached : cachedSize table rel = none → blocksOn rel tags ≠ []) :
    ∃ n, cachedSize (tags.foldl (parseBlockSize base) table) rel = some n
      ∧ n.toNat = raiseTo (knownSize base table rel).toNat (blocksOn rel tags) := by
  induction tags generalizing table with
  | nil =>
      cases hc : cachedSize table rel with
      | none => exact absurd rfl (hcached hc)
      | some n => exact ⟨n, hc, by rw [knownSize, view_of_some hc]; rfl⟩
  | cons tag tags ih =>
      rw [List.foldl_cons]
      by_cases htag : tag.relTag = rel
      · subst htag
        have hblocks : blocksOn tag.relTag (tag :: tags)
            = tag.blockNum :: blocksOn tag.relTag tags := by
          simp [blocksOn]
        rw [hblocks] at hb ⊢
        obtain ⟨n, hn, hnat⟩ := cacheable_max hknown (hb _ List.mem_cons_self)
        have hn : cachedSize (parseBlockSize base table tag) tag.relTag = some n := by
          rw [cachedSize_parseBlockSize, update_self, hn]
        have hview : knownSize base (parseBlockSize base table tag) tag.relTag = n :=
          view_of_some hn
        obtain ⟨m, hm, hmnat⟩ := ih (fun b hb' => hb b (List.mem_cons_of_mem _ hb'))
          (by rw [hview]; exact cachedSize_ne_invalidSize hn) (by simp [hn])
        refine ⟨m, hm, ?_⟩
        rw [hmnat, hview, hnat]
        rfl
      · have hblocks : blocksOn rel (tag :: tags) = blocksOn rel tags := by
          simp [blocksOn, htag]
        have hsame : cachedSize (parseBlockSize base table tag) rel = cachedSize table rel := by
          rw [cachedSize_parseBlockSize, update_of_ne (Ne.symm htag)]
        have hview : knownSize base (parseBlockSize base table tag) rel
            = knownSize base table rel := by
          simp [knownSize, view, hsame]
        rw [hblocks] at hb hcached ⊢
        rw [← hview] at hknown ⊢
        exact ih hb hknown (by rwa [hsame])

lemma cachedSize_foldl_of_nil (tags : List BufferTag) (h : blocksOn rel tags = []) :
    cachedSize (tags.foldl (parseBlockSize base) table) rel = cachedSize table rel := by
  induction tags generalizing table with
  | nil => rfl
  | cons tag tags ih =>
      have htag : tag.relTag ≠ rel := by
        rintro rfl
        simp [blocksOn] at h
      rw [List.foldl_cons, ih (by simpa [blocksOn, htag] using h), cachedSize_parseBlockSize,
        update_of_ne htag.symm]

end Parser

/-! ## Runs -/

/-- The steps that keep the size of `rel`: when a record refers to the fork, the fork is cached or
has a file, of a size the cache can keep; no block is so large, and no truncation sets a size so
large, that the fork would have `2 ^ 32 - 1` blocks. -/
def SizeKept (base : RelFiles) (rel : RelTag) (table : RelSizeTable) : SizeOp D → Prop
  | .parse record =>
      (∀ b ∈ (SizeOp.parse record).blocks rel, b < 0xFFFFFFFE)
      ∧ ((SizeOp.parse record).blocks rel ≠ [] → cachedSize table rel = none →
          ∃ n, base rel = some n ∧ n ≠ invalidSize)
  | .truncate rel' blknum => rel' = rel → blknum ≠ -1

/-- The parser's invariant for `rel` after `ops`. -/
structure SizeOk (base : RelFiles) (rel : RelTag) (ops : List (SizeOp D)) (table : RelSizeTable) :
    Prop where
  /-- the size the parser knows is the expected one -/
  known : knownSize base table rel ≠ invalidSize →
    (knownSize base table rel).toNat = expectedSize base rel ops
  /-- a fork some record referred to is cached -/
  cached : (∃ op ∈ ops, op.blocks rel ≠ []) → cachedSize table rel ≠ none

variable {base : RelFiles} {table : RelSizeTable} {rel : RelTag} {ops : List (SizeOp D)}

lemma SizeOk.init (h : cachedSize table rel = none) :
    SizeOk (D := D) base rel [] table where
  known hknown := by
    rw [knownSize, view_of_none h] at hknown ⊢
    cases hb : base rel with
    | none => simp [reportedSize, hb] at hknown
    | some n => simp [expectedSize, raiseTo, floorSize, parsedSince, reportedSize, hb]
  cached := by simp

lemma SizeOk.of_same {op : SizeOp D} {table' : RelSizeTable} (hok : SizeOk base rel ops table)
    (hsame : cachedSize table' rel = cachedSize table rel)
    (hexp : expectedSize base rel (ops ++ [op]) = expectedSize base rel ops)
    (hblocks : op.blocks rel = []) : SizeOk base rel (ops ++ [op]) table' where
  known := by
    have hview : knownSize base table' rel = knownSize base table rel := by
      simp [knownSize, view, hsame]
    rw [hview, hexp]
    exact hok.known
  cached := by
    rintro ⟨op', hmem, hne⟩
    rw [hsame]
    rcases List.mem_append.mp hmem with hmem | hmem
    · exact hok.cached ⟨op', hmem, hne⟩
    · rw [List.mem_singleton.mp hmem] at hne
      exact absurd hblocks hne

lemma SizeOk.of_cached {n : UInt32} (hn : cachedSize table rel = some n)
    (hexp : n.toNat = expectedSize base rel ops) : SizeOk base rel ops table where
  known _ := by rw [knownSize, view_of_some hn, hexp]
  cached _ := by simp [hn]

lemma SizeOk.step {op : SizeOp D} (hok : SizeOk base rel ops table)
    (hkept : SizeKept base rel table op) :
    SizeOk base rel (ops ++ [op]) (sizeStep base table op) := by
  cases op with
  | parse record =>
      obtain ⟨hb, hbase⟩ := hkept
      have hexp : expectedSize base rel (ops ++ [.parse record])
          = raiseTo (expectedSize base rel ops) ((SizeOp.parse record).blocks rel) :=
        expectedSize_parse record
      by_cases hblocks : (SizeOp.parse record).blocks rel = []
      · refine hok.of_same ?_ (by rw [hexp, hblocks]; rfl) hblocks
        simp only [sizeStep, parseRelSizes]
        by_cases hs : record.rmid.sized
        · rw [if_pos hs]
          exact cachedSize_foldl_of_nil _ (by simpa [SizeOp.blocks, hs] using hblocks)
        · rw [if_neg hs]
      · -- the record refers to the fork, so its size is known
        have hs : record.rmid.sized = true := by
          by_contra hs
          simp [SizeOp.blocks, hs] at hblocks
        have hblocksOn : (SizeOp.parse record).blocks rel = blocksOn rel record.tags := by
          simp [SizeOp.blocks, hs]
        have hknown : knownSize base table rel ≠ invalidSize := by
          cases hc : cachedSize table rel with
          | some n =>
              rw [knownSize, view_of_some hc]
              exact cachedSize_ne_invalidSize hc
          | none =>
              obtain ⟨n, hn, hne⟩ := hbase hblocks hc
              rw [knownSize, view_of_none hc]
              simpa [reportedSize, hn] using hne
        rw [hblocksOn] at hb hblocks hexp
        obtain ⟨n, hn, hnat⟩ :=
          cachedSize_foldl_parseBlockSize record.tags hb hknown (fun _ => hblocks)
        refine SizeOk.of_cached (n := n) ?_ ?_
        · simpa [sizeStep, parseRelSizes, hs] using hn
        · rw [hnat, hexp, hok.known hknown]
  | truncate rel' blknum =>
      by_cases hrel : rel' = rel
      · subst hrel
        have hne : blknum.toUInt32 ≠ invalidSize := by
          rw [Ne, ← toInt32_eq_neg_one_iff, Int32.toInt32_toUInt32]
          exact hkept rfl
        refine SizeOk.of_cached (n := blknum.toUInt32) ?_ (expectedSize_truncate blknum).symm
        simp [sizeStep, rpcTruncate, cachedSize_insert, cacheable, hne]
      · refine hok.of_same ?_ (expectedSize_truncate_of_ne hrel blknum) rfl
        rw [sizeStep, rpcTruncate, cachedSize_insert, update_of_ne (Ne.symm hrel)]

/-- **The parser keeps the size of a fork.**  In every run from a state where the fork is not
cached, whose steps leave the fork a size the cache can keep, the fork is cached once a record has
referred to it, with the size of the last truncation (or of the file) raised to hold every block
parsed since. -/
theorem parsed_size_expected {table' : RelSizeTable} (h0 : cachedSize table rel = none)
    (hrun : Run (Guarded (SizeStep base) (SizeKept (D := D) base rel)) table ops table')
    (hparsed : ∃ op ∈ ops, op.blocks rel ≠ []) :
    ∃ n, cachedSize table' rel = some n ∧ n.toNat = expectedSize base rel ops := by
  have hok : SizeOk base rel ops table' := by
    refine hrun.history_invariant (SizeOk.init h0) ?_
    rintro ops t op _ - hok ⟨hkept, rfl⟩
    exact hok.step hkept
  cases hc : cachedSize table' rel with
  | none => exact absurd hc (hok.cached hparsed)
  | some n =>
      refine ⟨n, rfl, ?_⟩
      have hview : knownSize base table' rel = n := view_of_some hc
      rw [← hview]
      exact hok.known (by rw [hview]; exact cachedSize_ne_invalidSize hc)

/-- A record that initialises block 0 of `sampleFork`. -/
def firstInsert : XLogRecord Unit :=
  { rmid := .heap, xlInfo := 0x80, flags := 0, blocks := [some ⟨⟨1, 1, 1, 0, 0⟩, false, true⟩]
    endRecPtr := 0, data := () }

/-- With an empty file the fork has one block after the record. -/
theorem parsed_size_expected_empty_file :
    ∃ n, cachedSize (sizeStep (fun _ => some 0) (fun _ => none) (.parse firstInsert)) sampleFork
        = some n
      ∧ n.toNat = expectedSize (fun _ => some 0) sampleFork [.parse firstInsert] := by
  have hblocks : (SizeOp.parse firstInsert).blocks sampleFork = [0] := by decide
  exact parsed_size_expected rfl
    (.snoc .nil ⟨⟨by simp [hblocks], fun _ _ => ⟨0, rfl, by decide⟩⟩, rfl⟩)
    ⟨_, List.mem_singleton_self _, by simp [hblocks]⟩

/-- **A fork without a file is never cached.**  Its first record refers to block 0, so one block is
expected; the sentinel is stored and reads as "not found". -/
theorem parse_missing_fork :
    ∃ table', Run (SizeStep (fun _ => none)) (fun _ => none) [.parse firstInsert] table'
      ∧ (SizeOp.parse firstInsert).blocks sampleFork = [0]
      ∧ expectedSize (fun _ => none) sampleFork [.parse firstInsert] = 1
      ∧ cachedSize table' sampleFork = none :=
  ⟨_, .snoc .nil rfl, by decide, by decide, by decide⟩

end GroundDB
