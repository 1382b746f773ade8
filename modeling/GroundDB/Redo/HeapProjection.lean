import GroundDB.Redo.HeapIndex

/-!
# Single-page heap redo is the projection of full redo

A log of heap records is replayed twice: with the upstream redo, and page by page with the
single-page routines, each page with the records that are indexed for it.  The contents of every
heap page are the same; its LSN need not be, since the single-page routines set it in more places.

A page of the visibility map may be missing on one side: full redo extends the map through the page
it clears bits on, and no record is indexed for the pages below.  A map page that is new or missing
reads as an empty one (`HeapOps.contents`), and up to this the map pages are the same too.  Free
space is recorded by full redo only, so the pages of the free space map are left out.

The two pages are therefore compared up to the LSN, and the LSNs are kept below the records to come
(`SameContents`).  Then no record is skipped on one side only: a page whose LSN is below that of the
record is redone on both.
-/

namespace GroundDB

open Touch

variable {C D : Type}

namespace HeapOps

variable (ops : HeapOps D C)

/-- The contents of a page as they are read: `vm_readbuf` initialises a map page that is new. -/
def contents (tag : BufferTag) (p : RedoPage C) : Option C :=
  if tag.forkNum = 2 then (ops.initIfNew p).body else p.body

/-- Equal contents, and LSNs of at most `lsn`. -/
structure SameContents (lsn : ℕ) (tag : BufferTag) (p q : RedoPage C) : Prop where
  contents : ops.contents tag p = ops.contents tag q
  left : p.lsn ≤ lsn
  right : q.lsn ≤ lsn

/-- Equal contents, and LSNs below `lsn`: a record with this LSN is redone on both pages. -/
structure Stale (lsn : ℕ) (tag : BufferTag) (p q : RedoPage C) : Prop where
  contents : ops.contents tag p = ops.contents tag q
  left : p.lsn < lsn
  right : q.lsn < lsn

variable {ops} {record : XLogRecord D} {tag : BufferTag} {p q : RedoPage C} {lsn : ℕ}
  {heapBlk : UInt32} {flags : UInt8}

lemma contents_heap (hfork : tag.forkNum = 0) (p : RedoPage C) : ops.contents tag p = p.body := by
  simp [contents, hfork]

lemma contents_map (hfork : tag.forkNum = 2) (p : RedoPage C) :
    ops.contents tag p = (ops.initIfNew p).body := by
  simp [contents, hfork]

lemma initIfNew_lsn_le (p : RedoPage C) : (ops.initIfNew p).lsn ≤ p.lsn := by
  rcases p with ⟨lsn, _ | c⟩ <;> simp [initIfNew]

lemma SameContents.of_body (h : p.body = q.body) (hp : p.lsn ≤ lsn) (hq : q.lsn ≤ lsn) :
    ops.SameContents lsn tag p q := by
  refine ⟨?_, hp, hq⟩
  obtain ⟨_, body⟩ := p
  obtain ⟨_, body'⟩ := q
  obtain rfl : body = body' := h
  cases body with
  | none => simp [HeapOps.contents, initIfNew]
  | some c => simp [HeapOps.contents, initIfNew]

lemma Stale.sameContents (h : ops.Stale lsn tag p q) : ops.SameContents lsn tag p q :=
  ⟨h.contents, h.left.le, h.right.le⟩

lemma SameContents.stale {n : ℕ} (h : ops.SameContents n tag p q) (hn : n < lsn) :
    ops.Stale lsn tag p q :=
  ⟨h.contents, h.left.trans_lt hn, h.right.trans_lt hn⟩

lemma Stale.body (h : ops.Stale lsn tag p q) (hfork : tag.forkNum = 0) : p.body = q.body := by
  simpa only [contents_heap hfork] using h.contents

lemma sameContents_redo (h : p.body = q.body) (f : C → C) :
    ops.SameContents lsn tag (p.redo f lsn) (q.redo f lsn) :=
  .of_body (by simp [RedoPage.redo, h]) le_rfl le_rfl

lemma sameContents_restored (image : Option C) :
    ops.SameContents lsn tag (restoredPage image lsn) (restoredPage image lsn) := by
  cases image with
  | none => exact ⟨rfl, Nat.zero_le _, Nat.zero_le _⟩
  | some c => exact ⟨rfl, le_rfl, le_rfl⟩

/-- A block is treated alike on both sides.  Only in normal mode is it asked whether its page is
new. -/
lemma blockEffect_sameContents {id : ℕ} {blk : DecodedBkpBlock} {mode : RedoReadMode}
    {f g : RedoPage C → RedoPage C} (h : ops.Stale record.endRecPtr tag p q)
    (hbody : mode = .normal → p.body = q.body)
    (hfg : ops.SameContents record.endRecPtr tag (f p) (g q)) :
    ops.SameContents record.endRecPtr tag (blockEffect ops.image record id blk mode f p)
      (blockEffect ops.image record id blk mode g q) := by
  have haction : blockAction record blk mode q = blockAction record blk mode p := by
    by_cases hmode : mode = .normal
    · simp [blockAction, hbody hmode, h.left.not_ge, h.right.not_ge]
    · simp [blockAction, hmode, h.left.not_ge, h.right.not_ge]
  unfold blockEffect
  rw [haction]
  cases blockAction record blk mode p with
  | needsRedo => exact hfg
  | restored => exact sameContents_restored _
  | done | notFound => exact h.sameContents

/-! ## Map pages -/

/-- A map page that is initialised on one side only. -/
lemma initIfNew_sameContents (hfork : tag.forkNum = 2) (h : ops.SameContents lsn tag p q) :
    ops.SameContents lsn tag (ops.initIfNew p) q := by
  refine ⟨?_, (initIfNew_lsn_le p).trans h.left, h.right⟩
  rw [← h.contents, contents_map hfork, contents_map hfork]
  rcases p with ⟨_, _ | c⟩ <;> rfl

/-- Clearing bits of the map: the full redo leaves the LSN alone. -/
lemma clearMap_sameContents (hfork : tag.forkNum = 2) (h : ops.SameContents lsn tag p q) :
    ops.SameContents lsn tag (ops.upstream.clearMap lsn heapBlk flags p)
      (ops.polar.clearMap lsn heapBlk flags q) := by
  have hbody : (ops.initIfNew p).body = (ops.initIfNew q).body := by
    simpa only [contents_map hfork] using h.contents
  refine .of_body (by simp [upstream, polar, clearedPage, hbody]) ?_ (max_le ?_ le_rfl)
  · exact (initIfNew_lsn_le p).trans h.left
  · exact (initIfNew_lsn_le q).trans h.right

/-- Setting bits of the map: the full redo sets the LSN only if it sets bits. -/
lemma setMap_sameContents (hfork : tag.forkNum = 2) (h : ops.Stale lsn tag p q) :
    ops.SameContents lsn tag (ops.upstream.setMap lsn heapBlk flags p)
      (ops.polar.setMap lsn heapBlk flags q) := by
  have hbody : (ops.initIfNew p).body = (ops.initIfNew q).body := by
    simpa only [contents_map hfork] using h.contents
  have hp : (ops.initIfNew p).lsn < lsn := (initIfNew_lsn_le p).trans_lt h.left
  have hq : (ops.initIfNew q).lsn < lsn := (initIfNew_lsn_le q).trans_lt h.right
  have hpolar : ops.polar.setMap lsn heapBlk flags q =
      (ops.initIfNew q).redo (ops.setBits heapBlk flags) lsn := by
    simp [polar, polarSetPage, hq]
  have hupstream : ops.upstream.setMap lsn heapBlk flags p =
      ops.setPage heapBlk flags lsn (ops.initIfNew p) := by
    simp [upstream, hp]
  rw [hpolar, hupstream]
  unfold setPage
  cases hc : (ops.initIfNew p).body with
  | none => exact absurd hc (initIfNew_body_ne_none p)
  | some c =>
      by_cases hhas : ops.mapHas heapBlk flags c
      · exact .of_body (by simp [RedoPage.redo, ← hbody, hc, hhas, setBits])
          (by simpa [hhas] using hp.le) le_rfl
      · exact .of_body (by simp [RedoPage.redo, ← hbody, hc, hhas, setBits])
          (by simp [hhas]) le_rfl

/-- The heap page that becomes all-visible: the full redo leaves the LSN alone. -/
lemma setVisible_sameContents (hfork : tag.forkNum = 0) (h : ops.Stale lsn tag p q) :
    ops.SameContents lsn tag (ops.upstream.setVisible lsn p) (ops.polar.setVisible lsn q) :=
  .of_body (by simp [upstream, polar, RedoPage.redo, h.body hfork]) h.left.le le_rfl

/-! ## The touches of a record -/

/-- The touches of the two sides take stale pages to pages with the same contents. -/
abbrev Agree (ops : HeapOps D C) (record : XLogRecord D) (l l' : Touches C) : Prop :=
  Related (ops.Stale record.endRecPtr) (ops.SameContents record.endRecPtr) l l'

lemma Agree.nil : Agree ops record [] [] := Related.nil fun _ _ _ => Stale.sameContents

/-- A map page may be touched more than once.  The pages below it are initialised by the full redo
only. -/
lemma Agree.append_map {l l' : Touches C}
    (h : Agree ops record l l') (flag : Bool) (heap : BufferTag) :
    Agree ops record (l ++ mapTouch ops.upstream record flag heap flags)
      (l' ++ mapTouch ops.polar record flag heap flags) := by
  cases flag with
  | false => simpa [mapTouch] using h
  | true =>
      simp only [mapTouch, if_true, ← List.append_assoc]
      refine Related.append_again ?_ fun _ _ => clearMap_sameContents rfl
      have hbelow : ops.polar.below record (mapTag heap) = [] := rfl
      rw [hbelow, List.append_nil]
      refine h.append_left fun e he p q hpq => ?_
      obtain ⟨_, _, rfl⟩ := ops.mem_initBelow he
      exact initIfNew_sameContents rfl hpq

lemma heapPageEffect_sameContents {blk : DecodedBkpBlock} {init : Bool} {f : C → C}
    (hfork : tag.forkNum = 0) (h : ops.Stale record.endRecPtr tag p q) :
    ops.SameContents record.endRecPtr tag
      (ops.heapPageEffect record blk init (RedoPage.redo f record.endRecPtr) p)
      (ops.heapPageEffect record blk init (RedoPage.redo f record.endRecPtr) q) := by
  cases init with
  | true => exact sameContents_redo rfl f
  | false =>
      exact blockEffect_sameContents h (fun _ => h.body hfork) (sameContents_redo (h.body hfork) f)

lemma mapHeapTouches_agree {init : Bool} {f : C → C} (hform : OneHeapBlock record init) :
    Agree ops record (ops.mapHeapTouches ops.upstream record flags init f)
      (ops.mapHeapTouches ops.polar record flags init f) := by
  obtain ⟨blk, hblk, hfork, -⟩ := hform
  rw [mapHeapTouches_eq hblk, mapHeapTouches_eq hblk]
  refine Related.append_once (Agree.nil.append_map _ _) ?_ fun _ _ =>
    heapPageEffect_sameContents hfork
  simpa using notMem_mapTouch hfork

lemma onePageTouches_agree {init : Bool} {f : C → C} (hform : OneHeapBlock record init) :
    Agree ops record (ops.onePageTouches record f) (ops.onePageTouches record f) := by
  obtain ⟨blk, hblk, hfork, -⟩ := hform
  rw [onePageTouches_eq hblk]
  exact Related.append_once Agree.nil (by simp) fun _ _ => heapPageEffect_sameContents hfork

lemma redoOldPage_congr {hotUpdate : Bool} (h : p.body = q.body) :
    ops.redoOldPage record hotUpdate p = ops.redoOldPage record hotUpdate q := by
  simp [redoOldPage, RedoPage.redo, h]

lemma updateTouches_agree {hotUpdate : Bool} (hform : UpdateForm record) :
    Agree ops record (ops.updateTouches ops.upstream record hotUpdate)
      (ops.updateTouches ops.polar record hotUpdate) := by
  cases hform with
  | samePage blk hblk hfork hinit hone htwo =>
      rw [updateTouches_samePage hblk hone, updateTouches_samePage hblk hone]
      refine Related.append_once (Agree.nil.append_map _ _) ?_ fun p q h =>
        blockEffect_sameContents h (fun _ => h.body hfork) ?_
      · simpa using notMem_mapTouch hfork
      · rw [redoSamePage, redoSamePage, redoOldPage_congr (h.body hfork)]
        exact sameContents_redo rfl _
  | twoPages new old hnew hold hfork hrel hne hinit holdInit htwo hthree hcopy =>
      have hoff : old.tag ≠ new.tag := fun h => hne (congrArg _ h)
      have hforkOld : old.tag.forkNum = 0 := by rw [hrel, hfork]
      simp only [updateTouches_twoPages hnew hold, ← List.append_assoc]
      refine Related.append_once (Agree.append_map (Related.append_once (Agree.nil.append_map _ _)
        ?_ fun p q h => blockEffect_sameContents h (fun _ => h.body hforkOld)
          (sameContents_redo (h.body hforkOld) _)) _ _) ?_
        fun _ _ => heapPageEffect_sameContents hfork
      · simpa using notMem_mapTouch hforkOld
      · simp [notMem_mapTouch hfork, hoff.symm]

lemma visibleTouches_agree (hform : VisibleForm record) :
    Agree ops record (ops.visibleTouches ops.upstream record)
      (ops.visibleTouches ops.polar record) := by
  obtain ⟨vm, heap, hvm, hheap, hfork, hmap, -⟩ := hform
  have hne : vm.tag ≠ heap.tag := by
    rw [hmap]
    exact mapTag_ne hfork
  rw [visibleTouches_eq hvm hheap, visibleTouches_eq hvm hheap]
  have hforkVm : vm.tag.forkNum = 2 := by rw [hmap]; rfl
  have hheapPage : Agree ops record
      [(heap.tag, blockEffect ops.image record 1 heap .normal
        (ops.upstream.setVisible record.endRecPtr))]
      [(heap.tag, blockEffect ops.image record 1 heap .normal
        (ops.polar.setVisible record.endRecPtr))] :=
    Related.append_once Agree.nil (by simp) fun p q h =>
      blockEffect_sameContents h (fun _ => h.body hfork) (setVisible_sameContents hfork h)
  exact hheapPage.append_once (by simpa using hne) fun p q h =>
    blockEffect_sameContents h (by simp) (setMap_sameContents hforkVm h)

/-- **The two sides agree on every record.** -/
theorem recordTouches_agree (hform : HeapRecord record) :
    Agree ops record (ops.recordTouches ops.upstream record)
      (ops.recordTouches ops.polar record) := by
  unfold recordTouches
  rcases hform with ⟨hrmid, hform⟩ | ⟨hrmid, hform⟩ <;> rw [hrmid]
  · unfold HeapWellFormed at hform
    unfold heapTouches
    cases hop : heapOp record.info with
    | insert | delete | lock =>
        rw [hop] at hform
        exact mapHeapTouches_agree hform
    | confirm | inplace =>
        rw [hop] at hform
        exact onePageTouches_agree hform
    | update =>
        rw [hop] at hform
        exact updateTouches_agree hform
    | hotUpdate =>
        rw [hop] at hform
        exact updateTouches_agree hform.1
    | truncate => exact .nil
  · unfold Heap2WellFormed at hform
    unfold heap2Touches
    cases hop : heap2Op record.info with
    | clean | freezePage =>
        rw [hop] at hform
        exact onePageTouches_agree hform
    | multiInsert | lockUpdated =>
        rw [hop] at hform
        exact mapHeapTouches_agree hform
    | visible =>
        rw [hop] at hform
        exact visibleTouches_agree hform
    | cleanupInfo | newCid | rewrite => exact .nil

/-- Full redo of a heap record. -/
def rmRedo (ops : HeapOps D C) (record : XLogRecord D) : Redo C Unit :=
  match record.rmid with
  | .heap => ops.heapRedo record
  | .heap2 => ops.heap2Redo record
  | _ => pure ()

end HeapOps

/-- A heap record as it is written: with the blocks its writer registers, and, if it is an update,
the flag of the new page only if that is not the old one. -/
def WrittenHeapRecord (record : XLogRecord D) : Prop :=
  HeapRecord record ∧ (record.rmid = .heap → UpdateFlags record)

lemma rmRedo_makes (ops : HeapOps D C) {record : XLogRecord D} (hform : WrittenHeapRecord record)
    {s : RedoState C} (hlocked : s.locked = []) :
    MakesOn NotFsm (ops.recordTouches ops.upstream record) (ops.rmRedo record) s := by
  obtain ⟨hform, hflags⟩ := hform
  unfold HeapOps.rmRedo HeapOps.recordTouches
  rcases hform with ⟨hrmid, hform⟩ | ⟨hrmid, hform⟩ <;> rw [hrmid]
  · exact HeapOps.heapRedo_makes hform (hflags hrmid) hlocked
  · exact HeapOps.heap2Redo_makes hform hlocked

/-- **Single-page heap redo is the projection of full redo.**  For every log of heap records of
increasing LSN and every set of pages whose LSNs are below all of them, full redo of the log
succeeds, and so does, for every page, single-page redo of the records that are indexed for it.  The
contents of a heap page are the same, and so are those of a page of the visibility map, where one
that is new or missing counts as empty.  The size each redo finds the map to have is arbitrary. -/
theorem heap_redo_projection (ops : HeapOps D C) {log : List (XLogRecord D)}
    (hform : ∀ record ∈ log, WrittenHeapRecord record)
    (hlsn : log.Pairwise fun r r' => r.endRecPtr < r'.endRecPtr) {s : RedoState C}
    (hlocked : s.locked = []) (hold : ∀ tag, ∀ record ∈ log, (s.pages tag).lsn < record.endRecPtr) :
    ∃ s', redoAll ops.rmRedo log s = .ok ((), s') ∧
      ∀ tag : BufferTag, tag.forkNum ≠ 1 →
        ∃ s'', redoPage ops.polarIdxRedo tag (indexedFor tag log) s = .ok ((), s'') ∧
          ops.contents tag (s''.pages tag) = ops.contents tag (s'.pages tag) := by
  obtain ⟨s', hall, hpages⟩ := redoAll_run (fun r hr s => rmRedo_makes ops (hform r hr)) hlocked
  refine ⟨s', hall, fun tag htag => ?_⟩
  obtain ⟨s'', hone, hpage⟩ := redoPage_indexed_run
    (fun r hr _ s hs => (polarIdxRedo_singlePage ops (hform r hr).1 hs tag).changesPage)
    (fun r hr => heapRecord_indexed ops (hform r hr).1) hlocked
  refine ⟨s'', hone, ?_⟩
  have hinitial : ops.SameContents (s.pages tag).lsn tag (s.pages tag) (s.pages tag) :=
    ⟨rfl, le_rfl, le_rfl⟩
  obtain ⟨n, hsame⟩ := replayAt_related (ops.recordTouches ops.upstream)
    (ops.recordTouches ops.polar) XLogRecord.endRecPtr (fun n => ops.SameContents n tag)
    (fun r hr n hn p q hpq =>
      (HeapOps.recordTouches_agree (hform r hr).1).post tag p q (hpq.stale hn))
    hlsn (hold tag) hinitial
  rw [hpage, hpages tag htag]
  exact hsame.contents.symm

/-- Page 8 becomes all-visible. -/
def visiblePage : XLogRecord Unit where
  rmid := .heap2
  xlInfo := 0x40
  flags := 0x01
  blocks := [some ⟨⟨1663, 5, 16384, 2, 0⟩, false, false⟩,
    some ⟨⟨1663, 5, 16384, 0, 8⟩, false, false⟩]
  endRecPtr := 200
  data := ()

/-- An insert into heap page 40000, which was all-visible; its map page is page 1. -/
def insertBeyondMap : XLogRecord Unit where
  rmid := .heap
  xlInfo := 0x00
  flags := 0x01
  blocks := [some ⟨⟨1663, 5, 16384, 0, 40000⟩, false, false⟩]
  endRecPtr := 300
  data := ()

/-- Heap pages without tuples, and no visibility map. -/
def noMap : RedoState ℕ := ⟨fun tag => ⟨0, if tag.forkNum = 0 then some 0 else none⟩, []⟩

theorem heap_redo_projection_update_visible_insert :
    ∃ s', redoAll countTuples.rmRedo [sharedMapUpdate, visiblePage, insertBeyondMap] noMap
        = .ok ((), s') ∧
      ∀ tag : BufferTag, tag.forkNum ≠ 1 →
        ∃ s'', redoPage countTuples.polarIdxRedo tag
            (indexedFor tag [sharedMapUpdate, visiblePage, insertBeyondMap]) noMap
            = .ok ((), s'') ∧
          countTuples.contents tag (s''.pages tag) = countTuples.contents tag (s'.pages tag) := by
  refine heap_redo_projection countTuples ?_ (by decide) rfl
    (by simp [sharedMapUpdate, visiblePage, insertBeyondMap, noMap])
  intro record hrecord
  obtain rfl | rfl | rfl : record = sharedMapUpdate ∨ record = visiblePage ∨
      record = insertBeyondMap := by simpa using hrecord
  · refine ⟨.inl ⟨rfl, ?_⟩, fun _ _ h => by cases h⟩
    exact UpdateForm.twoPages _ _ rfl rfl rfl rfl (by decide) rfl rfl rfl rfl rfl
  · exact ⟨.inr ⟨rfl, _, _, rfl, rfl, rfl, rfl, rfl, rfl⟩, fun h => by cases h⟩
  · exact ⟨.inl ⟨rfl, _, rfl, rfl, rfl, rfl⟩, fun _ _ _ => rfl⟩

/-- **Map pages below the one bits are cleared on** are made by full redo only: the insert clears
bits on page 1 of a map that does not exist yet, full redo initialises page 0 on the way, and no
record is indexed for page 0. -/
theorem map_page_missing :
    WrittenHeapRecord insertBeyondMap ∧ ∃ s' s'',
      redoAll countTuples.rmRedo [insertBeyondMap] noMap = .ok ((), s') ∧
      redoPage countTuples.polarIdxRedo ⟨1663, 5, 16384, 2, 0⟩
        (indexedFor ⟨1663, 5, 16384, 2, 0⟩ [insertBeyondMap]) noMap = .ok ((), s'') ∧
      (s'.pages ⟨1663, 5, 16384, 2, 0⟩).body = some 0 ∧
      (s''.pages ⟨1663, 5, 16384, 2, 0⟩).body = none :=
  ⟨⟨.inl ⟨rfl, _, rfl, rfl, rfl, rfl⟩, fun _ _ _ => rfl⟩, _, _, rfl, rfl, by decide, by decide⟩

end GroundDB
