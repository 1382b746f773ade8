import GroundDB.LogIndex.TagList

/-!
# The pages of heap records

`polar_heap_idx_save` and `polar_heap2_idx_save` with the list routines beside them.  The records
are decoded ones: visibility-map pages have block ids of their own.

Of the list routines only `polar_heap_insert_get_bufftag_list` stores into the elements of the
array.  The others store through the caller's variable, so they list a page only if it is the only
one; `TRUNCATE`, `CLEANUP_INFO` and `NEW_CID` return `true` and leave `*tagNum` alone.
-/

namespace GroundDB

variable {D : Type} (record : XLogRecord D)

/-- `CLEAR_BUFFERTAG`. -/
def clearedTag : BufferTag := ⟨0, 0, 0, -1, 0xFFFFFFFF⟩

/-- The map page under id 1, if the record cleared bits on it, and the heap page. -/
def mapThenHeap : List ℕ := onlyIf record.visibleCleared [1] ++ [0]

/-- `oldblk` and `newblk` of an update.  Without block 0 `newblk` would be left uninitialised. -/
def XLogRecord.updateBlks (record : XLogRecord D) : Option (UInt32 × UInt32) := do
  let new ← record.blockTag? 0
  some (((record.blockTag? 1).map (·.blockNum)).getD new.blockNum, new.blockNum)

/-! ## Save -/

/-- `polar_heap_insert_save`. -/
def polarHeapInsertSave : List ℕ := mapThenHeap record

/-- `polar_heap_delete_save`. -/
def polarHeapDeleteSave : List ℕ := mapThenHeap record

/-- `polar_heap_lock_save`. -/
def polarHeapLockSave : List ℕ := mapThenHeap record

/-- `polar_heap_multi_insert_save`. -/
def polarHeapMultiInsertSave : List ℕ := mapThenHeap record

/-- `polar_heap_lock_update_save`. -/
def polarHeapLockUpdateSave : List ℕ := mapThenHeap record

/-- `polar_heap_xlog_update_save`.  A missing map block is a panic; a map page that both heap pages
share is inserted once. -/
def polarHeapXlogUpdateSave : Option (List ℕ) := do
  let (oldblk, newblk) ← record.updateBlks
  let vmBlock := if oldblk = newblk then 2 else 3
  let oldClearedVm ← if record.visibleCleared then record.blockTag? vmBlock else some clearedTag
  let ids := onlyIf record.visibleCleared [vmBlock]
  if oldblk = newblk then some (ids ++ [0])
  else if record.newVisibleCleared then do
    let newClearedVm ← record.blockTag? 2
    some (ids ++ [1, 0] ++ onlyIf (oldClearedVm ≠ newClearedVm) [2])
  else some (ids ++ [1, 0])

/-- `polar_heap_idx_save`. -/
def polarHeapIdxSave : IdxResult (List ℕ) :=
  match heapOp record.info with
  | .insert => .handled (polarHeapInsertSave record)
  | .delete => .handled (polarHeapDeleteSave record)
  | .update | .hotUpdate => .ofOption (polarHeapXlogUpdateSave record)
  | .truncate => .handled []
  | .confirm | .inplace => .handled [0]
  | .lock => .handled (polarHeapLockSave record)

/-- `polar_heap2_idx_save`.  `REWRITE` replays its own file here and inserts no page. -/
def polarHeap2IdxSave : IdxResult (List ℕ) :=
  match heap2Op record.info with
  | .clean | .freezePage => .handled [0]
  | .cleanupInfo | .newCid | .rewrite => .handled []
  | .visible => .handled [1, 0]
  | .multiInsert => .handled (polarHeapMultiInsertSave record)
  | .lockUpdated => .handled (polarHeapLockUpdateSave record)

/-! ## List -/

/-- `polar_heap_insert_get_bufftag_list`. -/
def polarHeapInsertGetBufftagList : TagList :=
  getBufftagList 2 .element (mapThenHeap record) record

/-- `polar_heap_delete_get_bufftag_list`. -/
def polarHeapDeleteGetBufftagList : TagList :=
  getBufftagList 2 .pointer (mapThenHeap record) record

/-- `polar_heap_lock_get_bufftag_list`. -/
def polarHeapLockGetBufftagList : TagList :=
  getBufftagList 2 .pointer (mapThenHeap record) record

/-- `polar_heap_multi_insert_get_bufftag_list`. -/
def polarHeapMultiInsertGetBufftagList : TagList :=
  getBufftagList 2 .pointer (mapThenHeap record) record

/-- `polar_heap_lock_update_get_bufftag_list`. -/
def polarHeapLockUpdateGetBufftagList : TagList :=
  getBufftagList 2 .pointer (mapThenHeap record) record

/-- `polar_heap_xlog_update_get_bufftag_list`. -/
def polarHeapXlogUpdateGetBufftagList : Option TagList := do
  let (oldblk, newblk) ← record.updateBlks
  let vmBlock := if oldblk = newblk then 2 else 3
  let oldClearedVm ← if record.visibleCleared then record.blockTag? vmBlock else some clearedTag
  let ids := onlyIf record.visibleCleared [vmBlock] ++ [if oldblk = newblk then 0 else 1]
  if oldblk ≠ newblk then
    if record.newVisibleCleared then do
      let newClearedVm ← record.blockTag? 2
      some (getBufftagList 4 .pointer
        (ids ++ [0] ++ onlyIf (oldClearedVm ≠ newClearedVm) [2]) record)
    else some (getBufftagList 4 .pointer (ids ++ [0]) record)
  else some (getBufftagList 4 .pointer ids record)

/-- `polar_heap_idx_get_bufftag_list`. -/
def polarHeapIdxGetBufftagList : IdxResult TagList :=
  match heapOp record.info with
  | .insert => .handled (polarHeapInsertGetBufftagList record)
  | .delete => .handled (polarHeapDeleteGetBufftagList record)
  | .update | .hotUpdate => .ofOption (polarHeapXlogUpdateGetBufftagList record)
  | .truncate => .handled noBufftagList
  | .confirm | .inplace => .handled (getBufftagList 1 .pointer [0] record)
  | .lock => .handled (polarHeapLockGetBufftagList record)

/-- `polar_heap2_idx_get_bufftag_list`.  `REWRITE` sets `*tagNum` to 0 and allocates nothing. -/
def polarHeap2IdxGetBufftagList : IdxResult TagList :=
  match heap2Op record.info with
  | .clean | .freezePage => .handled (getBufftagList 1 .pointer [0] record)
  | .cleanupInfo | .newCid => .handled noBufftagList
  | .visible => .handled (getBufftagList 2 .pointer [1, 0] record)
  | .multiInsert => .handled (polarHeapMultiInsertGetBufftagList record)
  | .lockUpdated => .handled (polarHeapLockUpdateGetBufftagList record)
  | .rewrite => .handled (getBufftagList 0 .pointer [] record)

/-! ## When the two agree -/

/-- The heap records whose list is right: an insert; a delete or lock that cleared no bits of the
visibility map; an update on one page that cleared none; a record for one page. -/
def heapListable : Prop :=
  match heapOp record.info with
  | .insert => record.hasBlockRef 0
  | .delete | .lock => record.visibleCleared = false ∧ record.hasBlockRef 0
  | .update | .hotUpdate => record.visibleCleared = false ∧
      ∀ old new, record.blockTag? 1 = some old → record.blockTag? 0 = some new →
        old.blockNum = new.blockNum
  | .truncate => False
  | .confirm | .inplace => record.hasBlockRef 0

/-- The records of the second resource manager whose list is right. -/
def heap2Listable : Prop :=
  match heap2Op record.info with
  | .clean | .freezePage => record.hasBlockRef 0
  | .cleanupInfo | .newCid | .visible => False
  | .multiInsert | .lockUpdated => record.visibleCleared = false ∧ record.hasBlockRef 0
  | .rewrite => True

section Match

variable {record} {decoded : XLogRecord D}

/-- The list of map page and heap page, through the pointer. -/
lemma lists_mapThenHeap_pointer :
    (getBufftagList 2 .pointer (mapThenHeap record) record).Lists
        (record.savedTags (mapThenHeap record)) ↔
      record.visibleCleared = false ∧ record.hasBlockRef 0 := by
  cases hflag : record.visibleCleared with
  | true =>
      have htwo : 2 ≤ (mapThenHeap record).length := by simp [mapThenHeap, hflag]
      simp [not_lists_of_two htwo]
  | false =>
      have hone : mapThenHeap record = [0] := by simp [mapThenHeap, hflag]
      simp [hone, lists_single (Lvalue.pointer_inside two_pos)]

/-- After decoding, the map page of a record that cleared its bits is block 1. -/
lemma saveVmBlockIf_present (hdec : saveVmBlockIf record.visibleCleared 0 1 record = some decoded)
    (hflag : decoded.visibleCleared = true) :
    decoded.hasBlockRef 0 = true ∧ decoded.hasBlockRef 1 = true := by
  rcases saveVmBlockIf_cases hdec with ⟨-, blk, hblk, -, rfl⟩ | ⟨hnot, rfl⟩
  · simp [XLogRecord.hasBlockRef, hblk]
  · simp [hnot] at hflag

/-- The list of map page and heap page, through the elements of the array. -/
lemma lists_mapThenHeap_element
    (hdec : saveVmBlockIf record.visibleCleared 0 1 record = some decoded) :
    (getBufftagList 2 .element (mapThenHeap decoded) decoded).Lists
      (decoded.savedTags (mapThenHeap decoded)) ↔ decoded.hasBlockRef 0 := by
  cases hflag : decoded.visibleCleared with
  | true =>
      obtain ⟨hheap, hmap⟩ := saveVmBlockIf_present hdec hflag
      have hids : mapThenHeap decoded = [1, 0] := by simp [mapThenHeap, hflag]
      rw [hids]
      refine iff_of_true (lists_of_present ?_ (by simp [hheap, hmap])) hheap
      intro k hk
      simpa [Lvalue.Inside] using hk
  | false =>
      have hone : mapThenHeap decoded = [0] := by simp [mapThenHeap, hflag]
      rw [hone]
      exact lists_single two_pos 0

/-- The blocks of a decoded update: on one page, with the map page in block 2 if its bits were
cleared; or on two pages, with the old one's map page in block 3 and the new one's in block 2. -/
inductive UpdateBlocks (decoded : XLogRecord D) : Prop
  | samePage (new : BufferTag) (hnew : decoded.blockTag? 0 = some new)
      (hold : ∀ old, decoded.blockTag? 1 = some old → old.blockNum = new.blockNum)
      (hvm : decoded.visibleCleared = true → decoded.blockTag? 2 = some (mapTag new))
  | twoPages (old new : BufferTag) (hnew : decoded.blockTag? 0 = some new)
      (hold : decoded.blockTag? 1 = some old) (hne : old.blockNum ≠ new.blockNum)
      (hvmOld : decoded.visibleCleared = true → decoded.blockTag? 3 = some (mapTag old))
      (hvmNew : decoded.newVisibleCleared = true → decoded.blockTag? 2 = some (mapTag new))

lemma updateBlocks_of_decode (hdec : polarHeapUpdateSaveVmLogindex record = some decoded) :
    UpdateBlocks decoded := by
  simp only [polarHeapUpdateSaveVmLogindex, Option.bind_eq_bind] at hdec
  obtain ⟨new, hnew, hdec⟩ := Option.bind_eq_some_iff.mp hdec
  have hnewTag : record.blockTag? 0 = some new.tag :=
    XLogRecord.blockTag?_of_block? hnew
  split at hdec
  · rename_i hne
    -- two pages: block 1 is in use, since its number differs from that of block 0
    obtain ⟨old, hold⟩ : ∃ old, record.block? 1 = some old := by
      cases hold : record.block? 1 with
      | none => simp [hold] at hne
      | some old => exact ⟨old, rfl⟩
    have holdTag : record.blockTag? 1 = some old.tag :=
    XLogRecord.blockTag?_of_block? hold
    have hblk : old.tag.blockNum ≠ new.tag.blockNum := by simpa [hold, eq_comm] using hne
    obtain ⟨mid, hmid, hdec⟩ := Option.bind_eq_some_iff.mp hdec
    rcases saveVmBlockIf_cases hmid with ⟨hvis, _, hb, -, rfl⟩ | ⟨hvis, rfl⟩ <;>
      rcases saveVmBlockIf_cases hdec with ⟨hnvis, _, hb', -, rfl⟩ | ⟨hnvis, rfl⟩ <;>
      refine .twoPages old.tag new.tag ?_ ?_ hblk ?_ ?_ <;>
      simp_all [XLogRecord.blockTag?_setBlock]
  · rename_i heq
    have hsame : ∀ old, record.blockTag? 1 = some old → old.blockNum = new.tag.blockNum := by
      intro old hold
      obtain ⟨blk, hblk, rfl⟩ := Option.map_eq_some_iff.mp hold
      simpa [hblk, eq_comm] using heq
    rcases saveVmBlockIf_cases hdec with ⟨hvis, blk, hb, -, rfl⟩ | ⟨hvis, rfl⟩ <;>
      refine .samePage new.tag ?_ ?_ ?_ <;>
      simp_all [XLogRecord.blockTag?_setBlock]

lemma updateBlks_samePage {new : BufferTag} (hnew : decoded.blockTag? 0 = some new)
    (hold : ∀ old, decoded.blockTag? 1 = some old → old.blockNum = new.blockNum) :
    decoded.updateBlks = some (new.blockNum, new.blockNum) := by
  cases h : decoded.blockTag? 1 with
  | none => simp [XLogRecord.updateBlks, hnew, h]
  | some old => simp [XLogRecord.updateBlks, hnew, h, hold old h]

lemma updateBlks_twoPages {old new : BufferTag} (hnew : decoded.blockTag? 0 = some new)
    (hold : decoded.blockTag? 1 = some old) :
    decoded.updateBlks = some (old.blockNum, new.blockNum) := by
  simp [XLogRecord.updateBlks, hnew, hold]

lemma mapTag_ne_clearedTag (tag : BufferTag) : mapTag tag ≠ clearedTag := by
  intro h
  have hfork := congrArg BufferTag.forkNum h
  simp [mapTag, clearedTag] at hfork

/-- The ids `polar_heap_xlog_update_save` inserts when the update stays on its page. -/
lemma updateSave_samePage {new : BufferTag} (hnew : decoded.blockTag? 0 = some new)
    (hold : ∀ old, decoded.blockTag? 1 = some old → old.blockNum = new.blockNum)
    (hvm : decoded.visibleCleared = true → decoded.blockTag? 2 = some (mapTag new)) :
    polarHeapXlogUpdateSave decoded = some (onlyIf decoded.visibleCleared [2] ++ [0]) := by
  have hblks := updateBlks_samePage hnew hold
  cases hflag : decoded.visibleCleared with
  | true => simp [polarHeapXlogUpdateSave, hblks, hflag, hvm hflag]
  | false => simp [polarHeapXlogUpdateSave, hblks, hflag]

/-- The ids it inserts for two pages: the new page's map page unless it is the old page's. -/
lemma updateSave_twoPages {old new : BufferTag} (hnew : decoded.blockTag? 0 = some new)
    (hold : decoded.blockTag? 1 = some old) (hne : old.blockNum ≠ new.blockNum)
    (hvmOld : decoded.visibleCleared = true → decoded.blockTag? 3 = some (mapTag old))
    (hvmNew : decoded.newVisibleCleared = true → decoded.blockTag? 2 = some (mapTag new)) :
    polarHeapXlogUpdateSave decoded =
      some (onlyIf decoded.visibleCleared [3] ++ [1, 0] ++
        onlyIf (decoded.newVisibleCleared && !(decoded.visibleCleared && mapTag old = mapTag new))
          [2]) := by
  have hblks := updateBlks_twoPages hnew hold
  have hmap : clearedTag ≠ mapTag new := (mapTag_ne_clearedTag new).symm
  cases hflag : decoded.visibleCleared <;> cases hnflag : decoded.newVisibleCleared <;>
    simp [polarHeapXlogUpdateSave, hblks, hne, hflag, hnflag, hvmOld, hvmNew, hmap]

/-- The list routine of an update agrees with its save routine on one page with its map bits
kept. -/
lemma update_listMatches_iff (hblocks : UpdateBlocks decoded) :
    ListMatches decoded (.ofOption (polarHeapXlogUpdateSave decoded))
        (.ofOption (polarHeapXlogUpdateGetBufftagList decoded)) ↔
      decoded.visibleCleared = false ∧
        ∀ old new, decoded.blockTag? 1 = some old → decoded.blockTag? 0 = some new →
          old.blockNum = new.blockNum := by
  cases hblocks with
  | samePage new hnew hold hvm =>
      have hlist : polarHeapXlogUpdateGetBufftagList decoded =
          some (getBufftagList 4 .pointer (onlyIf decoded.visibleCleared [2] ++ [0]) decoded) := by
        have hblks := updateBlks_samePage hnew hold
        cases hflag : decoded.visibleCleared with
        | true => simp [polarHeapXlogUpdateGetBufftagList, hblks, hflag, hvm hflag]
        | false => simp [polarHeapXlogUpdateGetBufftagList, hblks, hflag]
      have hsame : ∀ old new, decoded.blockTag? 1 = some old → decoded.blockTag? 0 = some new →
          old.blockNum = new.blockNum := by
        intro old new' hold' hnew'
        obtain rfl : new = new' := by simpa [hnew] using hnew'
        exact hold old hold'
      rw [updateSave_samePage hnew hold hvm, hlist, IdxResult.ofOption_some,
        IdxResult.ofOption_some, listMatches_handled, and_iff_left hsame]
      cases hflag : decoded.visibleCleared with
      | true => simpa using not_lists_of_two (by simp)
      | false =>
          refine iff_of_true ?_ rfl
          exact (lists_single (Lvalue.pointer_inside (by decide)) 0).mpr
            (by simp [XLogRecord.hasBlockRef_eq, hnew])
  | twoPages old new hnew hold hne hvmOld hvmNew =>
      obtain ⟨ids, hlen, hlist⟩ : ∃ ids : List ℕ, 2 ≤ ids.length ∧
          polarHeapXlogUpdateGetBufftagList decoded =
            some (getBufftagList 4 .pointer ids decoded) := by
        have hblks := updateBlks_twoPages hnew hold
        cases hflag : decoded.visibleCleared <;> cases hnflag : decoded.newVisibleCleared <;>
          simp only [polarHeapXlogUpdateGetBufftagList, hblks, hflag, hnflag] <;>
          simp [hne, hvmOld, hvmNew, hflag, hnflag] <;>
          exact ⟨_, by simp, rfl⟩
      rw [updateSave_twoPages hnew hold hne hvmOld hvmNew, hlist, IdxResult.ofOption_some,
        IdxResult.ofOption_some, listMatches_handled]
      refine iff_of_false (not_lists_of_two hlen) ?_
      rintro ⟨-, hsame⟩
      exact hne (hsame old new hold hnew)

/-- **Heap records.**  The list routine agrees with the save routine on the records of
`heapListable`, and on no others. -/
theorem heap_listMatches_iff (hdec : polarXlogQueueDecodeHeap record = some decoded) :
    ListMatches decoded (polarHeapIdxSave decoded) (polarHeapIdxGetBufftagList decoded) ↔
      heapListable decoded := by
  have hinfo : decoded.info = record.info := by rw [polarXlogQueueDecodeHeap_eq hdec]; rfl
  unfold polarXlogQueueDecodeHeap at hdec
  unfold polarHeapIdxSave polarHeapIdxGetBufftagList heapListable
  rw [hinfo]
  cases hop : heapOp record.info with
  | insert =>
      rw [hop] at hdec
      exact listMatches_handled.trans (lists_mapThenHeap_element hdec)
  | delete => exact listMatches_handled.trans lists_mapThenHeap_pointer
  | update =>
      rw [hop] at hdec
      exact update_listMatches_iff (updateBlocks_of_decode hdec)
  | truncate => simpa using not_lists_noBufftagList
  | hotUpdate =>
      rw [hop] at hdec
      simp only at hdec
      split at hdec
      · cases hdec
      · exact update_listMatches_iff (updateBlocks_of_decode hdec)
  | confirm => exact listMatches_one one_pos
  | lock => exact listMatches_handled.trans lists_mapThenHeap_pointer
  | inplace => exact listMatches_one one_pos

/-- **Records of the second heap resource manager.** -/
theorem heap2_listMatches_iff :
    ListMatches decoded (polarHeap2IdxSave decoded) (polarHeap2IdxGetBufftagList decoded) ↔
      heap2Listable decoded := by
  unfold polarHeap2IdxSave polarHeap2IdxGetBufftagList heap2Listable
  cases heap2Op decoded.info with
  | rewrite => simpa using lists_nil
  | clean => exact listMatches_one one_pos
  | freezePage => exact listMatches_one one_pos
  | cleanupInfo => simpa using not_lists_noBufftagList
  | visible => simpa using not_lists_of_two (by simp)
  | multiInsert => exact listMatches_handled.trans lists_mapThenHeap_pointer
  | lockUpdated => exact listMatches_handled.trans lists_mapThenHeap_pointer
  | newCid => simpa using not_lists_noBufftagList

end Match

end GroundDB
