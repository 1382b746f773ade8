import GroundDB.LogIndex.HeapTags
import GroundDB.LogIndex.IndexTags

/-!
# The two dispatchers

`ParseLogIndexXlog` indexes a record on the storage node, `GetXlogBuffTagList` lists its pages.
Both switch on the resource manager and return `false` for those they do not know.

They agree on a record if and only if it meets `Listable`.  The blocks of a full-page image are
stored into the elements of an array that is one element short, so a full-page image is never listed
right.
-/

namespace GroundDB

variable {D : Type} (record : XLogRecord D)

/-- `XLOG_FPI` or `XLOG_FPI_FOR_HINT`. -/
def XLogRecord.isFpi (record : XLogRecord D) : Bool :=
  record.info == 0xB0 || record.info == 0xA0

/-- `polar_xlog_idx_save`: the ids up to `max_block_id`. -/
def polarXlogIdxSave : IdxResult (List ℕ) :=
  if record.isFpi then .handled (List.range record.blocks.length) else .skipped

/-- `polar_xlog_idx_get_bufftag_list`, which allocates `max_block_id` elements. -/
def polarXlogIdxGetBufftagList : IdxResult TagList :=
  if record.isFpi then
    .handled (getBufftagList (record.blocks.length - 1) .element
      (List.range record.blocks.length) record)
  else .skipped

lemma xlog_listMatches_iff :
    ListMatches record (polarXlogIdxSave record) (polarXlogIdxGetBufftagList record) ↔
      (record.isFpi → record.blocks = []) := by
  unfold polarXlogIdxSave polarXlogIdxGetBufftagList
  by_cases hfpi : record.isFpi
  · simp only [hfpi, if_true, listMatches_handled, forall_const]
    cases hblocks : record.blocks with
    | nil => exact iff_of_true lists_nil rfl
    | cons b bs =>
        -- the last store is one past the end
        have hout : ¬ Lvalue.element.Inside ((b :: bs).length - 1) bs.length := by
          simp [Lvalue.Inside]
        refine iff_of_false (fun h => ?_) (by simp)
        exact strays_ne_nil (by simp) hout h.inside
  · simp [hfpi]

/-- `ParseLogIndexXlog`. -/
def parseLogIndexXlog : IdxResult (List ℕ) :=
  match record.rmid with
  | .xlog => polarXlogIdxSave record
  | .heap2 => polarHeap2IdxSave record
  | .heap => polarHeapIdxSave record
  | .btree => polarBtreeIdxSave record
  | .hash => polarHashIdxSave record
  | .gin => polarGinIdxSave record
  | .gist => polarGistIdxSave record
  | .seq => polarSeqIdxSave record
  | .spgist => polarSpgIdxSave record
  | .brin => polarBrinIdxSave record
  | .generic => polarGenericIdxSave record
  | _ => .skipped

/-- The pages that are indexed for a record: it is decoded, and the pages of its blocks are saved.
`none` is a failed assertion or a panic. -/
def XLogRecord.indexedTags (record : XLogRecord D) : Option (List BufferTag) := do
  let decoded ← polarXlogDecodeData record
  match parseLogIndexXlog decoded with
  | .panic => none
  | .skipped => some []
  | .handled ids => some (decoded.savedTags ids)

/-- `GetXlogBuffTagList`. -/
def getXlogBuffTagList : IdxResult TagList :=
  match record.rmid with
  | .xlog => polarXlogIdxGetBufftagList record
  | .heap2 => polarHeap2IdxGetBufftagList record
  | .heap => polarHeapIdxGetBufftagList record
  | .btree => polarBtreeIdxGetBufftagList record
  | .hash => polarHashIdxGetBufftagList record
  | .gin => polarGinIdxGetBufftagList record
  | .gist => polarGistIdxGetBufftagList record
  | .seq => polarSeqIdxGetBufftagList record
  | .spgist => polarSpgIdxGetBufftagList record
  | .brin => polarBrinIdxGetBufftagList record
  | .generic => polarGenericIdxGetBufftagList record
  | _ => .skipped

/-- The records whose pages are listed right. -/
def Listable : Prop :=
  match record.rmid with
  | .xlog => record.isFpi → record.blocks = []
  | .heap2 => heap2Listable record
  | .heap => heapListable record
  | .btree => btreeListable record
  | .hash => hashListable record
  | .gin => ginListable record
  | .gist => gistListable record
  | .seq => record.info = 0 → record.hasBlockRef 0
  | .spgist => spgistListable record
  | .brin => brinListable record
  | .generic => genericListable record
  | _ => True

/-- **The list is the index on `Listable` records, and on no others.**  For every decoded record the
list routine returns `true` exactly when the save routine does, sets `*tagNum`, stores inside its
array and lists the pages that are indexed, if and only if the record is `Listable`. -/
theorem bufftag_list_matches_index {record decoded : XLogRecord D}
    (hdec : polarXlogDecodeData record = some decoded) :
    ListMatches decoded (parseLogIndexXlog decoded) (getXlogBuffTagList decoded) ↔
      Listable decoded := by
  have hrmid : decoded.rmid = record.rmid := by rw [polarXlogDecodeData_eq hdec]
  unfold parseLogIndexXlog getXlogBuffTagList Listable
  unfold polarXlogDecodeData at hdec
  rw [hrmid]
  cases hid : record.rmid with
  | xlog => exact xlog_listMatches_iff decoded
  | heap2 => exact heap2_listMatches_iff
  | heap =>
      rw [hid] at hdec
      exact heap_listMatches_iff hdec
  | btree => exact btree_listMatches_iff decoded
  | hash => exact hash_listMatches_iff decoded
  | gin => exact gin_listMatches_iff decoded
  | gist => exact gist_listMatches_iff decoded
  | seq => exact seq_listMatches_iff decoded
  | spgist => exact spgist_listMatches_iff decoded
  | brin => exact brin_listMatches_iff decoded
  | generic => exact generic_listMatches_iff decoded
  | xact | smgr | clog | dbase | tblspc | multixact | relmap | standby => simp
  | commitTs | replorigin | logicalmsg => simp

/-- An insert into block 40000 that cleared bits of the visibility map. -/
def clearingInsert : XLogRecord Unit where
  rmid := .heap
  xlInfo := 0x00
  flags := 1
  blocks := [some ⟨⟨1663, 5, 16384, 0, 40000⟩, false, false⟩]
  endRecPtr := 1000
  data := ()

/-- The insert is listed right, with its map page. -/
theorem bufftag_list_matches_insert :
    ∃ decoded, polarXlogDecodeData clearingInsert = some decoded ∧
      (ListMatches decoded (parseLogIndexXlog decoded) (getXlogBuffTagList decoded) ↔
        Listable decoded) ∧ Listable decoded := by
  obtain ⟨decoded, hdec⟩ : ∃ decoded, polarXlogDecodeData clearingInsert = some decoded :=
    ⟨_, rfl⟩
  refine ⟨decoded, hdec, bufftag_list_matches_index hdec, ?_⟩
  obtain rfl := Option.some.inj hdec
  exact rfl

/-- **A delete of two pages is not.**  It cleared bits of the visibility map, so the map page and
the heap page are indexed, and the tag of the heap page is stored outside the array. -/
theorem bufftag_list_stray_store :
    ∃ decoded : XLogRecord Unit, ∃ list,
      polarXlogDecodeData { clearingInsert with xlInfo := 0x10 } = some decoded ∧
      parseLogIndexXlog decoded = .handled [1, 0] ∧
      decoded.savedTags [1, 0] = [⟨1663, 5, 16384, 2, 1⟩, ⟨1663, 5, 16384, 0, 40000⟩] ∧
      getXlogBuffTagList decoded = .handled list ∧
      list.tagNum = some 2 ∧ list.array.strays = [1] ∧
      ¬ ListMatches decoded (parseLogIndexXlog decoded) (getXlogBuffTagList decoded) := by
  refine ⟨_, _, rfl, rfl, rfl, rfl, rfl, rfl, fun h => ?_⟩
  have hinside := (h.tags _ _ rfl rfl).inside
  cases hinside

end GroundDB
