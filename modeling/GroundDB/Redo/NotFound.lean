import GroundDB.Redo.BtreeProjection
import GroundDB.Redo.HeapProjection

/-!
# What `BLK_NOTFOUND` says

`ApplyLsnListXlog` replays records on one page.  It takes `BLK_NOTFOUND` to mean that the
single-page routine did nothing: it then redoes the whole record, and does not release the buffer it
was handed.

Most branches keep that promise.  A block that is read is reported missing before it is locked
(`polarRedoBlock_notFound`), and a page that was changed before is not new any more, so reading it
again does not report it missing.  The branch for the leaf of a `MARK_PAGE_HALFDEAD` record breaks
it: the page is rewritten and stays locked.  Whole-record redo then waits for a lock the process
holds itself (`applyLsn_halfdead`).

The other two ways in which the promise is broken need records that are never written
(`FalseNotFound.halfdead_of_written`): a heap page that is its own map page, and an update whose old
page is the map page of the new one.
-/

namespace GroundDB

open Touch

variable {C D : Type}

/-! ## Reading a missing block -/

/-- The record has a block `id` to be read, and its page is new. -/
def MissingBlock (record : XLogRecord D) (id : ℕ) (s : RedoState C) : Prop :=
  ∃ blk, record.block? id = some blk ∧ blk.willInit = false ∧ blk.applyImage = false ∧
    (s.pages blk.tag).body = none

/-- A routine that reports a missing page has done nothing. -/
def Quiet (m : Redo C (RedoAction × Buffer)) (s : RedoState C) : Prop :=
  ∀ buffer s', m s = .ok ((.notFound, buffer), s') → s' = s

section Reading

variable {image : D → ℕ → Option C} {record : XLogRecord D} {id : ℕ} {mode : RedoReadMode}
  {s s' : RedoState C} {f : RedoPage C → RedoPage C} {buffer : Buffer} {tag t : BufferTag}

lemma polarGetLogTag_inv (h : polarGetLogTag record id s = .ok (t, s')) :
    record.blockTag? id = some t ∧ s' = s := by
  unfold polarGetLogTag at h
  cases htag : record.blockTag? id with
  | none =>
      rw [htag] at h
      cases h
  | some t' =>
      rw [htag] at h
      cases h
      exact ⟨rfl, rfl⟩

lemma lockBuffer_inv (h : (lockBuffer tag : Redo C Unit) s = .ok ((), s')) :
    tag ∉ s.locked ∧ s' = s.lock tag := by
  unfold lockBuffer at h
  split at h
  · cases h
  · cases h
    exact ⟨‹_›, rfl⟩

lemma xlogReadBufferForRedoExtended_notFound
    (h : xlogReadBufferForRedoExtended image record id mode s = .ok ((.notFound, buffer), s')) :
    s' = s ∧ mode = .normal ∧ MissingBlock record id s := by
  unfold xlogReadBufferForRedoExtended at h
  cases hblk : record.block? id with
  | none =>
      rw [hblk] at h
      cases h
  | some blk =>
      rw [hblk] at h
      simp only at h
      split at h
      · cases h
      rename_i hinit
      split at h
      · -- an image is restored
        obtain ⟨_, _, -, h⟩ := redo_bind_eq_ok h
        obtain ⟨_, _, -, h⟩ := redo_bind_eq_ok h
        simp at h
      rename_i himage
      obtain ⟨page, s₁, hpage, h⟩ := redo_bind_eq_ok h
      cases hpage
      split at h
      · rename_i hnew
        cases h
        refine ⟨rfl, hnew.1, blk, hblk, ?_, by simpa using himage, by simpa using hnew.2⟩
        simpa [hnew.1] using hinit
      · -- the block is locked
        obtain ⟨_, _, -, h⟩ := redo_bind_eq_ok h
        split at h <;> simp at h

/-- A page that is reported missing is not changed after it was read. -/
lemma notFound_of_whenNeedsRedo {m : Redo C (RedoAction × Buffer)} (h : (do
      let r ← m
      whenNeedsRedo r f
      pure r : Redo C (RedoAction × Buffer)) s = .ok ((.notFound, buffer), s')) :
    m s = .ok ((.notFound, buffer), s') := by
  obtain ⟨r, s₁, hread, hrun⟩ := redo_bind_eq_ok h
  obtain ⟨_, s₂, hwhen, hrun⟩ := redo_bind_eq_ok hrun
  obtain ⟨rfl, rfl⟩ : r = (.notFound, buffer) ∧ s₂ = s' := by simpa using hrun
  rw [whenNeedsRedo_of_ne (by simp)] at hwhen
  cases hwhen
  exact hread

/-- **A block is reported missing before it is locked**, and only if its page is new. -/
lemma polarRedoBlock_notFound
    (h : polarRedoBlock image record id mode f s = .ok ((.notFound, buffer), s')) :
    s' = s ∧ mode = .normal ∧ MissingBlock record id s :=
  xlogReadBufferForRedoExtended_notFound (notFound_of_whenNeedsRedo h)

lemma xlogReadBufferForRedoExtended_inv {r : RedoAction × Buffer}
    (h : xlogReadBufferForRedoExtended image record id mode s = .ok (r, s')) :
    ∃ blk, record.block? id = some blk ∧ blk.willInit = decide (mode = .zeroAndLock) := by
  unfold xlogReadBufferForRedoExtended at h
  cases hblk : record.block? id with
  | none =>
      rw [hblk] at h
      cases h
  | some blk =>
      rw [hblk] at h
      simp only at h
      split at h
      · cases h
      · exact ⟨blk, rfl, by simpa using ‹¬ blk.willInit ≠ _›⟩

/-- A page that was read is new afterwards only if an empty image was restored. -/
lemma blockEffect_body {blk : DecodedBkpBlock} {g : C → C} {p : RedoPage C}
    (hfound : blockAction record blk .normal p ≠ .notFound)
    (hnone : (blockEffect image record id blk .normal (RedoPage.redo g record.endRecPtr) p).body
      = none) :
    blk.applyImage = true ∧ image record.data id = none := by
  unfold blockEffect blockAction at *
  cases himage : blk.applyImage with
  | true =>
      simp only [himage, if_true] at hnone
      cases hdata : image record.data id <;> simp_all [restoredPage]
  | false =>
      by_cases hlsn : record.endRecPtr ≤ p.lsn <;>
        cases hbody : p.body <;> simp_all [RedoPage.redo]

/-- Reading a missing block locks nothing, whatever is locked already. -/
lemma polarRedoBlock_missing (h : MissingBlock record id s) :
    polarRedoBlock image record id .normal f s = .ok ((.notFound, none), s) := by
  obtain ⟨blk, hblk, hinit, himage, hnone⟩ := h
  have hread : xlogReadBufferForRedoExtended image record id .normal s =
      .ok ((.notFound, none), s) := by
    simp [xlogReadBufferForRedoExtended, hblk, hinit, himage, redo_bind, hnone]
  rw [polarRedoBlock, redo_bind_ok hread]
  rfl

lemma quiet_pure (r : RedoAction × Buffer) : Quiet (pure r : Redo C _) s := by
  intro buffer s' h
  cases h
  rfl

lemma quiet_panic : Quiet (redoPanic : Redo C (RedoAction × Buffer)) s := by
  intro buffer s' h
  cases h

lemma quiet_polarRedoBlock : Quiet (polarRedoBlock image record id mode f) s := fun _ _ h =>
  (polarRedoBlock_notFound h).1

lemma quiet_polarGetLogTag {k : BufferTag → Redo C (RedoAction × Buffer)}
    (hk : ∀ t, record.blockTag? id = some t → Quiet (k t) s) :
    Quiet (polarGetLogTag record id >>= k) s := by
  intro buffer s' h
  obtain ⟨t, s₁, hget, hrun⟩ := redo_bind_eq_ok h
  obtain ⟨htag, rfl⟩ := polarGetLogTag_inv hget
  exact hk t htag buffer s' hrun

lemma quiet_ite {m m' : Redo C (RedoAction × Buffer)} {p : Prop} [Decidable p] (hm : p → Quiet m s)
    (hm' : ¬ p → Quiet m' s) : Quiet (if p then m else m') s := by
  split
  · exact hm ‹_›
  · exact hm' ‹_›

end Reading

/-! ## Heap records -/

namespace HeapOps

variable {ops : HeapOps D C} {record : XLogRecord D} {s s' : RedoState C} {tag heap : BufferTag}
  {r r' : RedoAction × Buffer} {flags : UInt8} {cond init hotUpdate : Bool} {f : C → C}
  {buffer : Buffer}

lemma visibilitymapPin_inv {now : UInt32} (h : ops.visibilitymapPin now tag s = .ok ((), s')) :
    s' = (s.touches (ops.initBelow now tag)).touch tag ops.initIfNew := by
  rw [visibilitymapPin_eq] at h
  split at h
  · cases h
  · cases h
    rfl

/-- What the branch for a map page did.  The page it worked on is not new afterwards if it was
pinned here, or was not new before; the others that may have changed are pages of lower number. -/
lemma polarClearVmIf_cases (h : ops.polarClearVmIf record cond heap r flags s = .ok (r', s')) :
    (cond = false ∧ r' = r ∧ s' = s) ∨
    (cond = true ∧ ∃ vm, vm = r.2.getD (mapTag heap) ∧ r' = (.needsRedo, some vm) ∧
      (r.2 = none ∨ (s.pages vm).body ≠ none → (s'.pages vm).body ≠ none) ∧
      ∀ t, t ≠ vm → ¬ t.blockNum < vm.blockNum → s'.pages t = s.pages t) := by
  cases cond with
  | false =>
      cases h
      exact .inl ⟨rfl, rfl, rfl⟩
  | true =>
      obtain ⟨action, buffer⟩ := r
      refine .inr ⟨rfl, ?_⟩
      change ops.polarHeapClearVm record heap buffer flags s = _ at h
      obtain ⟨vm, s₁, hpin, h⟩ := redo_bind_eq_ok h
      obtain ⟨_, s₂, hclear, h⟩ := redo_bind_eq_ok h
      cases hclear
      cases h
      cases buffer with
      | some vm' =>
          cases hpin
          refine ⟨vm, rfl, rfl, fun hbody => ?_, fun t ht _ => touch_pages_of_ne ht⟩
          simpa [clearedPage] using hbody
      | none =>
          obtain ⟨_, s₃, hmap, hpin⟩ := redo_bind_eq_ok hpin
          obtain ⟨_, s₄, hlock, hpin⟩ := redo_bind_eq_ok hpin
          cases hpin
          obtain rfl := visibilitymapPin_inv hmap
          obtain ⟨-, rfl⟩ := lockBuffer_inv hlock
          refine ⟨mapTag heap, rfl, rfl, fun _ => ?_, fun t ht hblk => ?_⟩
          · simpa [clearedPage] using initIfNew_body_ne_none _
          · rw [touch_pages_of_ne ht, lock_pages, touch_pages_of_ne ht, touches_pages,
              touchAt_of_notMem fun hmem => hblk (ops.mem_touched_initBelow hmem).2]

lemma readHeapPage_notFound {b : Buffer}
    (h : ops.readHeapPage record init buffer s = .ok ((.notFound, b), s')) :
    s' = s ∧ MissingBlock record 0 s := by
  cases init with
  | false =>
      obtain ⟨hs, -, hmissing⟩ := xlogReadBufferForRedoExtended_notFound h
      exact ⟨hs, hmissing⟩
  | true =>
      obtain ⟨_, _, -, hrun⟩ := redo_bind_eq_ok h
      obtain ⟨_, _, -, hrun⟩ := redo_bind_eq_ok hrun
      simp at hrun

lemma redoHeapPage_notFound {b : Buffer}
    (h : ops.redoHeapPage record init buffer f s = .ok ((.notFound, b), s')) :
    s' = s ∧ MissingBlock record 0 s :=
  readHeapPage_notFound (notFound_of_whenNeedsRedo h)

lemma quiet_redoHeapPage : Quiet (ops.redoHeapPage record init buffer f) s := fun _ _ h =>
  (redoHeapPage_notFound h).1

lemma not_missing {id : ℕ} {t : BufferTag} (htag : record.blockTag? id = some t)
    (hbody : (s.pages t).body ≠ none) : ¬ MissingBlock record id s := by
  rintro ⟨blk, hblk, -, -, hnone⟩
  rw [XLogRecord.tag_of_blockTag? hblk htag] at hnone
  exact hbody hnone

lemma quiet_polarMapHeapRedo : Quiet (ops.polarMapHeapRedo record tag flags init f) s := by
  refine quiet_polarGetLogTag fun tag0 htag0 buffer s' h => ?_
  obtain ⟨r, s₁, hclear, hrun⟩ := redo_bind_eq_ok h
  rcases polarClearVmIf_cases hclear with ⟨-, rfl, rfl⟩ | ⟨hcond, vm, hvm, rfl, hbody, -⟩
  · exact quiet_ite (fun _ => quiet_redoHeapPage) (fun _ => quiet_pure _) _ _ hrun
  · -- the map page was changed; were it the heap page as well, it would not be new
    split at hrun
    · rename_i htag
      obtain ⟨-, hmissing⟩ := redoHeapPage_notFound hrun
      have hpage : vm = tag0 := by
        have hmap : tag = mapTag tag0 ∧ record.visibleCleared = true := by simpa using hcond
        exact hvm.trans (hmap.1.symm.trans htag)
      exact absurd hmissing (not_missing htag0 (hpage ▸ hbody (.inl rfl)))
    · simp at hrun

lemma quiet_polarHeapXlogDelete : Quiet (ops.polarHeapXlogDelete record tag) s := by
  refine quiet_polarGetLogTag fun tag0 _ => quiet_ite (fun _ buffer s' h => ?_) fun _ =>
    quiet_ite (fun _ => quiet_redoHeapPage) (fun _ => quiet_pure _)
  rcases polarClearVmIf_cases h with ⟨-, -, rfl⟩ | ⟨-, vm, -, hr, -⟩
  · rfl
  · simp at hr

lemma quiet_polarOnePageRedo : Quiet (ops.polarOnePageRedo record tag f) s :=
  quiet_polarGetLogTag fun _ _ =>
    quiet_ite (fun _ => quiet_pure _) (fun _ => quiet_redoHeapPage)

/-! ### Updates -/

/-- The old page of an update is the map page of the new one, which has the same number and is
missing. -/
def OldPageIsMap (record : XLogRecord D) (tag : BufferTag) (s : RedoState C) : Prop :=
  ∃ tag0, record.blockTag? 0 = some tag0 ∧ record.blockTag? 1 = some tag ∧ tag = mapTag tag0 ∧
    tag.blockNum = tag0.blockNum ∧ tag ≠ tag0 ∧ record.visibleCleared = true ∧
    MissingBlock record 0 s

lemma mapTag_eq_self {t : BufferTag} (h : tag = mapTag t) (hblk : tag.blockNum = t.blockNum) :
    mapTag tag = tag := by
  subst h
  have hself : heapBlkToMapBlock t.blockNum = t.blockNum := hblk
  simp [mapTag, hself]

/-- The two map branches of an update: nothing was done, or a page was changed that is not new
afterwards. -/
lemma updateMaps_cases {cond' : Bool} {heap' : BufferTag} {r₁ r₂ : RedoAction × Buffer}
    {s₁ s₂ : RedoState C}
    (h₁ : ops.polarClearVmIf record cond heap (.notFound, none) flags s = .ok (r₁, s₁))
    (h₂ : ops.polarClearVmIf record cond' heap' r₁ flags s₁ = .ok (r₂, s₂)) :
    (cond = false ∧ cond' = false ∧ r₂ = (.notFound, none) ∧ s₂ = s) ∨
    (r₂.1 = .needsRedo ∧ ∃ vm, (cond = true ∧ vm = mapTag heap ∨ cond' = true ∧ vm = mapTag heap') ∧
      (s₂.pages vm).body ≠ none ∧
      ∀ t, t ≠ vm → ¬ t.blockNum < vm.blockNum → s₂.pages t = s.pages t) := by
  rcases polarClearVmIf_cases h₁ with ⟨hc, rfl, rfl⟩ | ⟨hc, vm, rfl, rfl, hbody, hframe⟩ <;>
    rcases polarClearVmIf_cases h₂ with ⟨hc', rfl, rfl⟩ | ⟨hc', vm', rfl, rfl, hbody', hframe'⟩
  · exact .inl ⟨hc, hc', rfl, rfl⟩
  · exact .inr ⟨rfl, _, .inr ⟨hc', rfl⟩, hbody' (.inl rfl), hframe'⟩
  · exact .inr ⟨rfl, _, .inl ⟨hc, rfl⟩, hbody (.inl rfl), hframe⟩
  · exact .inr ⟨rfl, _, .inl ⟨hc, rfl⟩, hbody' (.inr (hbody (.inl rfl))), fun t ht hblk =>
      (hframe' t ht hblk).trans (hframe t ht hblk)⟩

lemma redoOldTuple_notFound {samePage : Bool} {old : Option C} {b : Buffer}
    (h : ops.redoOldTuple record samePage hotUpdate s = .ok (((.notFound, b), old), s')) :
    s' = s ∧ MissingBlock record (if samePage then 0 else 1) s := by
  obtain ⟨r, s₁, hread, hrun⟩ := redo_bind_eq_ok h
  obtain ⟨old', s₂, hold, hrun⟩ := redo_bind_eq_ok hrun
  obtain ⟨⟨rfl, rfl⟩, rfl⟩ : (r = (.notFound, b) ∧ old' = old) ∧ s₂ = s' := by simpa using hrun
  cases hold
  obtain ⟨hs, -, hmissing⟩ := polarRedoBlock_notFound hread
  exact ⟨hs, hmissing⟩

/-- The new tuple goes into the page of the old one, or into a page that is read here. -/
lemma redoNewTuple_notFound {samePage : Bool} {old : Option C} {b : Buffer} (h : (do
      let r ← ops.readNewPage record samePage r r.2
      whenNeedsRedo r (ops.redoNewPage record old)
      pure r : Redo C (RedoAction × Buffer)) s = .ok ((.notFound, b), s')) :
    s' = s ∧
      (samePage = true ∧ r = (.notFound, b) ∨ samePage = false ∧ MissingBlock record 0 s) := by
  have hread := notFound_of_whenNeedsRedo h
  cases samePage with
  | true =>
      cases hread
      exact ⟨rfl, .inl ⟨rfl, rfl⟩⟩
  | false =>
      obtain ⟨hs, hmissing⟩ := readHeapPage_notFound hread
      exact ⟨hs, .inr ⟨rfl, hmissing⟩⟩

/-- What the map branches of an update leave.  The page they change is the one that is asked for,
except perhaps if the blocks have one number and are of different relations. -/
structure MapsCleared (record : XLogRecord D) (tag tag0 oldTag : BufferTag) (samePage : Bool)
    (s s' : RedoState C) : Prop where
  changed : samePage = false ∨ oldTag = tag0 ∨ oldTag = tag →
    (s'.pages tag).body ≠ none ∧
      ∀ t, t ≠ tag → ¬ t.blockNum < tag.blockNum → s'.pages t = s.pages t
  map : samePage = true → record.visibleCleared = true ∧ tag = mapTag tag0

lemma updateMaps_notFound {tag0 oldTag : BufferTag} {samePage : Bool}
    (hsame : samePage = decide (oldTag.blockNum = tag0.blockNum)) {r₁ r₂ : RedoAction × Buffer}
    {s₁ s₂ : RedoState C} (h₁ : ops.polarClearVmIf record
      (record.visibleCleared && (if samePage then mapTag tag0 else mapTag oldTag) = tag) oldTag
      (.notFound, none) flags s = .ok (r₁, s₁))
    (h₂ : ops.polarClearVmIf record (!samePage && record.newVisibleCleared && mapTag tag0 = tag)
      tag0 r₁ flags s₁ = .ok (r₂, s₂)) :
    (r₂ = (.notFound, none) ∧ s₂ = s) ∨
      (r₂.1 = .needsRedo ∧ MapsCleared record tag tag0 oldTag samePage s s₂) := by
  rcases updateMaps_cases h₁ h₂ with ⟨-, -, hr, hs⟩ | ⟨hr, vm, hvm, hbody, hframe⟩
  · exact .inl ⟨hr, hs⟩
  refine .inr ⟨hr, fun hpages => ?_, fun hsame' => ?_⟩
  · have hvmTag : vm = tag := by
      rcases hvm with ⟨hcond, rfl⟩ | ⟨hcond, rfl⟩
      · cases samePage with
        | false => simp_all
        | true =>
            have hmap : tag = mapTag tag0 := by
              have hcond' : record.visibleCleared = true ∧ mapTag tag0 = tag := by
                simpa using hcond
              exact hcond'.2.symm
            rcases hpages with hfalse | rfl | rfl
            · cases hfalse
            · exact hmap.symm
            · exact mapTag_eq_self hmap (by simpa using hsame)
      · have hcond' : (samePage = false ∧ record.newVisibleCleared = true) ∧ mapTag tag0 = tag := by
          simpa using hcond
        exact hcond'.2
    subst hvmTag
    exact ⟨hbody, hframe⟩
  · rcases hvm with ⟨hcond, -⟩ | ⟨hcond, -⟩
    · simpa [hsame', eq_comm (a := tag)] using hcond
    · simp [hsame'] at hcond

/-- An update that reports a missing page has done nothing, unless its old page is the map page of
the new one. -/
lemma polarHeapXlogUpdate_notFound {b : Buffer}
    (h : ops.polarHeapXlogUpdate record tag hotUpdate s = .ok ((.notFound, b), s')) :
    s' = s ∨ OldPageIsMap record tag s := by
  obtain ⟨tag0, s₀, hget, hrun⟩ := redo_bind_eq_ok h
  obtain ⟨htag0, rfl⟩ := polarGetLogTag_inv hget
  obtain ⟨r₁, s₁, h₁, hrun⟩ := redo_bind_eq_ok hrun
  obtain ⟨r₂, s₂, h₂, hrun⟩ := redo_bind_eq_ok hrun
  have hmaps := updateMaps_notFound rfl h₁ h₂
  clear h₁ h₂
  -- the block of the old page, if it is not the block of the new one
  have hone : (record.blockTag? 1).getD tag0 ≠ tag0 →
      record.blockTag? 1 = some ((record.blockTag? 1).getD tag0) := by
    cases record.blockTag? 1 <;> simp
  generalize (record.blockTag? 1).getD tag0 = oldTag at hrun hmaps hone
  generalize hsame : decide (oldTag.blockNum = tag0.blockNum) = samePage at hrun hmaps
  simp only at hrun
  by_cases hold : tag = oldTag
  · subst hold
    rw [if_pos rfl] at hrun
    obtain ⟨⟨r₃, old⟩, s₃, h₃, hrun⟩ := redo_bind_eq_ok hrun
    by_cases htag : tag = tag0
    · -- one page, read once
      subst htag
      simp only [if_true] at hrun
      obtain ⟨rfl, ⟨rfl, rfl⟩ | ⟨hfalse, -⟩⟩ := redoNewTuple_notFound hrun
      · obtain ⟨rfl, hmissing⟩ := redoOldTuple_notFound h₃
        rcases hmaps with ⟨-, rfl⟩ | ⟨-, hcleared⟩
        · exact .inl rfl
        · exact absurd hmissing (not_missing htag0 (hcleared.changed (.inr (.inl rfl))).1)
      · simp [← hsame] at hfalse
    · simp only [if_neg htag] at hrun
      cases hrun
      obtain ⟨rfl, hmissing⟩ := redoOldTuple_notFound h₃
      rcases hmaps with ⟨-, rfl⟩ | ⟨-, hcleared⟩
      · exact .inl rfl
      obtain ⟨hbody, hframe⟩ := hcleared.changed (.inr (.inr rfl))
      cases samePage with
      | false => exact absurd hmissing (not_missing (hone htag) hbody)
      | true =>
          obtain ⟨hflag, hmap⟩ := hcleared.map rfl
          refine .inr ⟨tag0, htag0, hone htag, hmap, by simpa using hsame, htag, hflag, ?_⟩
          obtain ⟨blk, hblk, hinit, himage, hnone⟩ := hmissing
          have hblkTag : blk.tag = tag0 :=
            XLogRecord.tag_of_blockTag? hblk htag0
          refine ⟨blk, hblk, hinit, himage, ?_⟩
          have hblkno : tag.blockNum = tag0.blockNum := by simpa using hsame
          rwa [hframe blk.tag (hblkTag ▸ Ne.symm htag)
            (by rw [hblkTag, hblkno]; exact UInt32.lt_irrefl _)] at hnone
  · rw [if_neg hold] at hrun
    by_cases htag : tag = tag0
    · subst htag
      simp only [pure_bind, if_true] at hrun
      obtain ⟨rfl, ⟨-, rfl⟩ | ⟨rfl, hmissing⟩⟩ := redoNewTuple_notFound hrun
      · rcases hmaps with ⟨-, rfl⟩ | ⟨hr, -⟩
        · exact .inl rfl
        · simp at hr
      · rcases hmaps with ⟨-, rfl⟩ | ⟨-, hcleared⟩
        · exact .inl rfl
        · exact absurd hmissing (not_missing htag0 (hcleared.changed (.inl rfl)).1)
    · simp only [pure_bind, if_neg htag] at hrun
      cases hrun
      rcases hmaps with ⟨-, rfl⟩ | ⟨hr, -⟩
      · exact .inl rfl
      · simp at hr

/-- In that case the page is changed, stays locked, and is reported missing. -/
lemma polarHeapXlogUpdate_oldPageIsMap (h : OldPageIsMap record tag s) (hlocked : s.locked = []) :
    ∃ s', ops.polarHeapXlogUpdate record tag hotUpdate s = .ok ((.notFound, none), s') ∧
      s'.locked = [tag] := by
  obtain ⟨tag0, htag0, hone, hmap, hblkno, hne, hflag, blk, hblk, hinit, himage, hnone⟩ := h
  have hself : mapTag tag = tag := mapTag_eq_self hmap hblkno
  have hblkTag : blk.tag = tag0 :=
    XLogRecord.tag_of_blockTag? hblk htag0
  obtain ⟨s₁, hclear, hlocked₁, hpages⟩ : ∃ s₁,
      ops.polarHeapClearVm record tag none visibilitymapValidBits s =
        .ok ((.needsRedo, some tag), s₁) ∧ s₁.locked = [tag] ∧
      s₁.pages blk.tag = s.pages blk.tag := by
    have hrun : ops.polarHeapClearVm record tag none visibilitymapValidBits s = _ :=
      polarHeapClearVm_run (by simp [hlocked])
    rw [hself] at hrun
    refine ⟨_, hrun, by simp [hlocked], ?_⟩
    -- the block has the number of the map page: it is not one of those below it
    rw [lock_pages, touch_pages_of_ne (hblkTag ▸ Ne.symm hne), touches_pages,
      touchAt_of_notMem fun hmem => ?_]
    have hlt := (ops.mem_touched_initBelow hmem).2
    rw [hblkTag, hblkno] at hlt
    exact UInt32.lt_irrefl _ hlt
  have hmissing : MissingBlock record 0 s₁ := ⟨blk, hblk, hinit, himage, by rw [hpages, hnone]⟩
  have hold : ops.redoOldTuple record true hotUpdate s₁ = .ok (((.notFound, none), none), s₁) := by
    simp only [redoOldTuple, if_true]
    rw [redo_bind_ok (polarRedoBlock_missing hmissing)]
    rfl
  refine ⟨s₁, ?_, hlocked₁⟩
  rw [polarHeapXlogUpdate, redo_bind_ok (polarGetLogTag_run hblk), hblkTag]
  simp only [hone, Option.getD_some, hblkno, decide_true, if_true, hflag, Bool.true_and, ← hmap,
    polarClearVmIf, redo_bind_ok hclear, Bool.not_true, Bool.false_and, Bool.false_eq_true,
    if_false, pure_bind, redo_bind_ok hold, if_neg hne, redo_pure]

/-! ### Visible pages -/

/-- The heap page of a `VISIBLE` record is its map page; it has an image for the heap page, which is
empty, and none for the map page. -/
def HeapPageIsMap (ops : HeapOps D C) (record : XLogRecord D) (tag : BufferTag) : Prop :=
  ∃ vm heap, record.block? 0 = some vm ∧ record.block? 1 = some heap ∧ vm.tag = tag ∧
    heap.tag = tag ∧ vm.willInit = false ∧ vm.applyImage = false ∧ heap.willInit = false ∧
    heap.applyImage = true ∧ ops.image record.data 1 = none

lemma polarHeapXlogVisible_notFound {b : Buffer} (hlocked : s.locked = [])
    (h : ops.polarHeapXlogVisible record tag s = .ok ((.notFound, b), s')) :
    s' = s ∨ HeapPageIsMap ops record tag := by
  obtain ⟨tag0, s₀, hget, hrest⟩ := redo_bind_eq_ok h
  obtain ⟨htag0, rfl⟩ := polarGetLogTag_inv hget
  obtain ⟨tag1, s₁, hget, hrun⟩ := redo_bind_eq_ok hrest
  obtain ⟨htag1, rfl⟩ := polarGetLogTag_inv hget
  clear hrest
  simp only at hrun
  by_cases hheap : tag = tag1
  · subst hheap
    rw [if_pos rfl] at hrun
    obtain ⟨r, s₁, hread, hrun⟩ := redo_bind_eq_ok hrun
    by_cases hvm : tag = tag0
    · subst hvm
      simp only [if_true] at hrun
      obtain ⟨rfl, hmode, vm, hblk0, hvmInit, hvmImage, hnone⟩ := polarRedoBlock_notFound hrun
      -- the heap page was locked, and is new although it was read
      have hvmTag : vm.tag = tag :=
        XLogRecord.tag_of_blockTag? hblk0 htag0
      obtain ⟨_, _, hread', -⟩ := redo_bind_eq_ok hread
      obtain ⟨heap, hblk1, hheapInit⟩ := xlogReadBufferForRedoExtended_inv hread'
      have hheapTag : heap.tag = tag :=
        XLogRecord.tag_of_blockTag? hblk1 htag1
      rw [polarRedoBlock_run hblk1 hheapInit (by simp [hlocked])] at hread
      split at hread
      · cases hread
        simp at hmode
      · rename_i hfound
        cases hread
        rw [hvmTag, ← hheapTag, lock_pages, touch_pages_self] at hnone
        obtain ⟨himage, hdata⟩ := blockEffect_body hfound hnone
        exact .inr ⟨vm, heap, hblk0, hblk1, hvmTag, hheapTag, hvmInit, hvmImage,
          by simpa using hheapInit, himage, hdata⟩
    · simp only [if_neg hvm] at hrun
      cases hrun
      exact .inl (polarRedoBlock_notFound hread).1
  · rw [if_neg hheap] at hrun
    simp only [pure_bind] at hrun
    split at hrun
    · exact .inl (quiet_polarRedoBlock _ _ hrun)
    · exact .inl (quiet_pure _ _ _ hrun)

/-- In that case the empty image is restored, and the page stays locked. -/
lemma polarHeapXlogVisible_heapPageIsMap (h : HeapPageIsMap ops record tag)
    (hlocked : s.locked = []) :
    ∃ s', ops.polarHeapXlogVisible record tag s = .ok ((.notFound, none), s') ∧
      s'.locked = [tag] := by
  obtain ⟨vm, heap, hvm, hheap, hvmTag, hheapTag, hvmInit, hvmImage, hheapInit, hheapImage,
    hdata⟩ := h
  obtain ⟨s₁, hread, hlocked₁, hmissing⟩ : ∃ s₁,
      polarRedoBlock ops.image record 1 .normal (RedoPage.redo ops.setAllVisible record.endRecPtr) s
        = .ok ((.restored, some tag), s₁) ∧ s₁.locked = [tag] ∧ MissingBlock record 0 s₁ := by
    have hrun : polarRedoBlock ops.image record 1 .normal
        (RedoPage.redo ops.setAllVisible record.endRecPtr) s = _ :=
      polarRedoBlock_run hheap (by simpa using hheapInit) (by simp [hlocked])
    have haction : blockAction record heap .normal (s.pages tag) = .restored := by
      simp [blockAction, hheapImage]
    rw [hheapTag] at hrun
    simp only [haction, reduceCtorEq, if_false] at hrun
    refine ⟨_, hrun, by simp [hlocked], vm, hvm, hvmInit, hvmImage, ?_⟩
    simp [hvmTag, blockEffect, haction, hdata, restoredPage]
  refine ⟨s₁, ?_, hlocked₁⟩
  rw [polarHeapXlogVisible, redo_bind_ok (polarGetLogTag_run hvm),
    redo_bind_ok (polarGetLogTag_run hheap)]
  simp only [hheapTag, if_true, hvmTag]
  rw [redo_bind_ok hread]
  exact polarRedoBlock_missing hmissing

end HeapOps

/-! ## B-tree records -/

namespace BtreeOps

variable {ops : BtreeOps D C} {record : XLogRecord D} {s : RedoState C} {tag : BufferTag} {id : ℕ}
  {c : C} {cond : Bool} {m rest : Redo C (RedoAction × Buffer)}

lemma quiet_polarMake : Quiet (ops.polarMake record .needsRedo id c) s := by
  intro buffer s' h
  obtain ⟨_, _, -, hrun⟩ := redo_bind_eq_ok h
  obtain ⟨_, _, -, hrun⟩ := redo_bind_eq_ok hrun
  simp at hrun

lemma quiet_returnIfBlock (hm : Quiet m s) (hrest : Quiet rest s) :
    Quiet (returnIfBlock record tag id m rest) s :=
  quiet_polarGetLogTag fun _ _ => quiet_ite (fun _ => hm) (fun _ => hrest)

lemma quiet_returnIfBlockWhen (hm : Quiet m s) (hrest : Quiet rest s) :
    Quiet (returnIfBlockWhen record tag cond id m rest) s :=
  quiet_ite (fun _ => quiet_returnIfBlock hm hrest) (fun _ => hrest)

lemma quiet_polarBtreeXlogInsert {isleaf ismeta posting : Bool} :
    Quiet (ops.polarBtreeXlogInsert record tag isleaf ismeta posting) s :=
  quiet_returnIfBlockWhen quiet_polarRedoBlock <| quiet_returnIfBlock quiet_polarRedoBlock <|
    quiet_returnIfBlockWhen quiet_polarMake (quiet_pure _)

lemma quiet_polarBtreeXlogSplit {newitemonleft : Bool} :
    Quiet (ops.polarBtreeXlogSplit record tag newitemonleft) s :=
  quiet_polarGetLogTag fun _ _ => quiet_polarGetLogTag fun _ _ =>
    quiet_returnIfBlockWhen quiet_polarRedoBlock <| quiet_ite (fun _ => quiet_polarMake) fun _ =>
      quiet_ite (fun _ => quiet_polarRedoBlock) fun _ =>
        quiet_returnIfBlockWhen quiet_polarRedoBlock (quiet_pure _)

lemma quiet_polarBtreeXlogUnlinkPage {ismeta : Bool} :
    Quiet (ops.polarBtreeXlogUnlinkPage record tag ismeta) s :=
  quiet_returnIfBlock quiet_polarRedoBlock <| quiet_returnIfBlockWhen quiet_polarRedoBlock <|
    quiet_returnIfBlock quiet_polarMake <| quiet_returnIfBlockWhen quiet_polarMake <|
      quiet_returnIfBlockWhen quiet_polarMake (quiet_pure _)

lemma quiet_polarBtreeXlogNewroot : Quiet (ops.polarBtreeXlogNewroot record tag) s :=
  quiet_returnIfBlock quiet_polarMake <| quiet_returnIfBlockWhen quiet_polarRedoBlock <|
    quiet_returnIfBlock quiet_polarMake (quiet_pure _)

/-- The page is the leaf that a `MARK_PAGE_HALFDEAD` record rewrites, and not the parent. -/
def HalfdeadLeaf (record : XLogRecord D) (tag : BufferTag) : Prop :=
  ∃ leaf parent, record.block? 0 = some leaf ∧ leaf.willInit = true ∧ leaf.tag = tag ∧
    record.block? 1 = some parent ∧ parent.tag ≠ tag

/-- The leaf is rewritten, stays locked, and is reported missing. -/
lemma polarBtreeXlogMarkPageHalfdead_leaf (h : HalfdeadLeaf record tag) (hlocked : s.locked = []) :
    ops.polarBtreeXlogMarkPageHalfdead record tag s = .ok ((.notFound, some tag),
      (s.touch tag fun _ => madePage record (ops.halfdeadLeaf record)).lock tag) := by
  obtain ⟨leaf, parent, hleaf, hinit, rfl, hparent, hne⟩ := h
  rw [polarBtreeXlogMarkPageHalfdead, redo_bind_ok (polarGetLogTag_run hleaf),
    redo_bind_ok (polarGetLogTag_run hparent), if_neg hne.symm, if_pos rfl]
  exact initBlock_run hleaf hinit (by simp [hlocked]) _ _

lemma polarMake_inv {action : RedoAction} {r : RedoAction × Buffer} {s' : RedoState C}
    (h : ops.polarMake record action id c s = .ok (r, s')) :
    ∃ blk, record.block? id = some blk ∧ blk.willInit = true := by
  obtain ⟨buffer, s₁, hinit, -⟩ := redo_bind_eq_ok h
  obtain ⟨r', s₂, hread, -⟩ := redo_bind_eq_ok hinit
  simpa using xlogReadBufferForRedoExtended_inv hread

lemma quiet_polarBtreeXlogMarkPageHalfdead (h : ¬ HalfdeadLeaf record tag) :
    Quiet (ops.polarBtreeXlogMarkPageHalfdead record tag) s := by
  refine quiet_polarGetLogTag fun leafTag hleafTag =>
    quiet_polarGetLogTag fun parentTag hparentTag =>
      quiet_ite (fun _ => quiet_polarRedoBlock) fun hne => quiet_ite (fun htag => ?_) fun _ =>
        quiet_pure _
  intro buffer s' hrun
  obtain ⟨leaf, hleaf, hinit⟩ := polarMake_inv hrun
  obtain ⟨parent, hparent, rfl⟩ := Option.map_eq_some_iff.mp hparentTag
  have hleafTag' : leaf.tag = tag :=
    (XLogRecord.tag_of_blockTag? hleaf hleafTag).trans htag.symm
  exact absurd ⟨leaf, parent, hleaf, hinit, hleafTag', hparent, Ne.symm hne⟩ h

end BtreeOps

/-! ## The caller -/

/-- What the modelled resource managers do to pages. -/
structure RmgrOps (D C : Type) where
  heap : HeapOps D C
  btree : BtreeOps D C

namespace RmgrOps

variable (ops : RmgrOps D C) (record : XLogRecord D) (tag : BufferTag)

/-- The single-page routine of a resource manager; others than these three report a missing page
here. -/
def polarRedo : Redo C (RedoAction × Buffer) :=
  match record.rmid with
  | .heap => ops.heap.polarHeapIdxRedo record tag
  | .heap2 => ops.heap.polarHeap2IdxRedo record tag
  | .btree => ops.btree.polarBtreeRedo record tag
  | _ => pure (.notFound, none)

/-- `rm_redo`. -/
def rmRedo : Redo C Unit :=
  match record.rmid with
  | .heap => ops.heap.heapRedo record
  | .heap2 => ops.heap.heap2Redo record
  | .btree => ops.btree.btreeRedo record
  | _ => pure ()

/-- One round of the loop of `ApplyLsnListXlog`. -/
def applyLsn : Redo C Unit := do
  let r ← ops.polarRedo record tag
  if r.1 = .notFound then ops.rmRedo record else releaseIfValid r.2

/-- The records, pages and states for which `BLK_NOTFOUND` is returned after a change. -/
def FalseNotFound (s : RedoState C) : Prop :=
  match record.rmid with
  | .heap => (heapOp record.info = .update ∨ heapOp record.info = .hotUpdate) ∧
      HeapOps.OldPageIsMap record tag s
  | .heap2 => heap2Op record.info = .visible ∧ ops.heap.HeapPageIsMap record tag
  | .btree => btreeOp record.info = some .markPageHalfdead ∧ BtreeOps.HalfdeadLeaf record tag
  | _ => False

/-- `BLK_NOTFOUND` means that no page was changed and no buffer is locked, so that the fallback
redoes the record as if the single-page routine had not been tried. -/
structure NotFoundFaithful (s : RedoState C) : Prop where
  pages : ∀ buffer s', ops.polarRedo record tag s = .ok ((.notFound, buffer), s') →
    s'.pages = s.pages
  locked : ∀ buffer s', ops.polarRedo record tag s = .ok ((.notFound, buffer), s') →
    s'.locked = []
  fallback : ∀ buffer s', ops.polarRedo record tag s = .ok ((.notFound, buffer), s') →
    ops.applyLsn record tag s = ops.rmRedo record s

end RmgrOps

section Caller

variable {ops : RmgrOps D C} {record : XLogRecord D} {tag : BufferTag} {s : RedoState C}

lemma quiet_polarRedo (h : ¬ ops.FalseNotFound record tag s) (hlocked : s.locked = []) :
    Quiet (ops.polarRedo record tag) s := by
  unfold RmgrOps.FalseNotFound at h
  unfold RmgrOps.polarRedo
  cases hrmid : record.rmid with
  | heap =>
      simp only [hrmid] at h ⊢
      unfold HeapOps.polarHeapIdxRedo
      cases hop : heapOp record.info with
      | insert | lock => exact HeapOps.quiet_polarMapHeapRedo
      | delete => exact HeapOps.quiet_polarHeapXlogDelete
      | update | hotUpdate =>
          exact fun buffer s' hrun => (HeapOps.polarHeapXlogUpdate_notFound hrun).resolve_right
            fun hbad => h ⟨by simp [hop], hbad⟩
      | truncate => exact quiet_pure _
      | confirm | inplace => exact HeapOps.quiet_polarOnePageRedo
  | heap2 =>
      simp only [hrmid] at h ⊢
      unfold HeapOps.polarHeap2IdxRedo
      cases hop : heap2Op record.info with
      | clean | freezePage => exact HeapOps.quiet_polarOnePageRedo
      | multiInsert | lockUpdated => exact HeapOps.quiet_polarMapHeapRedo
      | visible =>
          exact fun buffer s' hrun =>
            (HeapOps.polarHeapXlogVisible_notFound hlocked hrun).resolve_right
              fun hbad => h ⟨hop, hbad⟩
      | cleanupInfo | newCid | rewrite => exact quiet_pure _
  | btree =>
      simp only [hrmid] at h ⊢
      unfold BtreeOps.polarBtreeRedo
      cases hop : btreeOp record.info with
      | none => exact quiet_panic
      | some op =>
          cases op with
          | insertLeaf | insertUpper | insertMeta | insertPost =>
              exact BtreeOps.quiet_polarBtreeXlogInsert
          | splitL | splitR => exact BtreeOps.quiet_polarBtreeXlogSplit
          | dedup | delete | vacuum =>
              exact BtreeOps.quiet_returnIfBlock quiet_polarRedoBlock (quiet_pure _)
          | unlinkPage | unlinkPageMeta => exact BtreeOps.quiet_polarBtreeXlogUnlinkPage
          | newroot => exact BtreeOps.quiet_polarBtreeXlogNewroot
          | markPageHalfdead =>
              exact BtreeOps.quiet_polarBtreeXlogMarkPageHalfdead fun hbad => h ⟨hop, hbad⟩
          | reusePage => exact quiet_pure _
          | metaCleanup => exact BtreeOps.quiet_polarMake
  | _ => exact quiet_pure _

/-- A page that is falsely reported missing stays locked. -/
lemma RmgrOps.FalseNotFound.run (h : ops.FalseNotFound record tag s) (hlocked : s.locked = []) :
    ∃ buffer s', ops.polarRedo record tag s = .ok ((.notFound, buffer), s') ∧
      s'.locked = [tag] := by
  unfold FalseNotFound at h
  unfold polarRedo
  cases hrmid : record.rmid with
  | heap =>
      simp only [hrmid] at h ⊢
      obtain ⟨hop, hbad⟩ := h
      unfold HeapOps.polarHeapIdxRedo
      rcases hop with hop | hop <;> rw [hop] <;>
        exact ⟨_, HeapOps.polarHeapXlogUpdate_oldPageIsMap hbad hlocked⟩
  | heap2 =>
      simp only [hrmid] at h ⊢
      rw [HeapOps.polarHeap2IdxRedo, h.1]
      exact ⟨_, HeapOps.polarHeapXlogVisible_heapPageIsMap h.2 hlocked⟩
  | btree =>
      simp only [hrmid] at h ⊢
      rw [BtreeOps.polarBtreeRedo, h.1]
      exact ⟨_, _, BtreeOps.polarBtreeXlogMarkPageHalfdead_leaf h.2 hlocked, by simp [hlocked]⟩
  | _ => simp [hrmid] at h

lemma applyLsn_of_notFound {buffer : Buffer}
    (h : ops.polarRedo record tag s = .ok ((.notFound, buffer), s)) :
    ops.applyLsn record tag s = ops.rmRedo record s := by
  rw [RmgrOps.applyLsn, redo_bind_ok h, if_pos rfl]

/-- **`BLK_NOTFOUND` is faithful except for the cases of `FalseNotFound`**, for every record, every
page and every state in which no buffer is locked. -/
theorem not_found_faithful_iff (ops : RmgrOps D C) (record : XLogRecord D) (tag : BufferTag)
    {s : RedoState C} (hlocked : s.locked = []) :
    ops.NotFoundFaithful record tag s ↔ ¬ ops.FalseNotFound record tag s := by
  constructor
  · intro hfaithful hbad
    obtain ⟨buffer, s', hrun, hlocked'⟩ := hbad.run hlocked
    simp [hfaithful.locked buffer s' hrun] at hlocked'
  · intro hgood
    have hquiet := quiet_polarRedo hgood hlocked
    refine ⟨fun buffer s' hrun => ?_, fun buffer s' hrun => ?_, fun buffer s' hrun => ?_⟩ <;>
      obtain rfl := hquiet buffer s' hrun
    · rfl
    · exact hlocked
    · exact applyLsn_of_notFound hrun

/-! ## What follows for the caller -/

lemma redoMake_deadlock {bops : BtreeOps D C} {id : ℕ} {blk : DecodedBkpBlock} {c : C}
    (hblk : record.block? id = some blk) (hinit : blk.willInit = true)
    (hheld : blk.tag ∈ s.locked) : bops.redoMake record id c s = .error .selfDeadlock := by
  have hlock : (lockBuffer blk.tag : Redo C Unit) s = .error .selfDeadlock := if_pos hheld
  have hread : xlogReadBufferForRedoExtended bops.image record id .zeroAndLock s =
      .error .selfDeadlock := by
    cases himage : blk.applyImage <;>
      simp [xlogReadBufferForRedoExtended, hblk, hinit, himage, redo_bind, hlock]
  exact redo_bind_error (redo_bind_error hread)

/-- **A half-dead leaf is never replayed.**  Whole-record redo waits for the lock that the
single-page routine left. -/
theorem applyLsn_halfdead (hrmid : record.rmid = .btree)
    (hop : btreeOp record.info = some .markPageHalfdead) (hleaf : BtreeOps.HalfdeadLeaf record tag)
    (hparent : record.HasBlock 1 false) (hlocked : s.locked = []) :
    ops.applyLsn record tag s = .error .selfDeadlock := by
  have hpolar : ops.polarRedo record tag s =
      ops.btree.polarBtreeXlogMarkPageHalfdead record tag s := by
    simp [RmgrOps.polarRedo, hrmid, BtreeOps.polarBtreeRedo, hop]
  have hfull : ops.rmRedo record = ops.btree.btreeXlogMarkPageHalfdead record := by
    simp [RmgrOps.rmRedo, hrmid, BtreeOps.btreeRedo, hop]
  rw [RmgrOps.applyLsn,
    redo_bind_ok (hpolar.trans (BtreeOps.polarBtreeXlogMarkPageHalfdead_leaf hleaf hlocked)),
    if_pos rfl, hfull, BtreeOps.btreeXlogMarkPageHalfdead]
  obtain ⟨leaf, parent, hblk0, hinit, rfl, hblk1, hne⟩ := hleaf
  have hfree : ∀ t, record.blockTag? 1 = some t → t ∉ [leaf.tag] := by
    intro t ht
    obtain rfl := XLogRecord.tag_of_blockTag? hblk1 ht
    simpa using hne
  rw [redo_bind_ok (BtreeOps.redoRead_run hparent (by simpa [hlocked] using hfree))]
  exact redoMake_deadlock hblk0 hinit (by simp [hlocked])

/-- A record of the modelled resource managers as it is written. -/
def WrittenRecord (ops : RmgrOps D C) (record : XLogRecord D) : Prop :=
  WrittenHeapRecord record ∨ record.rmid = .btree ∧ BtreeWellFormed ops.btree record

/-- Of the records that are written only the half-dead marks are falsely reported missing. -/
lemma RmgrOps.FalseNotFound.halfdead_of_written (h : ops.FalseNotFound record tag s)
    (hwritten : WrittenRecord ops record) :
    record.rmid = .btree ∧ btreeOp record.info = some .markPageHalfdead ∧
      BtreeOps.HalfdeadLeaf record tag := by
  unfold FalseNotFound at h
  rcases hwritten with ⟨⟨hrmid, hform⟩ | ⟨hrmid, hform⟩, -⟩ | ⟨hrmid, -⟩
  · simp only [hrmid] at h
    obtain ⟨hop, tag0, htag0, htag1, -, hblkno, -⟩ := h
    have hupdate : UpdateForm record := by
      unfold HeapWellFormed at hform
      rcases hop with hop | hop <;> rw [hop] at hform
      · exact hform
      · exact hform.1
    cases hupdate with
    | samePage blk hblk hfork hinit hone htwo => simp [XLogRecord.blockTag?, hone] at htag1
    | twoPages new old hnew hold hfork hrel hne hinit holdInit htwo hthree hcopy =>
        rw [XLogRecord.tag_of_blockTag? hnew htag0, XLogRecord.tag_of_blockTag? hold htag1] at hne
        exact absurd hblkno hne
  · simp only [hrmid] at h
    obtain ⟨hop, vm, heap, hvm, hheap, hvmTag, hheapTag, -⟩ := h
    unfold Heap2WellFormed at hform
    rw [hop] at hform
    obtain ⟨vm', heap', hvm', hheap', hfork, hmap, -⟩ := hform
    obtain rfl := Option.some.inj (hvm'.symm.trans hvm)
    obtain rfl := Option.some.inj (hheap'.symm.trans hheap)
    -- the map page is in another fork
    rw [hheapTag] at hmap hfork
    rw [← hvmTag, hmap] at hfork
    exact absurd hfork (by simp [mapTag])
  · simp only [hrmid] at h
    exact ⟨hrmid, h⟩

end Caller

/-- The sample operations. -/
def sampleRmgr : RmgrOps Unit (UInt32 × UInt32) where
  heap :=
    { pageInit := (0, 0), image := fun _ _ => none, clearAllVisible := id, setAllVisible := id,
      mapClear := fun _ _ => id, mapSet := fun _ _ => id, mapHas := fun _ _ _ => true,
      insert := fun _ => id, multiInsert := fun _ => id, delete := fun _ => id,
      deleteCtid := fun _ => id, updateOld := fun _ _ => id, updateNew := fun _ _ => id,
      confirm := fun _ => id, lock := fun _ => id, inplace := fun _ => id, clean := fun _ => id,
      freezePage := fun _ => id, lockUpdated := fun _ => id, heapFreeSpace := fun _ => 0,
      freeSpace := fun _ => 0, fsmSetAvail := fun _ _ => id, vmNblocks := fun _ _ => 0,
      polarVmNblocks := fun _ _ => 0 }
  btree := siblingLinks

/-- The parent of the half-dead leaf is replayed as it should be. -/
theorem not_found_faithful_parent :
    sampleRmgr.NotFoundFaithful halfdeadMark ⟨1663, 5, 16390, 0, 1⟩ ⟨fun _ => ⟨0, none⟩, []⟩ := by
  refine (not_found_faithful_iff sampleRmgr halfdeadMark ⟨1663, 5, 16390, 0, 1⟩ rfl).mpr ?_
  rintro ⟨-, leaf, parent, hleaf, -, htag, -⟩
  cases hleaf
  exact absurd htag (by decide)

/-- **The leaf is not.**  The routine reports it missing after rewriting it, with the buffer locked,
and the fallback waits for that lock. -/
theorem not_found_halfdead_leaf :
    ∃ s' : RedoState (UInt32 × UInt32),
      sampleRmgr.polarRedo halfdeadMark ⟨1663, 5, 16390, 0, 9⟩ ⟨fun _ => ⟨0, some (3, 4)⟩, []⟩ =
        .ok ((.notFound, some ⟨1663, 5, 16390, 0, 9⟩), s') ∧
      s'.pages ⟨1663, 5, 16390, 0, 9⟩ = ⟨400, some (0, 0)⟩ ∧
      s'.locked = [⟨1663, 5, 16390, 0, 9⟩] ∧
      sampleRmgr.applyLsn halfdeadMark ⟨1663, 5, 16390, 0, 9⟩ ⟨fun _ => ⟨0, some (3, 4)⟩, []⟩ =
        .error .selfDeadlock ∧
      ¬ sampleRmgr.NotFoundFaithful halfdeadMark ⟨1663, 5, 16390, 0, 9⟩
        ⟨fun _ => ⟨0, some (3, 4)⟩, []⟩ := by
  have hleaf : BtreeOps.HalfdeadLeaf halfdeadMark ⟨1663, 5, 16390, 0, 9⟩ :=
    ⟨_, _, rfl, rfl, rfl, rfl, by decide⟩
  have hrun : sampleRmgr.polarRedo halfdeadMark ⟨1663, 5, 16390, 0, 9⟩
      ⟨fun _ => ⟨0, some (3, 4)⟩, []⟩ = _ :=
    BtreeOps.polarBtreeXlogMarkPageHalfdead_leaf hleaf rfl
  refine ⟨_, hrun, ?_, rfl, applyLsn_halfdead rfl rfl hleaf ⟨_, rfl, rfl⟩ rfl, ?_⟩
  · rw [lock_pages, touch_pages_self]
    rfl
  exact fun hfaithful => absurd (hfaithful.locked _ _ hrun) (by simp)

end GroundDB
