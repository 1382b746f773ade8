import GroundDB.Lib.Touch
import GroundDB.LogIndex.Record

/-!
# Pages and buffers during redo

A redo routine reads pages into buffers, locks them, changes them and unlocks them.  The state is
the pages, with the LSN of each, and the buffers whose content lock the process holds.  A page that
is not in its file and one that is all zeros look the same to redo; both are pages without a body.

Locking a buffer the process already holds never returns: content locks are not reentrant.  This and
`elog(PANIC)` are the failures.

What the routines do with the items of a page is not modelled here: it enters as functions on the
body.
-/

namespace GroundDB

open Touch

/-- A page: its LSN and its contents, `none` if `PageIsNew`. -/
structure RedoPage (C : Type) where
  lsn : ℕ
  body : Option C

/-- `XLogRedoAction`. -/
inductive RedoAction
  | needsRedo | done | restored | notFound
deriving DecidableEq, Repr

/-- The ways in which a routine does not return. -/
inductive RedoFailure
  | panic
  | selfDeadlock
deriving DecidableEq, Repr

/-- The state of a process that redoes records. -/
structure RedoState (C : Type) where
  pages : BufferTag → RedoPage C
  locked : List BufferTag

/-- A redo routine. -/
abbrev Redo (C : Type) := StateT (RedoState C) (Except RedoFailure)

/-- A buffer is named by the page it holds; `none` is `InvalidBuffer`. -/
abbrev Buffer := Option BufferTag

/-- The modes of `ReadBufferMode` that redo uses. -/
inductive RedoReadMode
  | normal
  | zeroOnError
  | zeroAndLock
deriving DecidableEq, Repr

variable {C D α β : Type}

/-- Touch one page. -/
def RedoState.touch (s : RedoState C) (t : BufferTag) (f : RedoPage C → RedoPage C) :
    RedoState C :=
  { s with pages := Function.update s.pages t (f (s.pages t)) }

/-- Hold one more lock. -/
def RedoState.lock (s : RedoState C) (t : BufferTag) : RedoState C :=
  { s with locked := t :: s.locked }

/-- `LockBuffer(buffer, BUFFER_LOCK_EXCLUSIVE)`. -/
def lockBuffer (t : BufferTag) : Redo C Unit := fun s =>
  if t ∈ s.locked then .error .selfDeadlock else .ok ((), s.lock t)

/-- `LockBuffer(buffer, BUFFER_LOCK_UNLOCK)`; pins are not counted, so `UnlockReleaseBuffer` is the
same. -/
def unlockBuffer (t : BufferTag) : Redo C Unit := fun s =>
  .ok ((), { s with locked := s.locked.erase t })

/-- `if (BufferIsValid(buffer)) UnlockReleaseBuffer(buffer)`. -/
def releaseIfValid : Buffer → Redo C Unit
  | none => pure ()
  | some t => unlockBuffer t

/-- The page in a buffer. -/
def getPage (t : BufferTag) : Redo C (RedoPage C) := fun s => .ok (s.pages t, s)

/-- Change the page in a buffer. -/
def modifyPage (t : BufferTag) (f : RedoPage C → RedoPage C) : Redo C Unit := fun s =>
  .ok ((), s.touch t f)

/-- `elog(PANIC)`. -/
def redoPanic : Redo C α := fun _ => .error .panic

/-- Change the contents and `PageSetLSN`. -/
def RedoPage.redo (f : C → C) (lsn : ℕ) (p : RedoPage C) : RedoPage C := ⟨lsn, p.body.map f⟩

/-- `RestoreBlockImage`, then `PageSetLSN` unless the page is new. -/
def restoredPage (image : Option C) (lsn : ℕ) : RedoPage C :=
  match image with
  | some c => ⟨lsn, some c⟩
  | none => ⟨0, none⟩

section Read

/- `RestoreBlockImage` for a block of a record. -/
variable (image : D → ℕ → Option C) (record : XLogRecord D) (id : ℕ)

/-- `POLAR_GET_LOG_TAG`. -/
def polarGetLogTag : Redo C BufferTag :=
  match record.blockTag? id with
  | none => redoPanic
  | some tag => pure tag

/-- `XLogReadBufferForRedoExtended`.  A page that is in the buffer pool is not zeroed by
`RBM_ZERO_AND_LOCK`; the callers that use this mode initialise the page. -/
def xlogReadBufferForRedoExtended (mode : RedoReadMode) : Redo C (RedoAction × Buffer) :=
  match record.block? id with
  | none => redoPanic
  | some blk =>
    if blk.willInit ≠ decide (mode = .zeroAndLock) then redoPanic
    else if blk.applyImage then do
      lockBuffer blk.tag
      modifyPage blk.tag fun _ => restoredPage (image record.data id) record.endRecPtr
      return (.restored, some blk.tag)
    else do
      let page ← getPage blk.tag
      if mode = .normal ∧ page.body.isNone then return (.notFound, none)
      else
        lockBuffer blk.tag
        if record.endRecPtr ≤ page.lsn then return (.done, some blk.tag)
        else return (.needsRedo, some blk.tag)

/-- `XLogReadBufferForRedo`, and `POLAR_READ_BUFFER_FOR_REDO`. -/
def xlogReadBufferForRedo : Redo C (RedoAction × Buffer) :=
  xlogReadBufferForRedoExtended image record id .normal

/-- `XLogInitBufferForRedo`. -/
def xlogInitBufferForRedo : Redo C Buffer := do
  let (_, buffer) ← xlogReadBufferForRedoExtended image record id .zeroAndLock
  return buffer

/-- `POLAR_INIT_BUFFER_FOR_REDO`. -/
def polarInitBufferForRedo (buffer : Buffer) : Redo C Buffer :=
  match buffer with
  | some _ => pure buffer
  | none => xlogInitBufferForRedo image record id

/-- `if (action == BLK_NEEDS_REDO)`: change the page in the buffer. -/
def whenNeedsRedo (r : RedoAction × Buffer) (f : RedoPage C → RedoPage C) : Redo C Unit :=
  match r with
  | (.needsRedo, some t) => modifyPage t f
  | _ => pure ()

/-- A page is made from scratch in a buffer; nothing happens to an invalid one. -/
def writePage (buffer : Buffer) (f : RedoPage C → RedoPage C) : Redo C Unit :=
  match buffer with
  | some t => modifyPage t f
  | none => pure ()

/-- The block a single-page redo reads and changes; the buffer stays locked for the caller. -/
def polarRedoBlock (mode : RedoReadMode) (f : RedoPage C → RedoPage C) :
    Redo C (RedoAction × Buffer) := do
  let r ← xlogReadBufferForRedoExtended image record id mode
  whenNeedsRedo r f
  return r

/-- The block a full redo reads, changes and releases. -/
def redoBlock (mode : RedoReadMode) (f : RedoPage C → RedoPage C) : Redo C Unit := do
  let r ← polarRedoBlock image record id mode f
  releaseIfValid r.2

/-- The block a full redo makes from scratch and releases. -/
def redoInitBlock (f : RedoPage C → RedoPage C) : Redo C Unit := do
  let buffer ← xlogInitBufferForRedo image record id
  writePage buffer f
  releaseIfValid buffer

end Read

/-! ## Running a routine -/

section Run

variable {s s' : RedoState C} {t t' : BufferTag} {f g : RedoPage C → RedoPage C}

@[simp] lemma redo_pure (a : α) : (pure a : Redo C α) s = .ok (a, s) := rfl

lemma redo_bind (m : Redo C α) (k : α → Redo C β) :
    (m >>= k) s = match m s with
      | .ok (a, s') => k a s'
      | .error e => .error e := by
  change (m s >>= fun p => k p.1 p.2) = _
  cases m s <;> rfl

lemma redo_bind_ok {m : Redo C α} {k : α → Redo C β} {a : α} (h : m s = .ok (a, s')) :
    (m >>= k) s = k a s' := by
  rw [redo_bind, h]

lemma redo_bind_error {m : Redo C α} {k : α → Redo C β} {e : RedoFailure} (h : m s = .error e) :
    (m >>= k) s = .error e := by
  rw [redo_bind, h]

lemma redo_bind_eq_ok {m : Redo C α} {k : α → Redo C β} {b : β}
    (h : (m >>= k) s = .ok (b, s')) : ∃ a s₁, m s = .ok (a, s₁) ∧ k a s₁ = .ok (b, s') := by
  rw [redo_bind] at h
  cases hm : m s with
  | error e => simp [hm] at h
  | ok r => exact ⟨r.1, r.2, rfl, by simpa [hm] using h⟩

@[simp] lemma touch_locked : (s.touch t f).locked = s.locked := rfl

@[simp] lemma lock_locked : (s.lock t).locked = t :: s.locked := rfl

@[simp] lemma lock_pages : (s.lock t).pages = s.pages := rfl

@[simp] lemma touch_pages_self : (s.touch t f).pages t = f (s.pages t) := by
  simp [RedoState.touch]

lemma touch_pages_of_ne (h : t' ≠ t) : (s.touch t f).pages t' = s.pages t' := by
  simp [RedoState.touch, h]

lemma touch_touch : (s.touch t f).touch t g = s.touch t fun p => g (f p) := by
  simp [RedoState.touch]

lemma lock_touch : (s.lock t').touch t f = (s.touch t f).lock t' := rfl

@[simp] lemma getPage_run : (getPage t : Redo C (RedoPage C)) s = .ok (s.pages t, s) := rfl

lemma touch_eq_self (h : f (s.pages t) = s.pages t) : s.touch t f = s := by
  simp [RedoState.touch, h]

@[simp] lemma modifyPage_run : (modifyPage t f : Redo C Unit) s = .ok ((), s.touch t f) := rfl

lemma lockBuffer_run (h : t ∉ s.locked) : (lockBuffer t : Redo C Unit) s = .ok ((), s.lock t) :=
  if_neg h

@[simp] lemma unlockBuffer_lock : (unlockBuffer t : Redo C Unit) (s.lock t) = .ok ((), s) := by
  simp [unlockBuffer, RedoState.lock]

@[simp] lemma releaseIfValid_none : (releaseIfValid none : Redo C Unit) s = .ok ((), s) := rfl

@[simp] lemma releaseIfValid_lock :
    (releaseIfValid (some t) : Redo C Unit) (s.lock t) = .ok ((), s) := unlockBuffer_lock

@[simp] lemma writePage_some : writePage (some t) f s = .ok ((), s.touch t f) := rfl

@[simp] lemma whenNeedsRedo_some :
    whenNeedsRedo (.needsRedo, some t) f s = .ok ((), s.touch t f) := rfl

lemma whenNeedsRedo_of_ne {r : RedoAction × Buffer} (h : r.1 ≠ .needsRedo) :
    whenNeedsRedo r f s = .ok ((), s) := by
  obtain ⟨action, buffer⟩ := r
  cases action with
  | needsRedo => exact absurd rfl h
  | done | restored | notFound => rfl

end Run

/-! ## What reading a block does -/

/-- What is reported about a block that is read in mode `mode`. -/
def blockAction (record : XLogRecord D) (blk : DecodedBkpBlock) (mode : RedoReadMode)
    (p : RedoPage C) : RedoAction :=
  if blk.applyImage then .restored
  else if mode = .normal ∧ p.body.isNone then .notFound
  else if record.endRecPtr ≤ p.lsn then .done
  else .needsRedo

/-- What becomes of its page if it is changed by `f` where redo is needed. -/
def blockEffect (image : D → ℕ → Option C) (record : XLogRecord D) (id : ℕ)
    (blk : DecodedBkpBlock) (mode : RedoReadMode) (f : RedoPage C → RedoPage C)
    (p : RedoPage C) : RedoPage C :=
  match blockAction record blk mode p with
  | .restored => restoredPage (image record.data id) record.endRecPtr
  | .needsRedo => f p
  | .done | .notFound => p

section Blocks

variable {image : D → ℕ → Option C} {record : XLogRecord D} {id : ℕ} {blk : DecodedBkpBlock}
  {mode : RedoReadMode} {s : RedoState C} {f : RedoPage C → RedoPage C}

/-- A block is reported missing only if its page is new. -/
lemma blockAction_ne_notFound {p : RedoPage C} (hbody : p.body ≠ none) :
    blockAction record blk mode p ≠ .notFound := by
  unfold blockAction
  split
  · simp
  · split
    · rename_i h
      exact absurd (Option.isNone_iff_eq_none.mp h.2) hbody
    · split <;> simp

lemma polarGetLogTag_run (hblk : record.block? id = some blk) :
    (polarGetLogTag record id : Redo C BufferTag) s = .ok (blk.tag, s) := by
  simp [polarGetLogTag, XLogRecord.blockTag?_of_block? hblk]

lemma xlogReadBufferForRedoExtended_run (hblk : record.block? id = some blk)
    (hinit : blk.willInit = decide (mode = .zeroAndLock)) (hfree : blk.tag ∉ s.locked) :
    xlogReadBufferForRedoExtended image record id mode s =
      match blockAction record blk mode (s.pages blk.tag) with
      | .notFound => .ok ((.notFound, none), s)
      | .restored => .ok ((.restored, some blk.tag), (s.touch blk.tag fun _ =>
          restoredPage (image record.data id) record.endRecPtr).lock blk.tag)
      | action => .ok ((action, some blk.tag), s.lock blk.tag) := by
  by_cases himage : blk.applyImage
  · simp only [xlogReadBufferForRedoExtended, hblk, hinit, himage, redo_bind, lockBuffer_run hfree,
      modifyPage_run, redo_pure, lock_touch, blockAction, if_true, ne_eq, not_true_eq_false,
      if_false]
  · by_cases hnew : mode = .normal ∧ (s.pages blk.tag).body.isNone
    · simp only [xlogReadBufferForRedoExtended, hblk, hinit, himage, redo_bind, getPage_run,
        redo_pure, hnew, blockAction, if_true, ne_eq, not_true_eq_false, if_false, and_self,
        Bool.false_eq_true]
    · by_cases hlsn : record.endRecPtr ≤ (s.pages blk.tag).lsn
      all_goals
        simp only [xlogReadBufferForRedoExtended, hblk, hinit, himage, redo_bind, getPage_run,
          lockBuffer_run hfree, redo_pure, hnew, hlsn, blockAction, if_true, ne_eq,
          not_true_eq_false, if_false, Bool.false_eq_true]

lemma blockEffect_of_needsRedo {p : RedoPage C} (h : blockAction record blk mode p = .needsRedo) :
    blockEffect image record id blk mode f p = f p := by
  simp [blockEffect, h]

lemma blockEffect_congr {g : RedoPage C → RedoPage C} {p : RedoPage C}
    (h : blockAction record blk mode p ≠ .needsRedo) :
    blockEffect image record id blk mode f p = blockEffect image record id blk mode g p := by
  unfold blockEffect
  split <;> simp_all

lemma touch_blockEffect_of_notFound
    (h : blockAction record blk mode (s.pages blk.tag) = .notFound) :
    s.touch blk.tag (blockEffect image record id blk mode f) = s :=
  touch_eq_self (by simp [blockEffect, h])

lemma xlogReadBufferForRedoExtended_touch (hblk : record.block? id = some blk)
    (hinit : blk.willInit = decide (mode = .zeroAndLock)) (hfree : blk.tag ∉ s.locked) :
    xlogReadBufferForRedoExtended image record id mode s =
      if blockAction record blk mode (s.pages blk.tag) = .notFound then
        .ok ((.notFound, none), s)
      else .ok ((blockAction record blk mode (s.pages blk.tag), some blk.tag),
        (s.touch blk.tag (blockEffect image record id blk mode fun p => p)).lock blk.tag) := by
  rw [xlogReadBufferForRedoExtended_run hblk hinit hfree]
  cases h : blockAction record blk mode (s.pages blk.tag) with
  | notFound => rfl
  | needsRedo => simp [touch_eq_self (f := blockEffect image record id blk mode _), blockEffect, h]
  | done => simp [touch_eq_self (f := blockEffect image record id blk mode _), blockEffect, h]
  | restored => simp [RedoState.touch, blockEffect, h]

lemma polarRedoBlock_run (hblk : record.block? id = some blk)
    (hinit : blk.willInit = decide (mode = .zeroAndLock)) (hfree : blk.tag ∉ s.locked) :
    polarRedoBlock image record id mode f s =
      if blockAction record blk mode (s.pages blk.tag) = .notFound then
        .ok ((.notFound, none), s)
      else .ok ((blockAction record blk mode (s.pages blk.tag), some blk.tag),
        (s.touch blk.tag (blockEffect image record id blk mode f)).lock blk.tag) := by
  rw [polarRedoBlock, redo_bind, xlogReadBufferForRedoExtended_touch hblk hinit hfree]
  by_cases hnot : blockAction record blk mode (s.pages blk.tag) = .notFound
  · simp only [if_pos hnot, redo_bind, whenNeedsRedo, redo_pure]
  · simp only [if_neg hnot]
    by_cases hneeds : blockAction record blk mode (s.pages blk.tag) = .needsRedo
    · rw [hneeds, redo_bind_ok whenNeedsRedo_some, lock_touch, touch_touch, redo_pure]
      congr 3
      simp [RedoState.touch, blockEffect_of_needsRedo hneeds]
    · rw [redo_bind_ok (whenNeedsRedo_of_ne hneeds), redo_pure]
      congr 3
      simp only [RedoState.touch]
      rw [blockEffect_congr hneeds]

lemma redoBlock_run (hblk : record.block? id = some blk)
    (hinit : blk.willInit = decide (mode = .zeroAndLock)) (hfree : blk.tag ∉ s.locked) :
    redoBlock image record id mode f s =
      .ok ((), s.touch blk.tag (blockEffect image record id blk mode f)) := by
  rw [redoBlock, redo_bind, polarRedoBlock_run hblk hinit hfree]
  by_cases hnot : blockAction record blk mode (s.pages blk.tag) = .notFound
  · simp only [if_pos hnot, touch_blockEffect_of_notFound hnot, releaseIfValid_none]
  · simp only [if_neg hnot, releaseIfValid_lock]

lemma redoBlock_bind (hblk : record.block? id = some blk)
    (hinit : blk.willInit = decide (mode = .zeroAndLock)) (hfree : blk.tag ∉ s.locked)
    (k : Redo C α) :
    (do
      let r ← polarRedoBlock image record id mode f
      releaseIfValid r.2
      k) s = k (s.touch blk.tag (blockEffect image record id blk mode f)) := by
  have hassoc :
      (polarRedoBlock image record id mode f >>= fun r => releaseIfValid r.2 >>= fun _ => k)
      = redoBlock image record id mode f >>= fun _ => k := by rw [redoBlock, bind_assoc]
  exact (congrFun hassoc s).trans (redo_bind_ok (redoBlock_run hblk hinit hfree))

lemma xlogInitBufferForRedo_run (hblk : record.block? id = some blk) (hinit : blk.willInit = true)
    (hfree : blk.tag ∉ s.locked) :
    xlogInitBufferForRedo image record id s = .ok (some blk.tag, (s.touch blk.tag
      (blockEffect image record id blk .zeroAndLock fun p => p)).lock blk.tag) := by
  have hfound : blockAction record blk .zeroAndLock (s.pages blk.tag) ≠ .notFound := by
    unfold blockAction
    split
    · simp
    · rw [if_neg (by simp)]
      split <;> simp
  rw [xlogInitBufferForRedo, redo_bind,
    xlogReadBufferForRedoExtended_touch hblk (by simpa using hinit) hfree]
  simp only [if_neg hfound, redo_pure]

lemma initBlock_run (hblk : record.block? id = some blk) (hinit : blk.willInit = true)
    (hfree : blk.tag ∉ s.locked) (c : RedoPage C) (k : Buffer → Redo C α) :
    (do
      let buffer ← xlogInitBufferForRedo image record id
      writePage buffer fun _ => c
      k buffer) s = k (some blk.tag) ((s.touch blk.tag fun _ => c).lock blk.tag) := by
  rw [redo_bind_ok (xlogInitBufferForRedo_run hblk hinit hfree), redo_bind_ok writePage_some,
    lock_touch, touch_touch]

lemma redoInitBlock_run (hblk : record.block? id = some blk) (hinit : blk.willInit = true)
    (hfree : blk.tag ∉ s.locked) (c : RedoPage C) :
    redoInitBlock image record id (fun _ => c) s = .ok ((), s.touch blk.tag fun _ => c) := by
  rw [redoInitBlock, initBlock_run hblk hinit hfree, releaseIfValid_lock]

end Blocks

end GroundDB
