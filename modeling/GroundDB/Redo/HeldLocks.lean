import GroundDB.Redo.NotFound
import GroundDB.Redo.PageLogic

/-!
# The buffers a single-page routine holds

A single-page routine locks the page it works on and returns the buffer locked.  Whatever the record
says, it gives up no lock that it did not take itself, and the buffer it returns is held once more
than before.  `Keeps` says this of a part of a routine, which may be handed a buffer by the part
before it, and is a judgement in the sense of `PageLogic` (`keepsLogic`).
-/

namespace GroundDB

variable {C D α β : Type}

/-- Entered with `b` and the buffers `l` held, the part ends with `held a` and `l` held. -/
def Keeps (b : Buffer) (held : α → Buffer) (m : Redo C α) : Prop :=
  ∀ l s a s', (b.toList ++ l).Subperm s.locked → m s = .ok (a, s') →
    ((held a).toList ++ l).Subperm s'.locked

/-! ## Rules -/

section Rules

variable {b : Buffer} {held : α → Buffer} {held' : β → Buffer} {m m' : Redo C α}
  {k : α → Redo C β}

lemma keeps_pure {a : α} (h : held a = b) : Keeps b held (pure a : Redo C α) := by
  intro l s a' s' hl hrun
  cases hrun
  exact h ▸ hl

lemma keeps_panic : Keeps b held (redoPanic : Redo C α) := by
  intro l s a s' hl hrun
  cases hrun

lemma Keeps.bind (hm : Keeps b held m) (hk : ∀ a, Keeps (held a) held' (k a)) :
    Keeps b held' (m >>= k) := by
  intro l s c s' hl hrun
  obtain ⟨a, s₁, hfirst, hrest⟩ := redo_bind_eq_ok hrun
  exact hk a l s₁ c s' (hm l s a s₁ hl hfirst) hrest

lemma Keeps.of_none (hm : Keeps none held m) : Keeps b held m := fun l s a s' hl hrun =>
  hm l s a s' ((List.sublist_append_right _ _).subperm.trans hl) hrun

lemma keeps_of_locked_eq (h : ∀ s a s', m s = .ok (a, s') → s'.locked = s.locked) :
    Keeps b (fun _ => b) m := by
  intro l s a s' hl hrun
  rw [h s a s' hrun]
  exact hl

lemma keeps_of_locks (h : ∀ s a s', m s = .ok (a, s') → s'.locked = (held a).toList ++ s.locked) :
    Keeps none held m := by
  intro l s a s' hl hrun
  rw [h s a s' hrun]
  exact (List.subperm_append_left _).mpr hl

end Rules

/-! ## Reading and writing a block -/

section Blocks

variable {image : D → ℕ → Option C} {record : XLogRecord D} {id : ℕ} {mode : RedoReadMode}
  {f : RedoPage C → RedoPage C} {b buffer : Buffer} {r : RedoAction × Buffer}

lemma keeps_whenNeedsRedo : Keeps b (fun _ => b) (whenNeedsRedo r f) := by
  refine keeps_of_locked_eq fun s _ s' hrun => ?_
  unfold whenNeedsRedo at hrun
  split at hrun <;> cases hrun <;> rfl

lemma keeps_writePage : Keeps b (fun _ => b) (writePage buffer f) := by
  refine keeps_of_locked_eq fun s _ s' hrun => ?_
  cases buffer <;> cases hrun <;> rfl

lemma keeps_modifyPage {t : BufferTag} : Keeps b (fun _ => b) (modifyPage t f) := by
  refine keeps_of_locked_eq fun s _ s' hrun => ?_
  cases hrun
  rfl

/-- A block that is read is locked, unless its page is missing. -/
lemma xlogReadBufferForRedoExtended_locked {s s' : RedoState C}
    (h : xlogReadBufferForRedoExtended image record id mode s = .ok (r, s')) :
    s'.locked = r.2.toList ++ s.locked := by
  unfold xlogReadBufferForRedoExtended at h
  cases hblk : record.block? id with
  | none =>
      rw [hblk] at h
      cases h
  | some blk =>
      rw [hblk] at h
      simp only at h
      split at h
      · cases h
      split at h
      · obtain ⟨_, s₁, hlock, h⟩ := redo_bind_eq_ok h
        obtain ⟨-, rfl⟩ := lockBuffer_inv hlock
        cases h
        rfl
      obtain ⟨page, s₁, hpage, h⟩ := redo_bind_eq_ok h
      cases hpage
      split at h
      · cases h
        rfl
      · obtain ⟨_, s₂, hlock, h⟩ := redo_bind_eq_ok h
        obtain ⟨-, rfl⟩ := lockBuffer_inv hlock
        split at h <;> cases h <;> rfl

lemma keeps_oldTuple : Keeps r.2 (fun _ => r.2) (HeapOps.oldTuple r : Redo C (Option C)) := by
  refine keeps_of_locked_eq fun s _ s' hrun => ?_
  unfold HeapOps.oldTuple at hrun
  split at hrun <;> cases hrun <;> rfl

variable (C record) in
/-- The rules for single-page routines. -/
def keepsLogic : PageLogic C record where
  Holds := Keeps
  ofPure := keeps_pure
  ofPanic := keeps_panic
  bind := Keeps.bind
  ofTag hk := by
    intro l s a s' hl hrun
    obtain ⟨t, s₁, htag, hrest⟩ := redo_bind_eq_ok hrun
    obtain ⟨ht, rfl⟩ := polarGetLogTag_inv htag
    exact hk t ht l s₁ a s' hl hrest
  read := (keeps_of_locks fun _ _ _ => xlogReadBufferForRedoExtended_locked).of_none
  change := keeps_whenNeedsRedo
  write := keeps_writePage
  oldTuple := keeps_oldTuple

end Blocks

/-! ## Records -/

section Records

variable {record : XLogRecord D} {tag : BufferTag} {buffer : Buffer}

/-- Clearing map bits locks the map page, unless it was handed over. -/
lemma HeapOps.keeps_polarHeapClearVm {ops : HeapOps D C} {heap : BufferTag} {flags : UInt8} :
    Keeps buffer Prod.snd (ops.polarHeapClearVm record heap buffer flags) := by
  have hpin : Keeps buffer some (ops.pinAndLockVm record heap buffer) := by
    cases buffer with
    | some vm => exact keeps_pure rfl
    | none =>
        refine keeps_of_locks fun s t s' hrun => ?_
        obtain ⟨_, s₁, hvm, hrun⟩ := redo_bind_eq_ok hrun
        obtain ⟨_, s₂, hlock, hrun⟩ := redo_bind_eq_ok hrun
        obtain ⟨-, rfl⟩ := lockBuffer_inv hlock
        cases hrun
        rw [visibilitymapPin_inv hvm]
        rfl
  exact hpin.bind fun _ => keeps_modifyPage.bind fun _ => keeps_pure rfl

lemma HeapOps.keeps_polarHeapIdxRedo {ops : HeapOps D C} :
    Keeps none Prod.snd (ops.polarHeapIdxRedo record tag) :=
  (keepsLogic C record).polarHeapIdxRedo fun _ => keeps_polarHeapClearVm

lemma HeapOps.keeps_polarHeap2IdxRedo {ops : HeapOps D C} :
    Keeps none Prod.snd (ops.polarHeap2IdxRedo record tag) :=
  (keepsLogic C record).polarHeap2IdxRedo fun _ => keeps_polarHeapClearVm

lemma BtreeOps.keeps_polarBtreeRedo {ops : BtreeOps D C} :
    Keeps none Prod.snd (ops.polarBtreeRedo record tag) :=
  (keepsLogic C record).polarBtreeRedo

end Records

end GroundDB
