import GroundDB.Lib.Oblivious
import GroundDB.Redo.NotFound
import GroundDB.Redo.PageLogic

/-!
# The pages redo reads and changes

The redo of a record, whole or for one page, reads and changes no pages but those its blocks name,
the pages of the visibility map through the ones that belong to them, and their pages of the free
space map: the `footprint` of the record.  `Confined` says that a routine does not see the pages
outside a list `T`: they may be exchanged before or after it with the same result.  Nothing is
assumed of the record.  For the parts of single-page routines this is a judgement in the sense of
`PageLogic` (`confinedLogic`).
-/

namespace GroundDB

variable {C D α β : Type}

/-- The pages outside `T` are exchanged for those of `q`. -/
def RedoState.outside (T : List BufferTag) (q : BufferTag → RedoPage C) (s : RedoState C) :
    RedoState C :=
  { s with pages := fun t => if t ∈ T then s.pages t else q t }

/-- The routine reads and changes pages of `T` only, and what it returns satisfies `P`. -/
def Confined (T : List BufferTag) (P : α → Prop) (m : Redo C α) : Prop :=
  ∀ q, Oblivious (RedoState.outside T q) P m

/-- The buffer holds a page of `T`, if it is valid. -/
def Buffer.Inside (T : List BufferTag) (b : Buffer) : Prop := ∀ t, b = some t → t ∈ T

/-- The pages of the blocks of a record. -/
def XLogRecord.blockTags (record : XLogRecord D) : List BufferTag :=
  record.blocks.filterMap fun b => b.map (·.tag)

/-- The pages of the visibility map through `vm`. -/
def mapThrough (vm : BufferTag) : List BufferTag :=
  (List.range (vm.blockNum.toNat + 1)).map fun block => { vm with blockNum := .ofNat block }

/-- The pages of the blocks of a record, and the pages of the free space map and of the visibility
map that redo derives from them.  A map page is pinned with all the pages below it.  The full redo
of an update looks for the map page of the old tuple in the relation of the new one. -/
def XLogRecord.footprint (record : XLogRecord D) : List BufferTag :=
  record.blockTags ++ record.blockTags.map fsmTag ++
    record.blockTags.flatMap fun t => record.blockTags.flatMap fun t' =>
      mapThrough (mapTag { t with blockNum := t'.blockNum })

lemma mem_mapThrough {vm : BufferTag} {block : ℕ} (h : block ≤ vm.blockNum.toNat) :
    { vm with blockNum := .ofNat block } ∈ mapThrough vm :=
  List.mem_map.mpr ⟨block, List.mem_range.mpr (by omega), rfl⟩

lemma self_mem_mapThrough (vm : BufferTag) : vm ∈ mapThrough vm := by
  have hmem : { vm with blockNum := .ofNat vm.blockNum.toNat } ∈ mapThrough vm :=
    mem_mapThrough le_rfl
  rwa [UInt32.ofNat_toNat] at hmem

/-! ## Rules -/

section Rules

variable {T : List BufferTag} {P P' : α → Prop} {Q : β → Prop} {m m' : Redo C α}
  {k : α → Redo C β} {s : RedoState C} {t : BufferTag} {f : RedoPage C → RedoPage C}
  {b : Buffer}

lemma Buffer.inside_none : Buffer.Inside T none := fun _ h => nomatch h

lemma Buffer.inside_some (h : t ∈ T) : Buffer.Inside T (some t) := by
  rintro t' ⟨⟩
  exact h

lemma confined_pure {a : α} (h : P a) : Confined T P (pure a : Redo C α) := fun _ => .ofPure h

lemma confined_panic : Confined T P (redoPanic : Redo C α) := fun _ => .ofError fun _ => rfl

lemma Confined.bind (hm : Confined T P m) (hk : ∀ a, P a → Confined T Q (k a)) :
    Confined T Q (m >>= k) := fun q => (hm q).bind fun a ha => hk a ha q

lemma Confined.ite {p : Prop} [Decidable p] (hm : p → Confined T P m)
    (hm' : ¬ p → Confined T P m') : Confined T P (if p then m else m') := fun q =>
  .ite (fun h => hm h q) fun h => hm' h q

lemma Confined.mono (hm : Confined T P m) (h : ∀ a, P a → P' a) : Confined T P' m := fun q =>
  (hm q).mono h

lemma outside_locked {q : BufferTag → RedoPage C} : (s.outside T q).locked = s.locked := rfl

lemma outside_lock {q : BufferTag → RedoPage C} :
    (s.outside T q).lock t = (s.lock t).outside T q := rfl

lemma outside_touch {q : BufferTag → RedoPage C} (ht : t ∈ T) :
    (s.outside T q).touch t f = (s.touch t f).outside T q := by
  have hpages : ((s.outside T q).touch t f).pages = ((s.touch t f).outside T q).pages := by
    funext t'
    by_cases hne : t' = t
    · subst hne
      simp [RedoState.outside, RedoState.touch, ht]
    · simp [RedoState.outside, RedoState.touch, hne]
  exact congrArg (fun pages => RedoState.mk pages s.locked) hpages

lemma confined_lockBuffer : Confined T (fun _ => True) (lockBuffer t : Redo C Unit) := by
  refine fun q => ⟨fun s => ?_, fun _ _ _ _ => trivial⟩
  unfold lockBuffer
  rw [outside_locked]
  by_cases hheld : t ∈ s.locked
  · rw [if_pos hheld, if_pos hheld]
    rfl
  · rw [if_neg hheld, if_neg hheld, outside_lock]
    rfl

lemma confined_unlockBuffer : Confined T (fun _ => True) (unlockBuffer t : Redo C Unit) :=
  fun _ => ⟨fun _ => rfl, fun _ _ _ _ => trivial⟩

lemma confined_releaseIfValid : Confined T (fun _ => True) (releaseIfValid b : Redo C Unit) := by
  cases b with
  | none => exact confined_pure trivial
  | some t => exact confined_unlockBuffer

lemma confined_getPage (ht : t ∈ T) :
    Confined T (fun _ => True) (getPage t : Redo C (RedoPage C)) := by
  refine fun q => ⟨fun s => ?_, fun _ _ _ _ => trivial⟩
  simp [getPage, RedoState.outside, ht, Except.map]

lemma confined_modifyPage (ht : t ∈ T) : Confined T (fun _ => True) (modifyPage t f) := by
  refine fun q => ⟨fun s => ?_, fun _ _ _ _ => trivial⟩
  rw [modifyPage_run, outside_touch ht]
  rfl

lemma confined_touches {l : Touches C}
    (hl : Touch.touched l ⊆ T) (m : Redo C Unit) (hm : ∀ s, m s = .ok ((), s.touches l)) :
    Confined T (fun _ => True) m := by
  refine fun q => ⟨fun s => ?_, fun _ _ _ _ => trivial⟩
  rw [hm, hm]
  have houtside : (s.outside T q).touches l = (s.touches l).outside T q := by
    clear hm
    induction l generalizing s with
    | nil => rfl
    | cons e l ih =>
        obtain ⟨he, hl⟩ := List.cons_subset.mp hl
        change ((s.outside T q).touch e.1 e.2).touches l = _
        rw [outside_touch he]
        exact ih hl _
  rw [houtside]
  rfl

lemma confined_writePage (hb : b.Inside T) : Confined T (fun _ => True) (writePage b f) := by
  cases b with
  | none => exact confined_pure trivial
  | some t => exact confined_modifyPage (hb t rfl)

lemma confined_whenNeedsRedo {r : RedoAction × Buffer} (hr : r.2.Inside T) :
    Confined T (fun _ => True) (whenNeedsRedo r f) := by
  obtain ⟨action, buffer⟩ := r
  cases action <;> cases buffer
  case needsRedo.some t => exact confined_modifyPage (hr t rfl)
  all_goals exact confined_pure trivial

lemma confined_oldTuple {r : RedoAction × Buffer} (hr : r.2.Inside T) :
    Confined T (fun _ => True) (HeapOps.oldTuple r : Redo C (Option C)) := by
  obtain ⟨action, buffer⟩ := r
  cases action <;> cases buffer
  case needsRedo.some t =>
    exact (confined_getPage (hr t rfl)).bind fun _ _ => confined_pure trivial
  all_goals exact confined_pure trivial

/-- Exchanging pages outside a larger list, in a state that agrees with `s` on what `T` leaves. -/
lemma outside_outside {T' : List BufferTag} {q : BufferTag → RedoPage C} {s₀ : RedoState C}
    (h : T ⊆ T') (hsame : ∀ t, t ∉ T → s.pages t = s₀.pages t) :
    s.outside T' q = s.outside T (s₀.outside T' q).pages := by
  have hpages : (s.outside T' q).pages = (s.outside T (s₀.outside T' q).pages).pages := by
    funext t
    by_cases ht : t ∈ T
    · simp [RedoState.outside, ht, h ht]
    · by_cases ht' : t ∈ T'
      · simp [RedoState.outside, ht, ht', hsame t ht]
      · simp [RedoState.outside, ht, ht']
  exact congrArg (fun pages => RedoState.mk pages s.locked) hpages

lemma confined_redoAll {redo : XLogRecord D → Redo C Unit} {log : List (XLogRecord D)}
    (h : ∀ record ∈ log, Confined T (fun _ => True) (redo record)) :
    Confined T (fun _ => True) (redoAll redo log) := by
  induction log with
  | nil => exact confined_pure trivial
  | cons record log ih =>
      exact (h record List.mem_cons_self).bind fun _ _ =>
        ih fun r hr => h r (List.mem_cons_of_mem _ hr)

/-- What a confined routine does where the pages outside `T` are other ones. -/
lemma Confined.run_of_agree (hm : Confined T P m) {s' : RedoState C} {a : α}
    {pages : BufferTag → RedoPage C} (hagree : ∀ t ∈ T, pages t = s.pages t)
    (hrun : m s = .ok (a, s')) : m ⟨pages, s.locked⟩ = .ok (a, s'.outside T pages) := by
  have hstate : (⟨pages, s.locked⟩ : RedoState C) = s.outside T pages := by
    have hpages : pages = (s.outside T pages).pages := by
      funext t
      by_cases ht : t ∈ T
      · simp [RedoState.outside, ht, hagree t ht]
      · simp [RedoState.outside, ht]
    exact congrArg (fun pages => RedoState.mk pages s.locked) hpages
  rw [hstate]
  exact (hm pages).run_ok hrun

lemma Confined.frame (hm : Confined T P m) {s' : RedoState C} {a : α}
    (hrun : m s = .ok (a, s')) (ht : t ∉ T) : s'.pages t = s.pages t := by
  have hsame := hm.run_of_agree (fun _ _ => rfl) hrun
  rw [hrun] at hsame
  have hstate : s' = s'.outside T s.pages := congrArg Prod.snd (Except.ok.inj hsame)
  rw [hstate]
  simp [RedoState.outside, ht]

lemma Confined.widen {T' : List BufferTag} (hm : Confined T P m) (h : T ⊆ T') :
    Confined T' P m := by
  refine fun q => ⟨fun s => ?_, (hm q).post⟩
  have hstate : s.outside T' q = s.outside T (s.outside T' q).pages :=
    outside_outside h fun _ _ => rfl
  cases hrun : m s with
  | error e =>
      rw [hstate, (hm _).commutes, hrun]
      rfl
  | ok r =>
      have hend : r.2.outside T' q = r.2.outside T (s.outside T' q).pages :=
        outside_outside h fun t ht => hm.frame hrun ht
      rw [hstate, (hm _).commutes, hrun]
      exact congrArg (fun s' => Except.ok (r.1, s')) hend.symm

end Rules

/-! ## Reading a block -/

section Blocks

variable {T : List BufferTag} {image : D → ℕ → Option C} {record : XLogRecord D} {id : ℕ}
  {mode : RedoReadMode} {f : RedoPage C → RedoPage C} {t t' : BufferTag} {Q : β → Prop}
  {k : BufferTag → Redo C β} {buffer : Buffer}

lemma XLogRecord.mem_blockTags (h : record.blockTag? id = some t) : t ∈ record.blockTags := by
  unfold XLogRecord.blockTag? XLogRecord.block? at h
  obtain ⟨blk, hblk, rfl⟩ := Option.map_eq_some_iff.mp h
  have hget : record.blocks[id]? = some (some blk) := Option.join_eq_some_iff.mp hblk
  exact List.mem_filterMap.mpr ⟨some blk, List.mem_of_getElem? hget, rfl⟩

lemma XLogRecord.blockTags_subset (hT : record.footprint ⊆ T) : record.blockTags ⊆ T := by
  intro t ht
  refine hT ?_
  simp only [XLogRecord.footprint, List.mem_append]
  exact .inl (.inl ht)

lemma XLogRecord.fsmTag_mem (hT : record.footprint ⊆ T) (ht : t ∈ record.blockTags) :
    fsmTag t ∈ T := by
  refine hT ?_
  simp only [XLogRecord.footprint, List.mem_append]
  exact .inl (.inr (List.mem_map_of_mem ht))

lemma XLogRecord.oldMap_subset (hT : record.footprint ⊆ T) {id' : ℕ}
    (h : record.blockTag? id = some t) (h' : record.blockTag? id' = some t') :
    mapThrough (mapTag { t with blockNum := t'.blockNum }) ⊆ T := by
  intro vm hvm
  refine hT ?_
  simp only [XLogRecord.footprint, List.mem_append]
  refine .inr (List.mem_flatMap.mpr ⟨t, mem_blockTags h, ?_⟩)
  exact List.mem_flatMap.mpr ⟨t', mem_blockTags h', hvm⟩

lemma XLogRecord.map_subset (hT : record.footprint ⊆ T) (h : record.blockTag? id = some t) :
    mapThrough (mapTag t) ⊆ T :=
  oldMap_subset hT h h

lemma confined_polarGetLogTag (hk : ∀ t, record.blockTag? id = some t → Confined T Q (k t)) :
    Confined T Q (polarGetLogTag record id >>= k) := by
  refine Confined.bind (P := fun t => record.blockTag? id = some t) ?_ hk
  unfold polarGetLogTag
  cases htag : record.blockTag? id with
  | none => exact confined_panic
  | some t => exact confined_pure rfl

variable (hT : record.blockTags ⊆ T)

include hT

lemma confined_read :
    Confined T (fun r => r.2.Inside T) (xlogReadBufferForRedoExtended image record id mode) := by
  unfold xlogReadBufferForRedoExtended
  cases hblk : record.block? id with
  | none => exact confined_panic
  | some blk =>
      have htag : blk.tag ∈ T := hT (XLogRecord.mem_blockTags (XLogRecord.blockTag?_of_block? hblk))
      refine .ite (fun _ => confined_panic) fun _ => .ite (fun _ => ?_) fun _ => ?_
      · exact confined_lockBuffer.bind fun _ _ => (confined_modifyPage htag).bind fun _ _ =>
          confined_pure (Buffer.inside_some htag)
      · refine (confined_getPage htag).bind fun page _ =>
          .ite (fun _ => confined_pure Buffer.inside_none) fun _ => ?_
        exact confined_lockBuffer.bind fun _ _ => .ite
          (fun _ => confined_pure (Buffer.inside_some htag))
          fun _ => confined_pure (Buffer.inside_some htag)

variable (C) in
/-- The rules for single-page routines: the buffers that are handed on hold pages of `T`. -/
def confinedLogic : PageLogic C record where
  Holds b held m := b.Inside T → Confined T (fun a => (held a).Inside T) m
  ofPure h hb := confined_pure (h ▸ hb)
  ofPanic _ := confined_panic
  bind hm hk hb := (hm hb).bind hk
  ofTag hk hb := confined_polarGetLogTag fun t ht => hk t ht hb
  read _ := confined_read hT
  change hb := (confined_whenNeedsRedo hb).mono fun _ _ => hb
  write hb := (confined_writePage hb).mono fun _ _ => hb
  oldTuple hb := (confined_oldTuple hb).mono fun _ _ => hb

lemma confined_polarRedoBlock :
    Confined T (fun r => r.2.Inside T) (polarRedoBlock image record id mode f) :=
  (confinedLogic C hT).polarRedoBlock Buffer.inside_none

lemma confined_redoBlock : Confined T (fun _ => True) (redoBlock image record id mode f) :=
  (confined_polarRedoBlock hT).bind fun _ _ => confined_releaseIfValid

lemma confined_xlogInitBufferForRedo :
    Confined T (Buffer.Inside T) (xlogInitBufferForRedo image record id) :=
  (confined_read hT).bind fun _ hr => confined_pure hr

lemma confined_redoInitBlock : Confined T (fun _ => True) (redoInitBlock image record id f) :=
  (confined_xlogInitBufferForRedo hT).bind fun _ hb => (confined_writePage hb).bind fun _ _ =>
    confined_releaseIfValid

end Blocks

/-! ## Heap records -/

namespace HeapOps

variable {T : List BufferTag} {ops : HeapOps D C} {record : XLogRecord D}
  {tag heap vm : BufferTag} {b buffer : Buffer} {r : RedoAction × Buffer} {flags : UInt8}
  {cond init hotUpdate samePage : Bool} {f : C → C} {lsn : ℕ} {heapBlk : UInt32}

lemma confined_vmExtend {now : UInt32} (hvm : mapThrough vm ⊆ T) (hnow : now ≤ vm.blockNum) :
    Confined T (fun _ => True) (ops.vmExtend now vm) := by
  refine confined_touches (l := ops.initBelow now vm ++ [(vm, ops.initIfNew)]) ?_ _ fun s => by
    rw [vmExtend_run hnow, touches_append, touches_singleton]
  intro t ht
  rw [Touch.touched_append, List.mem_append] at ht
  rcases ht with ht | ht
  · obtain ⟨e, he, rfl⟩ := List.mem_map.mp ht
    obtain ⟨block, hblock, rfl⟩ := ops.mem_initBelow he
    exact hvm (mem_mapThrough hblock.le)
  · rw [List.mem_singleton.mp ht]
    exact hvm (self_mem_mapThrough vm)

lemma confined_visibilitymapPin {now : UInt32} (hvm : mapThrough vm ⊆ T) :
    Confined T (fun _ => True) (ops.visibilitymapPin now vm) := by
  have hself : vm ∈ T := hvm (self_mem_mapThrough vm)
  refine .ite (fun hnow => (confined_vmExtend hvm hnow).bind fun _ _ => ?_) fun _ => ?_
  all_goals
    refine (confined_getPage hself).bind fun page _ => ?_
    cases page.body with
    | none =>
        exact confined_lockBuffer.bind fun _ _ => (confined_modifyPage hself).bind fun _ _ =>
          confined_unlockBuffer
    | some c => exact confined_pure trivial

lemma confined_visibilitymapClear (hvm : mapTag heap ∈ T) :
    Confined T (fun _ => True) (ops.visibilitymapClear heap flags) :=
  confined_lockBuffer.bind fun _ _ => (confined_modifyPage hvm).bind fun _ _ =>
    confined_unlockBuffer

lemma confined_visibilitymapSet (hvm : vm ∈ T) :
    Confined T (fun _ => True) (ops.visibilitymapSet vm heapBlk flags lsn) :=
  confined_lockBuffer.bind fun _ _ => (confined_modifyPage hvm).bind fun _ _ =>
    confined_unlockBuffer

lemma confined_clearVmIf (hvm : mapThrough (mapTag heap) ⊆ T) :
    Confined T (fun _ => True) (ops.clearVmIf record cond heap flags) :=
  .ite (fun _ => (confined_visibilitymapPin hvm).bind fun _ _ =>
      confined_visibilitymapClear (hvm (self_mem_mapThrough _)))
    fun _ => confined_pure trivial

lemma confined_polarHeapClearVm (hvm : mapThrough (mapTag heap) ⊆ T) (hb : buffer.Inside T) :
    Confined T (fun r => r.2.Inside T) (ops.polarHeapClearVm record heap buffer flags) := by
  have hpin : Confined T (· ∈ T) (ops.pinAndLockVm record heap buffer) := by
    cases buffer with
    | some vm => exact confined_pure (hb vm rfl)
    | none =>
        exact (confined_visibilitymapPin hvm).bind fun _ _ =>
          confined_lockBuffer.bind fun _ _ => confined_pure (hvm (self_mem_mapThrough _))
  exact hpin.bind fun vm hin => (confined_modifyPage hin).bind fun _ _ =>
    confined_pure (Buffer.inside_some hin)

lemma confined_repin (hin : vm ∈ T) (hvm : mapThrough (mapTag heap) ⊆ T) :
    Confined T (· ∈ T) (ops.repin record heap vm) :=
  .ite (fun _ => confined_pure hin) fun _ => (confined_visibilitymapPin hvm).bind fun _ _ =>
    confined_pure (hvm (self_mem_mapThrough _))

lemma confined_visibleMapPage (hr : r.2.Inside T) (hvm : mapThrough (mapTag heap) ⊆ T) :
    Confined T (fun _ => True) (ops.visibleMapPage record heap r) := by
  obtain ⟨action, buffer⟩ := r
  unfold visibleMapPage
  cases action <;> cases buffer
  case needsRedo.some vm =>
    have hin : vm ∈ T := hr vm rfl
    refine (confined_modifyPage hin).bind fun _ _ => confined_unlockBuffer.bind fun _ _ =>
      (confined_repin hin hvm).bind fun _ hpinned => (confined_getPage hin).bind fun _ _ => ?_
    exact .ite (fun _ => confined_visibilitymapSet hpinned) fun _ => confined_pure trivial
  all_goals exact confined_releaseIfValid

lemma confined_noteFreeSpace {space : RedoAction → Option C → Option ℕ}
    (hT : record.footprint ⊆ T) (hr : r.2.Inside record.blockTags) :
    Confined T (fun _ => True) (ops.noteFreeSpace space r) := by
  obtain ⟨action, _ | heap⟩ := r
  · exact confined_pure trivial
  · have hblock : heap ∈ record.blockTags := hr heap rfl
    refine (confined_getPage (XLogRecord.blockTags_subset hT hblock)).bind fun page _ => ?_
    cases space action page.body with
    | none => exact confined_pure trivial
    | some spaceAvail =>
        exact confined_lockBuffer.bind fun _ _ =>
          (confined_modifyPage (XLogRecord.fsmTag_mem hT hblock)).bind fun _ _ =>
            confined_unlockBuffer

variable (hT : record.footprint ⊆ T)

include hT

/-! ### Single-page redo -/

lemma confined_polarHeapIdxRedo :
    Confined T (fun r => r.2.Inside T) (ops.polarHeapIdxRedo record tag) :=
  (confinedLogic C (XLogRecord.blockTags_subset hT)).polarHeapIdxRedo
    (fun hheap => confined_polarHeapClearVm (XLogRecord.map_subset hT hheap)) Buffer.inside_none

lemma confined_polarHeap2IdxRedo :
    Confined T (fun r => r.2.Inside T) (ops.polarHeap2IdxRedo record tag) :=
  (confinedLogic C (XLogRecord.blockTags_subset hT)).polarHeap2IdxRedo
    (fun hheap => confined_polarHeapClearVm (XLogRecord.map_subset hT hheap)) Buffer.inside_none

/-! ### Full redo -/

lemma confined_redoHeapPageRelease {space : RedoAction → Option C → Option ℕ} :
    Confined T (fun _ => True) (ops.redoHeapPageRelease record init space f) := by
  have hpage : Confined T (fun r => r.2.Inside record.blockTags)
      (ops.redoHeapPage record init none f) :=
    ((confinedLogic C (List.Subset.refl _)).redoHeapPage Buffer.inside_none).widen
      (XLogRecord.blockTags_subset hT)
  exact hpage.bind fun _ hr => confined_releaseIfValid.bind fun _ _ => confined_noteFreeSpace hT hr

lemma confined_mapHeapRedo {space : RedoAction → Option C → Option ℕ} :
    Confined T (fun _ => True) (ops.mapHeapRedo record flags init space f) := by
  refine confined_polarGetLogTag fun tag0 htag0 => ?_
  exact (confined_clearVmIf (XLogRecord.map_subset hT htag0)).bind fun _ _ =>
    confined_redoHeapPageRelease hT

lemma confined_heapXlogUpdate :
    Confined T (fun _ => True) (ops.heapXlogUpdate record hotUpdate) := by
  refine confined_polarGetLogTag fun tag0 htag0 => ?_
  have hvm : mapThrough (mapTag tag0) ⊆ T := XLogRecord.map_subset hT htag0
  have holdVm : mapThrough (mapTag { tag0 with
      blockNum := ((record.blockTag? 1).map (·.blockNum)).getD tag0.blockNum }) ⊆ T := by
    cases hold : record.blockTag? 1 with
    | none => exact hvm
    | some old => exact XLogRecord.oldMap_subset hT htag0 hold
  have hblocks : record.blockTags ⊆ T := XLogRecord.blockTags_subset hT
  refine (confined_clearVmIf holdVm).bind fun _ _ =>
    (((confinedLogic C (List.Subset.refl _)).redoOldTuple Buffer.inside_none).widen hblocks).bind
      fun x hx => ?_
  have hnew (samePage : Bool) : Confined record.blockTags (fun r => r.2.Inside record.blockTags)
      (ops.readNewPage record samePage x.1 none) := .ite (fun _ => confined_pure hx) fun _ =>
    (confinedLogic C (List.Subset.refl _)).readHeapPage Buffer.inside_none
  refine ((hnew _).widen hblocks).bind fun n hn => (confined_clearVmIf hvm).bind fun _ _ =>
      (confined_whenNeedsRedo fun t ht => hblocks (hn t ht)).bind fun _ _ => ?_
  exact confined_releaseIfValid.bind fun _ _ => confined_releaseIfValid.bind fun _ _ =>
    confined_noteFreeSpace hT hn

lemma confined_heapXlogVisible : Confined T (fun _ => True) (ops.heapXlogVisible record) := by
  have hblocks : record.blockTags ⊆ T := XLogRecord.blockTags_subset hT
  refine confined_polarGetLogTag fun tag1 htag1 =>
    ((confined_polarRedoBlock (List.Subset.refl _)).widen hblocks).bind fun r hr =>
      confined_releaseIfValid.bind fun _ _ => (confined_noteFreeSpace hT hr).bind fun _ _ => ?_
  exact (confined_read hblocks).bind fun r hr =>
    confined_visibleMapPage hr (XLogRecord.map_subset hT htag1)

lemma confined_heapRedo : Confined T (fun _ => True) (ops.heapRedo record) := by
  unfold heapRedo
  cases heapOp record.info with
  | insert | delete | lock => exact confined_mapHeapRedo hT
  | update | hotUpdate => exact confined_heapXlogUpdate hT
  | truncate => exact confined_pure trivial
  | confirm | inplace => exact confined_redoHeapPageRelease hT

lemma confined_heap2Redo : Confined T (fun _ => True) (ops.heap2Redo record) := by
  unfold heap2Redo
  cases heap2Op record.info with
  | clean | freezePage => exact confined_redoHeapPageRelease hT
  | visible => exact confined_heapXlogVisible hT
  | multiInsert | lockUpdated => exact confined_mapHeapRedo hT
  | cleanupInfo | newCid | rewrite => exact confined_pure trivial

end HeapOps

/-! ## B-tree records -/

namespace BtreeOps

variable {T : List BufferTag} {ops : BtreeOps D C} {record : XLogRecord D} {tag : BufferTag}
  {id : ℕ} {c : C} {f : C → C} {cond : Bool} {m' : Redo C Unit}

lemma confined_redoIf (hm : Confined T (fun _ => True) m') :
    Confined T (fun _ => True) (redoIf cond m') :=
  .ite (fun _ => hm) fun _ => confined_pure trivial

variable (hT : record.blockTags ⊆ T)

include hT

/-! ### Single-page redo -/

lemma confined_polarBtreeRedo :
    Confined T (fun r => r.2.Inside T) (ops.polarBtreeRedo record tag) :=
  (confinedLogic C hT).polarBtreeRedo Buffer.inside_none

/-! ### Full redo -/

lemma confined_redoRead : Confined T (fun _ => True) (ops.redoRead record id f) :=
  confined_redoBlock hT

lemma confined_redoMake : Confined T (fun _ => True) (ops.redoMake record id c) :=
  confined_redoInitBlock hT

lemma confined_btreeXlogInsert {isleaf ismeta posting : Bool} :
    Confined T (fun _ => True) (ops.btreeXlogInsert record isleaf ismeta posting) :=
  (confined_redoIf (confined_redoRead hT)).bind fun _ _ => (confined_redoRead hT).bind fun _ _ =>
    confined_redoIf (confined_redoMake hT)

lemma confined_btreeXlogSplit {newitemonleft : Bool} :
    Confined T (fun _ => True) (ops.btreeXlogSplit record newitemonleft) := by
  refine confined_polarGetLogTag fun _ _ => confined_polarGetLogTag fun _ _ =>
    (confined_redoIf (confined_redoRead hT)).bind fun _ _ => ?_
  refine (confined_xlogInitBufferForRedo hT).bind fun rbuf hrbuf =>
    (confined_writePage hrbuf).bind fun _ _ => (confined_polarRedoBlock hT).bind fun lbuf _ => ?_
  exact confined_releaseIfValid.bind fun _ _ => confined_releaseIfValid.bind fun _ _ =>
    confined_redoIf (confined_redoRead hT)

lemma confined_btreeXlogMarkPageHalfdead :
    Confined T (fun _ => True) (ops.btreeXlogMarkPageHalfdead record) :=
  (confined_redoRead hT).bind fun _ _ => confined_redoMake hT

lemma confined_btreeXlogUnlinkPage {ismeta : Bool} :
    Confined T (fun _ => True) (ops.btreeXlogUnlinkPage record ismeta) :=
  (confined_redoRead hT).bind fun _ _ => (confined_redoIf (confined_redoRead hT)).bind fun _ _ =>
    (confined_redoMake hT).bind fun _ _ => (confined_redoIf (confined_redoMake hT)).bind fun _ _ =>
      confined_redoIf (confined_redoMake hT)

lemma confined_btreeXlogNewroot : Confined T (fun _ => True) (ops.btreeXlogNewroot record) := by
  refine (confined_xlogInitBufferForRedo hT).bind fun buffer hb =>
    (confined_writePage hb).bind fun _ _ => (confined_redoIf (confined_redoRead hT)).bind fun _ _ =>
      ?_
  exact (confined_writePage hb).bind fun _ _ => confined_releaseIfValid.bind fun _ _ =>
    confined_redoMake hT

lemma confined_btreeRedo : Confined T (fun _ => True) (ops.btreeRedo record) := by
  unfold btreeRedo
  cases btreeOp record.info with
  | none => exact confined_panic
  | some op =>
      cases op with
      | insertLeaf | insertUpper | insertMeta | insertPost => exact confined_btreeXlogInsert hT
      | splitL | splitR => exact confined_btreeXlogSplit hT
      | dedup | delete | vacuum => exact confined_redoRead hT
      | unlinkPage | unlinkPageMeta => exact confined_btreeXlogUnlinkPage hT
      | newroot => exact confined_btreeXlogNewroot hT
      | markPageHalfdead => exact confined_btreeXlogMarkPageHalfdead hT
      | reusePage => exact confined_pure trivial
      | metaCleanup => exact confined_redoMake hT

end BtreeOps

end GroundDB
