import GroundDB.Redo.HeldLocks

/-!
# Pins on a replica

A secondary compute node replays a record on those of its pages that are in the buffer pool.  For
every tag of the record the replay loop of `StartupXLOG` looks the page up with
`FindPageInBuffer`, which pins it.  The loop then overwrites the variable that holds the buffer: the
call of `UnlockReleaseBuffer` that stood there is commented out.  The single-page routine pins and
locks the page again, and that pin and that lock are given back.

So one pin stays behind for every tag that is found, and where the page was not valid the I/O that
`FindPageInBuffer` announced is never done or ended.  Pins are not touched exactly for the records
none of whose pages is in the pool (`replay_neutral_iff`).

Buffers are named by the page they hold.  The other processes leave the pool alone while a record is
replayed; a read one of them has in progress ends when it is waited for.
-/

namespace GroundDB

variable {C D α : Type}

/-! ## Single-page redo -/

/-- The single-page routine of a resource manager whose work on pages is not modelled.  Like the
others it gives up no lock but those it took, and returns a buffer that it locked. -/
structure PageRoutine (D C : Type) where
  redo : XLogRecord D → BufferTag → Redo C (RedoAction × Buffer)
  keeps : ∀ record tag, Keeps none Prod.snd (redo record tag)

/-- The single-page routines. -/
structure PageRoutines (D C : Type) extends RmgrOps D C where
  xlog : PageRoutine D C
  hash : PageRoutine D C
  gin : PageRoutine D C
  gist : PageRoutine D C
  seq : PageRoutine D C
  spgist : PageRoutine D C
  brin : PageRoutine D C
  generic : PageRoutine D C

namespace PageRoutines

variable (ops : PageRoutines D C) (record : XLogRecord D) (tag : BufferTag)

/-- The `switch` of `XlogRedoSinglePage`. -/
def idxRedo : Redo C (RedoAction × Buffer) :=
  match record.rmid with
  | .xlog => ops.xlog.redo record tag
  | .heap2 => ops.heap.polarHeap2IdxRedo record tag
  | .heap => ops.heap.polarHeapIdxRedo record tag
  | .btree => ops.btree.polarBtreeRedo record tag
  | .hash => ops.hash.redo record tag
  | .gin => ops.gin.redo record tag
  | .gist => ops.gist.redo record tag
  | .seq => ops.seq.redo record tag
  | .spgist => ops.spgist.redo record tag
  | .brin => ops.brin.redo record tag
  | .generic => ops.generic.redo record tag
  | _ => pure (.notFound, none)

/-- `XlogRedoSinglePage`: whether redo was needed, and `*buffer`. -/
def xlogRedoSinglePage : Redo C (Bool × Buffer) := do
  let r ← ops.idxRedo record tag
  return (r.1 = .needsRedo, r.2)

lemma keeps_xlogRedoSinglePage : Keeps none Prod.snd (ops.xlogRedoSinglePage record tag) := by
  suffices hswitch : Keeps none Prod.snd (ops.idxRedo record tag) from
    hswitch.bind fun _ => keeps_pure rfl
  unfold idxRedo
  cases record.rmid with
  | xlog => exact ops.xlog.keeps record tag
  | heap2 => exact HeapOps.keeps_polarHeap2IdxRedo
  | heap => exact HeapOps.keeps_polarHeapIdxRedo
  | btree => exact BtreeOps.keeps_polarBtreeRedo
  | hash => exact ops.hash.keeps record tag
  | gin => exact ops.gin.keeps record tag
  | gist => exact ops.gist.keeps record tag
  | seq => exact ops.seq.keeps record tag
  | spgist => exact ops.spgist.keeps record tag
  | brin => exact ops.brin.keeps record tag
  | generic => exact ops.generic.keeps record tag
  | xact | smgr | clog | dbase | tblspc | multixact | relmap | standby => exact keeps_pure rfl
  | commitTs | replorigin | logicalmsg => exact keeps_pure rfl

end PageRoutines

/-! ## The buffer pool -/

/-- What the replay loop reads of a buffer descriptor: `BM_VALID`, `BM_IO_IN_PROGRESS`, and the
number of other processes that have the buffer pinned. -/
structure BufferDesc where
  valid : Bool
  ioInProgress : Bool
  otherPins : ℕ
deriving DecidableEq, Repr

/-- The ways in which the loop does not return: those of redo, and `elog(ERROR)`. -/
inductive ReplayFailure
  | redo (e : RedoFailure)
  | error
deriving DecidableEq, Repr

/-- The state of the replay process: pages and content locks, the buffer of each page that is in the
pool, and how often the process itself has pinned it (`PrivateRefCount`). -/
structure ReplayState (C : Type) where
  redo : RedoState C
  table : BufferTag → Option BufferDesc
  privateRefCount : BufferTag → ℕ

namespace ReplayState

variable (s : ReplayState C) (t : BufferTag)

/-- `BUF_STATE_GET_REFCOUNT`: every process that has pinned the buffer counts once. -/
def refcount : ℕ :=
  match s.table t with
  | none => 0
  | some d => d.otherPins + if s.privateRefCount t = 0 then 0 else 1

/-- `BM_IO_IN_PROGRESS` is set for the buffer of the page. -/
def ioInProgress : Bool := ((s.table t).map (·.ioInProgress)).getD false

/-- `PinBuffer`. -/
def pinBuffer : ReplayState C :=
  { s with privateRefCount := Function.update s.privateRefCount t (s.privateRefCount t + 1) }

/-- The result of `PinBuffer`: a buffer that the process had pinned before is taken to be valid. -/
def pinValid (d : BufferDesc) : Bool := s.privateRefCount t ≠ 0 || d.valid

/-- Store a descriptor. -/
def setDesc (d : BufferDesc) : ReplayState C :=
  { s with table := Function.update s.table t (some d) }

/-- A routine has run.  It pins a buffer when it locks it and gives both back together, so its pins
are the locks it has left; a page it has locked is in the pool. -/
def afterRedo (redo : RedoState C) : ReplayState C where
  redo := redo
  table t := if t ∈ redo.locked then some ((s.table t).getD ⟨true, false, 0⟩) else s.table t
  privateRefCount t := s.privateRefCount t + redo.locked.count t - s.redo.locked.count t

end ReplayState

/-- The descriptor after a read of another process has ended, successfully or not. -/
def BufferDesc.waitIO (readOk : Bool) (d : BufferDesc) : BufferDesc :=
  if d.ioInProgress then { d with valid := readOk, ioInProgress := false } else d

/-- `StartBufferIO` for input: `none` if the page was read meanwhile by another process, otherwise
the I/O is announced. -/
def startBufferIO (readOk : Bool) (d : BufferDesc) : Option BufferDesc :=
  if (d.waitIO readOk).valid then none else some { d.waitIO readOk with ioInProgress := true }

/-- `FindPageInBuffer`.  It returns with the announced I/O where the page has to be read again. -/
def findPageInBuffer (readOk : BufferTag → Bool) (t : BufferTag) (s : ReplayState C) :
    Buffer × ReplayState C :=
  match s.table t with
  | none => (none, s)
  | some d =>
    if s.pinValid t d then (some t, s.pinBuffer t)
    else
      match startBufferIO (readOk t) d with
      | some started => (none, (s.pinBuffer t).setDesc t started)
      | none => (some t, (s.pinBuffer t).setDesc t (d.waitIO (readOk t)))

/-- Run a redo routine. -/
def runRedo (m : Redo C α) (s : ReplayState C) : Except ReplayFailure (α × ReplayState C) :=
  match m s.redo with
  | .error e => .error (.redo e)
  | .ok (a, redo) => .ok (a, s.afterRedo redo)

/-- `UnlockReleaseBuffer`: an invalid buffer, or one that is not locked, is an error. -/
def unlockReleaseBuffer : Buffer → ReplayState C → Except ReplayFailure (ReplayState C)
  | none, _ => .error .error
  | some t, s =>
    if t ∈ s.redo.locked then
      .ok { s with
        redo := { s.redo with locked := s.redo.locked.erase t }
        privateRefCount := Function.update s.privateRefCount t (s.privateRefCount t - 1) }
    else .error .error

/-! ## The loop -/

/-- The tags the loop reads.  An element without a stored tag is what the `memory` has there, and
`unset` is the value of the variable `tagNum` if the list routine does not set it. -/
def TagList.read (memory : ℕ → BufferTag) (unset : ℕ) (list : TagList) : List BufferTag :=
  (List.range (list.tagNum.getD unset)).map fun k => (list.array.elements k).getD (memory k)

/-- The page tags of a record; the loop is entered only if `GetXlogBuffTagList` returns `true`. -/
def XLogRecord.listedTags (memory : ℕ → BufferTag) (unset : ℕ) (record : XLogRecord D) :
    List BufferTag :=
  match getXlogBuffTagList record with
  | .handled list => list.read memory unset
  | .skipped | .panic => []

section Loop

variable (ops : PageRoutines D C) (readOk : BufferTag → Bool) (record : XLogRecord D)

/-- One round of the loop.  The buffer that was found is forgotten. -/
def replayTag (tag : BufferTag) (s : ReplayState C) : Except ReplayFailure (ReplayState C) :=
  match findPageInBuffer readOk tag s with
  | (none, s) => .ok s
  | (some _, s) => do
    let r ← runRedo (ops.xlogRedoSinglePage record tag) s
    unlockReleaseBuffer r.1.2 r.2

/-- The loop. -/
def replayTags : List BufferTag → ReplayState C → Except ReplayFailure (ReplayState C)
  | [], s => .ok s
  | tag :: tags, s => do
    let s ← replayTag ops readOk record tag s
    replayTags tags s

end Loop

/-- Replay has left the pins, the I/O flags and the locks as they were. -/
structure PinNeutral (s s' : ReplayState C) : Prop where
  refcount : ∀ t, s'.refcount t = s.refcount t
  privateRefCount : ∀ t, s'.privateRefCount t = s.privateRefCount t
  ioInProgress : ∀ t, s'.ioInProgress t = s.ioInProgress t
  unlocked : ∀ t ∈ s'.redo.locked, t ∈ s.redo.locked

lemma PinNeutral.refl (s : ReplayState C) : PinNeutral s s :=
  ⟨fun _ => rfl, fun _ => rfl, fun _ => rfl, fun _ h => h⟩

/-! ## What a round does to the pins -/

section Pins

variable {ops : PageRoutines D C} {readOk : BufferTag → Bool} {record : XLogRecord D}
  {tag t : BufferTag} {tags : List BufferTag} {s s' : ReplayState C}

lemma pinBuffer_privateRefCount :
    (s.pinBuffer tag).privateRefCount t = s.privateRefCount t + if t = tag then 1 else 0 := by
  by_cases ht : t = tag
  · subst ht
    simp [ReplayState.pinBuffer]
  · simp [ReplayState.pinBuffer, ht]

/-- A page that is in the pool is pinned once, whatever `FindPageInBuffer` returns. -/
lemma findPageInBuffer_pins (h : s.table tag ≠ none) :
    (findPageInBuffer readOk tag s).2.privateRefCount t =
      s.privateRefCount t + if t = tag then 1 else 0 := by
  unfold findPageInBuffer
  split
  · exact absurd ‹_› h
  · split
    · exact pinBuffer_privateRefCount
    · split <;> exact pinBuffer_privateRefCount

lemma findPageInBuffer_absent (h : s.table tag = none) :
    findPageInBuffer readOk tag s = (none, s) := by
  simp [findPageInBuffer, h]

/-- **Redo and the release of its buffer take no pin away.** -/
lemma redo_release_pins {r : (Bool × Buffer) × ReplayState C}
    (hredo : runRedo (ops.xlogRedoSinglePage record tag) s = .ok r)
    (hrelease : unlockReleaseBuffer r.1.2 r.2 = .ok s') (t : BufferTag) :
    s.privateRefCount t ≤ s'.privateRefCount t := by
  unfold runRedo at hredo
  split at hredo
  · cases hredo
  rename_i a redo hrun
  cases hredo
  have hkeeps := ops.keeps_xlogRedoSinglePage record tag s.redo.locked s.redo a redo
    (List.Subperm.refl _) hrun
  have hcount := hkeeps.count_le t
  obtain ⟨action, buffer⟩ := a
  cases buffer with
  | none => cases hrelease
  | some b =>
      simp only [unlockReleaseBuffer] at hrelease
      split at hrelease
      · cases hrelease
        by_cases ht : t = b
        · subst ht
          simp [ReplayState.afterRedo] at hcount ⊢
          omega
        · simp [ReplayState.afterRedo, ht, Ne.symm ht] at hcount ⊢
          omega
      · cases hrelease

lemma replayTag_absent (h : s.table tag = none) : replayTag ops readOk record tag s = .ok s := by
  simp [replayTag, findPageInBuffer_absent h]

lemma replayTag_cases (h : replayTag ops readOk record tag s = .ok s') :
    s' = (findPageInBuffer readOk tag s).2 ∨
      ∃ r, runRedo (ops.xlogRedoSinglePage record tag) (findPageInBuffer readOk tag s).2 = .ok r ∧
        unlockReleaseBuffer r.1.2 r.2 = .ok s' := by
  unfold replayTag at h
  split at h
  · rename_i s₁ hfind
    cases h
    exact .inl (by rw [hfind])
  · rename_i b s₁ hfind
    rw [hfind]
    cases hredo : runRedo (ops.xlogRedoSinglePage record tag) s₁ with
    | error e =>
        rw [hredo] at h
        cases h
    | ok r =>
        rw [hredo] at h
        exact .inr ⟨r, rfl, h⟩

lemma replayTag_pins (h : replayTag ops readOk record tag s = .ok s') (t : BufferTag) :
    (s.privateRefCount t + if t = tag ∧ s.table tag ≠ none then 1 else 0) ≤
      s'.privateRefCount t := by
  by_cases hin : s.table tag = none
  · rw [replayTag_absent hin] at h
    cases h
    simp [hin]
  have hpins : (findPageInBuffer readOk tag s).2.privateRefCount t = _ :=
    findPageInBuffer_pins hin
  simp only [hin, ne_eq, not_false_eq_true, and_true]
  rw [← hpins]
  rcases replayTag_cases h with rfl | ⟨r, hredo, hrelease⟩
  · exact le_rfl
  · exact redo_release_pins hredo hrelease t

lemma replayTags_cons_inv (h : replayTags ops readOk record (tag :: tags) s = .ok s') :
    ∃ s₁, replayTag ops readOk record tag s = .ok s₁ ∧
      replayTags ops readOk record tags s₁ = .ok s' := by
  rw [replayTags] at h
  cases hstep : replayTag ops readOk record tag s with
  | error e =>
      rw [hstep] at h
      cases h
  | ok s₁ =>
      rw [hstep] at h
      exact ⟨s₁, rfl, h⟩

lemma replayTags_pins_le (h : replayTags ops readOk record tags s = .ok s') (t : BufferTag) :
    s.privateRefCount t ≤ s'.privateRefCount t := by
  induction tags generalizing s with
  | nil =>
      cases h
      exact le_rfl
  | cons tag tags ih =>
      obtain ⟨s₁, hstep, hrest⟩ := replayTags_cons_inv h
      exact (Nat.le_add_right _ _).trans ((replayTag_pins hstep t).trans (ih hrest))

lemma replayTags_absent (h : ∀ tag ∈ tags, s.table tag = none) :
    replayTags ops readOk record tags s = .ok s := by
  induction tags with
  | nil => rfl
  | cons tag tags ih =>
      rw [replayTags, replayTag_absent (h tag List.mem_cons_self)]
      exact ih fun t ht => h t (List.mem_cons_of_mem _ ht)

/-! ## The pool keeps its pages -/

lemma findPageInBuffer_table (h : s.table t ≠ none) :
    (findPageInBuffer readOk tag s).2.table t ≠ none := by
  have hset : ∀ d, ((s.pinBuffer tag).setDesc tag d).table t ≠ none := by
    intro d
    by_cases ht : t = tag
    · subst ht
      simp [ReplayState.setDesc]
    · simpa [ReplayState.setDesc, ReplayState.pinBuffer, ht] using h
  unfold findPageInBuffer
  split
  · exact h
  · split
    · exact h
    · split <;> exact hset _

lemma redo_release_table {m : Redo C (Bool × Buffer)} {r : (Bool × Buffer) × ReplayState C}
    (hredo : runRedo m s = .ok r) (hrelease : unlockReleaseBuffer r.1.2 r.2 = .ok s')
    (h : s.table t ≠ none) : s'.table t ≠ none := by
  have hafter : ∀ redo, (s.afterRedo redo).table t ≠ none := by
    intro redo
    simp only [ReplayState.afterRedo]
    split
    · simp
    · exact h
  unfold runRedo at hredo
  split at hredo
  · cases hredo
  cases hredo
  unfold unlockReleaseBuffer at hrelease
  split at hrelease
  · cases hrelease
  · split at hrelease <;> cases hrelease
    exact hafter _

lemma replayTag_table (h : replayTag ops readOk record tag s = .ok s') (hin : s.table t ≠ none) :
    s'.table t ≠ none := by
  rcases replayTag_cases h with rfl | ⟨r, hredo, hrelease⟩
  · exact findPageInBuffer_table hin
  · exact redo_release_table hredo hrelease (findPageInBuffer_table hin)

/-- **Every page of the record that is in the pool keeps a pin.** -/
lemma replayTags_pins_lt (h : replayTags ops readOk record tags s = .ok s')
    (hmem : tag ∈ tags) (hin : s.table tag ≠ none) :
    s.privateRefCount tag < s'.privateRefCount tag := by
  induction tags generalizing s with
  | nil => simp at hmem
  | cons tag' tags ih =>
      obtain ⟨s₁, hstep, hrest⟩ := replayTags_cons_inv h
      have hpin := replayTag_pins hstep tag
      rcases List.mem_cons.mp hmem with rfl | hmem
      · rw [if_pos ⟨rfl, hin⟩] at hpin
        exact lt_of_lt_of_le hpin (replayTags_pins_le hrest tag)
      · exact lt_of_le_of_lt ((Nat.le_add_right _ _).trans hpin)
          (ih hrest hmem (replayTag_table hstep hin))

end Pins

/-- **Replay is pin-neutral exactly on the records none of whose pages is in the pool**, for every
record, every content of the memory the list routine leaves unset and every state of the pool. -/
theorem replay_neutral_iff (ops : PageRoutines D C) (readOk : BufferTag → Bool)
    (memory : ℕ → BufferTag) (unset : ℕ) (record : XLogRecord D) (s : ReplayState C) :
    (∃ s', replayTags ops readOk record (record.listedTags memory unset) s = .ok s' ∧
        PinNeutral s s') ↔
      ∀ tag ∈ record.listedTags memory unset, s.table tag = none := by
  constructor
  · rintro ⟨s', hrun, hneutral⟩ tag hmem
    by_contra hin
    have hpin := replayTags_pins_lt hrun hmem hin
    exact absurd (hneutral.privateRefCount tag) hpin.ne'
  · intro habsent
    exact ⟨s, replayTags_absent habsent, PinNeutral.refl s⟩

/-- A page of a table. -/
def blockSeven : BufferTag := ⟨1663, 5, 16384, 0, 7⟩

/-- A heap insert into it. -/
def insertSeven : XLogRecord Unit where
  rmid := .heap
  xlInfo := 0x00
  flags := 0
  blocks := [some ⟨blockSeven, false, false⟩]
  endRecPtr := 1000
  data := ()

/-- The sample operations; no other resource manager does anything. -/
def sampleRoutines : PageRoutines Unit (UInt32 × UInt32) where
  toRmgrOps := sampleRmgr
  xlog := ⟨fun _ _ => pure (.notFound, none), fun _ _ => keeps_pure rfl⟩
  hash := ⟨fun _ _ => pure (.notFound, none), fun _ _ => keeps_pure rfl⟩
  gin := ⟨fun _ _ => pure (.notFound, none), fun _ _ => keeps_pure rfl⟩
  gist := ⟨fun _ _ => pure (.notFound, none), fun _ _ => keeps_pure rfl⟩
  seq := ⟨fun _ _ => pure (.notFound, none), fun _ _ => keeps_pure rfl⟩
  spgist := ⟨fun _ _ => pure (.notFound, none), fun _ _ => keeps_pure rfl⟩
  brin := ⟨fun _ _ => pure (.notFound, none), fun _ _ => keeps_pure rfl⟩
  generic := ⟨fun _ _ => pure (.notFound, none), fun _ _ => keeps_pure rfl⟩

/-- Block 7 is in the pool, and nobody has it pinned. -/
def poolWithSeven (valid : Bool) : ReplayState (UInt32 × UInt32) where
  redo := ⟨fun _ => ⟨500, some (0, 0)⟩, []⟩
  table t := if t = blockSeven then some ⟨valid, false, 0⟩ else none
  privateRefCount _ := 0

/-- **A replayed page stays pinned, and a page that is not valid is left with its I/O in
progress.** -/
theorem replay_leaves_pin :
    (∃ s', replayTags sampleRoutines (fun _ => false) insertSeven
        (insertSeven.listedTags (fun _ => blockSeven) 0) (poolWithSeven true) = .ok s' ∧
      s'.redo.locked = [] ∧
      (poolWithSeven true).refcount blockSeven = 0 ∧ s'.refcount blockSeven = 1 ∧
      ¬ PinNeutral (poolWithSeven true) s') ∧
    ∃ s', replayTags sampleRoutines (fun _ => false) insertSeven
        (insertSeven.listedTags (fun _ => blockSeven) 0) (poolWithSeven false) = .ok s' ∧
      s'.refcount blockSeven = 1 ∧
      (poolWithSeven false).ioInProgress blockSeven = false ∧ s'.ioInProgress blockSeven = true ∧
      ¬ PinNeutral (poolWithSeven false) s' := by
  refine ⟨⟨_, rfl, by decide, by decide, by decide, fun h => ?_⟩,
    ⟨_, rfl, by decide, by decide, by decide, fun h => ?_⟩⟩
  · exact absurd (h.refcount blockSeven) (by decide)
  · exact absurd (h.refcount blockSeven) (by decide)

end GroundDB
