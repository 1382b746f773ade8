import GroundDB.Redo.Btree
import GroundDB.Redo.SinglePage

/-!
# Single-page b-tree redo is the projection of full redo

A b-tree record touches the pages of its blocks, each once: a block is read and changed, or made
from scratch (`readTouch`, `makeTouch`).  The list of a routine follows its text, and the two sides
of a routine are taken through it part by part: full redo makes the touches in turn (`redo_seq`),
and a single-page redo makes the first that is for its page (`projects_returnIfBlock`).  No page is
in two blocks, so that is the only one.

The new links of a page are computed from the record alone on both sides, and the LSN is set in the
same places: the two replays leave equal pages, LSN included.
-/

namespace GroundDB

open Touch

variable {C D : Type}

/-! ## Well-formed records -/

/-- The record has a block `id`, and redo initialises its page if `init`. -/
def XLogRecord.HasBlock (record : XLogRecord D) (id : ℕ) (init : Bool) : Prop :=
  ∃ blk, record.block? id = some blk ∧ blk.willInit = init

/-- No page is registered under two block ids (an assertion of `XLogRegisterBuffer`). -/
def XLogRecord.DistinctBlocks (record : XLogRecord D) : Prop :=
  ∀ i j t, record.blockTag? i = some t → record.blockTag? j = some t → i = j

lemma XLogRecord.DistinctBlocks.ne {record : XLogRecord D} (h : record.DistinctBlocks) {i : ℕ}
    {t : BufferTag} (hi : record.blockTag? i = some t) (j : ℕ) (hij : i ≠ j) :
    record.blockTag? j ≠ some t := fun hj => hij (h i j t hi hj)

section WellFormed

variable (ops : BtreeOps D C) (record : XLogRecord D)

/-- The blocks of a split: the left page, the new right page, the page to its right unless the split
page was the rightmost, and the child whose split this one completes, above the leaf level. -/
structure SplitForm : Prop where
  left : record.HasBlock 0 false
  right : record.HasBlock 1 true
  next : record.block? 2 = none ∨ record.HasBlock 2 false ∧ BtreeOps.rnext record ≠ 0
  child : if ops.level record.data = 0 then record.block? 3 = none else record.HasBlock 3 false

/-- The blocks of an unlink: the page, its right sibling, its left sibling if there is one, and the
leaf page if the page is above it. -/
structure UnlinkForm : Prop where
  target : record.HasBlock 0 true
  left : if ops.leftsib record.data = 0 then record.block? 1 = none else record.HasBlock 1 false
  right : record.HasBlock 2 false
  leaf : record.block? 3 = none ∨ record.HasBlock 3 true

/-- The blocks of a new root: the page, the metapage, and the child whose split it completes, above
the leaf level. -/
structure NewrootForm : Prop where
  root : record.HasBlock 0 true
  child : if ops.level record.data = 0 then record.block? 1 = none else record.HasBlock 1 false
  metapage : record.HasBlock 2 true

variable {ops record}

lemma SplitForm.child_block (h : SplitForm ops record) (hlevel : ops.level record.data ≠ 0) :
    record.HasBlock 3 false := by
  have hchild := h.child
  rwa [if_neg hlevel] at hchild

lemma SplitForm.no_child (h : SplitForm ops record) (hlevel : ops.level record.data = 0) :
    record.block? 3 = none := by
  have hchild := h.child
  rwa [if_pos hlevel] at hchild

lemma SplitForm.next_block (h : SplitForm ops record) (hnext : BtreeOps.rnext record ≠ 0) :
    record.HasBlock 2 false := by
  refine (h.next.resolve_left fun hnone => hnext ?_).1
  simp [BtreeOps.rnext, XLogRecord.blockTag?, hnone]

lemma UnlinkForm.left_block (h : UnlinkForm ops record) (hleft : ops.leftsib record.data ≠ 0) :
    record.HasBlock 1 false := by
  have hblock := h.left
  rwa [if_neg hleft] at hblock

lemma UnlinkForm.no_left (h : UnlinkForm ops record) (hleft : ops.leftsib record.data = 0) :
    record.block? 1 = none := by
  have hblock := h.left
  rwa [if_pos hleft] at hblock

lemma UnlinkForm.leaf_block (h : UnlinkForm ops record) (hleaf : record.hasBlockRef 3 = true) :
    record.HasBlock 3 true :=
  h.leaf.resolve_left (Option.isSome_iff_ne_none.mp hleaf)

lemma NewrootForm.child_block (h : NewrootForm ops record) (hlevel : 0 < ops.level record.data) :
    record.HasBlock 1 false := by
  have hchild := h.child
  rwa [if_neg fun hzero => absurd (hzero ▸ hlevel) (by decide)] at hchild

lemma NewrootForm.no_child (h : NewrootForm ops record) (hlevel : ¬ 0 < ops.level record.data) :
    record.block? 1 = none := by
  have hzero : ops.level record.data = 0 := by
    simpa [UInt32.lt_iff_toNat_lt, ← UInt32.toNat_inj] using hlevel
  have hchild := h.child
  rwa [if_pos hzero] at hchild

variable (ops record)

/-- A b-tree record with the blocks its writer registers. -/
def BtreeWellFormed : Prop :=
  record.DistinctBlocks ∧
  match btreeOp record.info with
  | none => False
  | some .insertLeaf | some .insertPost | some .dedup | some .vacuum | some .delete =>
    record.HasBlock 0 false
  | some .insertUpper => record.HasBlock 0 false ∧ record.HasBlock 1 false
  | some .insertMeta => record.HasBlock 0 false ∧ record.HasBlock 1 false ∧ record.HasBlock 2 true
  | some .splitL | some .splitR => SplitForm ops record
  | some .unlinkPage => UnlinkForm ops record
  | some .unlinkPageMeta => UnlinkForm ops record ∧ record.HasBlock 4 true
  | some .newroot => NewrootForm ops record
  | some .markPageHalfdead => record.HasBlock 0 true ∧ record.HasBlock 1 false
  | some .reusePage => True
  | some .metaCleanup => record.HasBlock 0 true

end WellFormed

namespace BtreeOps

/-! ## Touches of a record -/

section Touches

variable (ops : BtreeOps D C) (record : XLogRecord D)

/-- A block that is read and changed. -/
def readTouch (id : ℕ) (f : C → C) : Touches C :=
  match record.block? id with
  | none => []
  | some blk =>
    [(blk.tag, blockEffect ops.image record id blk .normal (RedoPage.redo f record.endRecPtr))]

/-- A block that is made from scratch. -/
def makeTouch (id : ℕ) (c : C) : Touches C :=
  match record.block? id with
  | none => []
  | some blk => [(blk.tag, fun _ => madePage record c)]

/-- Touches under a condition. -/
def touchIf (cond : Bool) (l : Touches C) : Touches C := if cond then l else []

/-- The pages of an insert. -/
def insertTouches (isleaf ismeta posting : Bool) : Touches C :=
  touchIf (!isleaf) (ops.readTouch record 1 ops.clearIncompleteSplit) ++
  (ops.readTouch record 0 (ops.insert posting record) ++
  touchIf ismeta (makeTouch record 2 (ops.metaPage record 2)))

/-- The number of the page in a block. -/
def blkno (id : ℕ) : UInt32 := ((record.blockTag? id).map (·.blockNum)).getD 0

/-- The pages of a split. -/
def splitTouches (newitemonleft : Bool) : Touches C :=
  touchIf (ops.level record.data ≠ 0) (ops.readTouch record 3 ops.clearIncompleteSplit) ++
  (makeTouch record 1 (ops.restoreRight record (blkno record 0) (rnext record)) ++
  (ops.readTouch record 0 (ops.reconstructLeft newitemonleft record (blkno record 1)) ++
  touchIf (rnext record ≠ 0) (ops.readTouch record 2 (ops.setPrev (blkno record 1)))))

/-- The pages of a record that marks a page half-dead. -/
def halfdeadTouches : Touches C :=
  ops.readTouch record 1 (ops.removeDownlink record) ++
  makeTouch record 0 (ops.halfdeadLeaf record)

/-- The pages of an unlink. -/
def unlinkTouches (ismeta : Bool) : Touches C :=
  ops.readTouch record 2 (ops.setPrev (ops.leftsib record.data)) ++
  (touchIf (ops.leftsib record.data ≠ 0)
    (ops.readTouch record 1 (ops.setNext (ops.rightsib record.data))) ++
  (makeTouch record 0
    (ops.deletedPage record (ops.leftsib record.data) (ops.rightsib record.data)) ++
  (touchIf (record.hasBlockRef 3) (makeTouch record 3 (ops.halfdeadBranch record)) ++
  touchIf ismeta (makeTouch record 4 (ops.metaPage record 4)))))

/-- The pages of a new root. -/
def newrootTouches : Touches C :=
  makeTouch record 0 (ops.rootPage record) ++
  (touchIf (0 < ops.level record.data) (ops.readTouch record 1 ops.clearIncompleteSplit) ++
  makeTouch record 2 (ops.metaPage record 2))

/-- The pages a b-tree record touches. -/
def btreeTouches : Touches C :=
  match btreeOp record.info with
  | none | some .reusePage => []
  | some .insertLeaf => ops.insertTouches record true false false
  | some .insertUpper => ops.insertTouches record false false false
  | some .insertMeta => ops.insertTouches record false true false
  | some .splitL => ops.splitTouches record true
  | some .splitR => ops.splitTouches record false
  | some .insertPost => ops.insertTouches record true false true
  | some .dedup => ops.readTouch record 0 (ops.dedup record)
  | some .delete => ops.readTouch record 0 (ops.delete record)
  | some .unlinkPage => ops.unlinkTouches record false
  | some .unlinkPageMeta => ops.unlinkTouches record true
  | some .newroot => ops.newrootTouches record
  | some .markPageHalfdead => ops.halfdeadTouches record
  | some .vacuum => ops.readTouch record 0 (ops.vacuum record)
  | some .metaCleanup => makeTouch record 0 (ops.metaPage record 0)

end Touches

variable {ops : BtreeOps D C} {record : XLogRecord D} {s : RedoState C} {id : ℕ} {f : C → C} {c : C}
  {cond : Bool} {l l' : Touches C} {tag : BufferTag}

@[simp] lemma touched_readTouch :
    touched (ops.readTouch record id f) = (record.blockTag? id).toList := by
  unfold readTouch XLogRecord.blockTag?
  cases record.block? id <;> rfl

@[simp] lemma touched_makeTouch :
    touched (makeTouch record id c) = (record.blockTag? id).toList := by
  unfold makeTouch XLogRecord.blockTag?
  cases record.block? id <;> rfl

@[simp] lemma touched_touchIf : touched (touchIf cond l) = if cond then touched l else [] := by
  cases cond <;> rfl

/-! ## Full redo -/

lemma redo_seq {m k : Redo C Unit} (hm : m s = .ok ((), s.touches l))
    (hk : k (s.touches l) = .ok ((), (s.touches l).touches l')) :
    (m >>= fun _ => k) s = .ok ((), s.touches (l ++ l')) := by
  rw [redo_bind_ok hm, hk, touches_append]

lemma redoIf_run {m : Redo C Unit} (hm : cond = true → m s = .ok ((), s.touches l)) :
    redoIf cond m s = .ok ((), s.touches (touchIf cond l)) := by
  cases cond with
  | false => rfl
  | true => exact hm rfl

lemma redoRead_run (h : record.HasBlock id false)
    (hfree : ∀ t, record.blockTag? id = some t → t ∉ s.locked) :
    ops.redoRead record id f s = .ok ((), s.touches (ops.readTouch record id f)) := by
  obtain ⟨blk, hblk, hinit⟩ := h
  have htag := XLogRecord.blockTag?_of_block? hblk
  rw [redoRead, redoBlock_run hblk (by simpa using hinit) (hfree _ htag)]
  simp [readTouch, hblk, touches_singleton]

lemma redoMake_run (h : record.HasBlock id true)
    (hfree : ∀ t, record.blockTag? id = some t → t ∉ s.locked) :
    ops.redoMake record id c s = .ok ((), s.touches (makeTouch record id c)) := by
  obtain ⟨blk, hblk, hinit⟩ := h
  have htag := XLogRecord.blockTag?_of_block? hblk
  rw [redoMake, redoInitBlock_run hblk hinit (hfree _ htag)]
  simp [makeTouch, hblk, touches_singleton]

lemma btreeXlogInsert_run {isleaf ismeta posting : Bool} (h0 : record.HasBlock 0 false)
    (h1 : isleaf = false → record.HasBlock 1 false) (h2 : ismeta = true → record.HasBlock 2 true)
    (hlocked : s.locked = []) :
    ops.btreeXlogInsert record isleaf ismeta posting s =
      .ok ((), s.touches (ops.insertTouches record isleaf ismeta posting)) := by
  refine redo_seq (redoIf_run fun h => redoRead_run (h1 (by simpa using h)) (by simp [hlocked])) ?_
  refine redo_seq (redoRead_run h0 (by simp [hlocked])) ?_
  exact redoIf_run fun h => redoMake_run (h2 h) (by simp [hlocked])

lemma btreeXlogMarkPageHalfdead_run (h0 : record.HasBlock 0 true) (h1 : record.HasBlock 1 false)
    (hlocked : s.locked = []) :
    ops.btreeXlogMarkPageHalfdead record s = .ok ((), s.touches (ops.halfdeadTouches record)) :=
  redo_seq (redoRead_run h1 (by simp [hlocked])) (redoMake_run h0 (by simp [hlocked]))

lemma btreeXlogUnlinkPage_run {ismeta : Bool} (hform : UnlinkForm ops record)
    (h4 : ismeta = true → record.HasBlock 4 true) (hlocked : s.locked = []) :
    ops.btreeXlogUnlinkPage record ismeta s =
      .ok ((), s.touches (ops.unlinkTouches record ismeta)) := by
  refine redo_seq (redoRead_run hform.right (by simp [hlocked])) ?_
  refine redo_seq (redoIf_run fun h =>
    redoRead_run (hform.left_block (by simpa using h)) (by simp [hlocked])) ?_
  refine redo_seq (redoMake_run hform.target (by simp [hlocked])) ?_
  refine redo_seq (redoIf_run fun h => redoMake_run (hform.leaf_block h) (by simp [hlocked])) ?_
  exact redoIf_run fun h => redoMake_run (h4 h) (by simp [hlocked])

lemma btreeXlogSplit_run {newitemonleft : Bool} (hdistinct : record.DistinctBlocks)
    (hform : SplitForm ops record) (hlocked : s.locked = []) :
    ops.btreeXlogSplit record newitemonleft s =
      .ok ((), s.touches (ops.splitTouches record newitemonleft)) := by
  obtain ⟨left, hleft, hleftInit⟩ := hform.left
  obtain ⟨right, hright, hrightInit⟩ := hform.right
  have hleftTag := XLogRecord.blockTag?_of_block? hleft
  have hrightTag := XLogRecord.blockTag?_of_block? hright
  have hne : left.tag ≠ right.tag := fun h =>
    hdistinct.ne hleftTag 1 (by decide) (h ▸ hrightTag)
  rw [btreeXlogSplit, redo_bind_ok (polarGetLogTag_run hleft),
    redo_bind_ok (polarGetLogTag_run hright)]
  refine redo_seq (redoIf_run fun h =>
    redoRead_run (hform.child_block (by simpa using h)) (by simp [hlocked])) ?_
  rw [initBlock_run hright hrightInit (by simp [hlocked]),
    redoBlock_bind hleft (by simpa using hleftInit) (by simp [hlocked, hne]), lock_touch,
    redo_bind_ok releaseIfValid_lock, touches_append, touches_append]
  simp only [makeTouch, readTouch, hright, hleft, touches_singleton, blkno, hleftTag, hrightTag,
    Option.map_some, Option.getD_some]
  exact redoIf_run fun h =>
    redoRead_run (hform.next_block (by simpa using h)) (by simp [hlocked])

lemma btreeXlogNewroot_run (hdistinct : record.DistinctBlocks) (hform : NewrootForm ops record)
    (hlocked : s.locked = []) :
    ops.btreeXlogNewroot record s = .ok ((), s.touches (ops.newrootTouches record)) := by
  obtain ⟨root, hroot, hinit⟩ := hform.root
  have htag := XLogRecord.blockTag?_of_block? hroot
  -- the child's page is not the root page, which is locked meanwhile
  have hother : ∀ t, record.blockTag? 1 = some t → t ≠ root.tag := fun t h heq =>
    hdistinct.ne htag 1 (by decide) (heq ▸ h)
  have hnot : root.tag ∉ touched (touchIf (0 < ops.level record.data)
      (ops.readTouch record 1 ops.clearIncompleteSplit)) := by
    simpa using fun _ h => hother _ h rfl
  rw [btreeXlogNewroot, initBlock_run hroot hinit (by simp [hlocked])]
  have hsplit : redoIf (0 < ops.level record.data) (ops.btClearIncompleteSplit record 1)
      ((s.touch root.tag fun _ => ⟨0, some (ops.rootPage record)⟩).lock root.tag) = _ :=
    redoIf_run fun h =>
      redoRead_run (hform.child_block (by simpa using h)) (by simpa [hlocked] using hother)
  rw [redo_bind_ok hsplit, lock_touches, redo_bind_ok writePage_some, lock_touch,
    redo_bind_ok releaseIfValid_lock, ← touches_touch_comm hnot, touch_touch, newrootTouches,
    touches_append, touches_append]
  simp only [makeTouch, hroot, touches_singleton]
  exact redoMake_run hform.metapage (by simp [hlocked])

/-- **Full redo of a b-tree record** makes its touches. -/
theorem btreeRedo_run (hform : BtreeWellFormed ops record) (hlocked : s.locked = []) :
    ops.btreeRedo record s = .ok ((), s.touches (ops.btreeTouches record)) := by
  obtain ⟨hdistinct, hform⟩ := hform
  have hfree (id : ℕ) : ∀ t, record.blockTag? id = some t → t ∉ s.locked := by simp [hlocked]
  unfold btreeRedo btreeTouches
  cases hop : btreeOp record.info with
  | none => simp [hop] at hform
  | some op =>
      rw [hop] at hform
      cases op with
      | insertLeaf | insertPost => exact btreeXlogInsert_run hform (by simp) (by simp) hlocked
      | insertUpper => exact btreeXlogInsert_run hform.1 (fun _ => hform.2) (by simp) hlocked
      | insertMeta =>
          exact btreeXlogInsert_run hform.1 (fun _ => hform.2.1) (fun _ => hform.2.2) hlocked
      | splitL | splitR => exact btreeXlogSplit_run hdistinct hform hlocked
      | dedup | delete | vacuum => exact redoRead_run hform (hfree 0)
      | unlinkPage => exact btreeXlogUnlinkPage_run hform (by simp) hlocked
      | unlinkPageMeta => exact btreeXlogUnlinkPage_run hform.1 (fun _ => hform.2) hlocked
      | newroot => exact btreeXlogNewroot_run hdistinct hform hlocked
      | markPageHalfdead => exact btreeXlogMarkPageHalfdead_run hform.1 hform.2 hlocked
      | reusePage => rfl
      | metaCleanup => exact redoMake_run hform (hfree 0)

/-! ## Single-page redo -/

section Single

variable {m rest : Redo C (RedoAction × Buffer)} {t : BufferTag} {blk : DecodedBkpBlock}

lemma projects_noBlock : ProjectsTo [] tag (noBlock : Redo C (RedoAction × Buffer)) s := by
  have hself : s.touch tag (touchAt [] tag) = s := touch_eq_self rfl
  exact ⟨_, _, rfl, by rw [hself, releaseIfValid_none]⟩

lemma projects_read (hblk : record.block? id = some blk) (hinit : blk.willInit = false)
    (hlocked : s.locked = []) :
    ProjectsTo (ops.readTouch record id f) blk.tag (ops.polarRead record id f) s := by
  have hl : touchAt (ops.readTouch record id f) blk.tag =
      blockEffect ops.image record id blk .normal (RedoPage.redo f record.endRecPtr) := by
    funext p
    simp [readTouch, hblk]
  exact .of_read hl (polarRedoBlock_run hblk (by simpa using hinit) (by simp [hlocked]))
    touch_blockEffect_of_notFound

lemma projects_make {action : RedoAction} (hblk : record.block? id = some blk)
    (hinit : blk.willInit = true) (hlocked : s.locked = []) :
    ProjectsTo (makeTouch record id c) blk.tag (ops.polarMake record action id c) s := by
  have hl : touchAt (makeTouch record id c) blk.tag = fun _ => madePage record c := by
    funext p
    simp [makeTouch, hblk]
  refine ⟨_, _, initBlock_run hblk hinit (by simp [hlocked]) _ _, ?_⟩
  rw [hl, releaseIfValid_lock]

lemma projects_ite (hl : touched l = [t]) (hnot : t ∉ touched l') (hm : ProjectsTo l t m s)
    (hrest : ProjectsTo l' tag rest s) :
    ProjectsTo (l ++ l') tag (if tag = t then m else rest) s := by
  by_cases htag : tag = t
  · subst htag
    have htouch : touchAt (l ++ l') tag = touchAt l tag := by
      funext p
      rw [touchAt_append, touchAt_of_notMem hnot]
    rw [if_pos rfl, ProjectsTo, htouch]
    exact hm
  · have htouch : touchAt (l ++ l') tag = touchAt l' tag := by
      funext p
      rw [touchAt_append, touchAt_of_notMem (l := l) (by simpa [hl] using htag)]
    rw [if_neg htag, ProjectsTo, htouch]
    exact hrest

lemma projects_returnIfBlock (hblk : record.block? id = some blk)
    (hl : touched l = (record.blockTag? id).toList)
    (hnot : ∀ t, record.blockTag? id = some t → t ∉ touched l') (hm : ProjectsTo l blk.tag m s)
    (hrest : ProjectsTo l' tag rest s) :
    ProjectsTo (l ++ l') tag (returnIfBlock record tag id m rest) s := by
  have htag := XLogRecord.blockTag?_of_block? hblk
  rw [htag] at hl
  obtain ⟨r, s', hrun, hrelease⟩ := projects_ite hl (hnot _ htag) hm hrest
  exact ⟨r, s', (redo_bind_ok (polarGetLogTag_run hblk)).trans hrun, hrelease⟩

section Blocks

variable (hlocked : s.locked = []) (hnot : ∀ t, record.blockTag? id = some t → t ∉ touched l')
  (hrest : ProjectsTo l' tag rest s)

include hlocked hnot hrest

lemma projects_readBlock (h : record.HasBlock id false) :
    ProjectsTo (ops.readTouch record id f ++ l') tag
      (returnIfBlock record tag id (ops.polarRead record id f) rest) s := by
  obtain ⟨blk, hblk, hinit⟩ := h
  exact projects_returnIfBlock hblk touched_readTouch hnot (projects_read hblk hinit hlocked) hrest

lemma projects_makeBlock (h : record.HasBlock id true) :
    ProjectsTo (makeTouch record id c ++ l') tag
      (returnIfBlock record tag id (ops.polarMake record .needsRedo id c) rest) s := by
  obtain ⟨blk, hblk, hinit⟩ := h
  exact projects_returnIfBlock hblk touched_makeTouch hnot (projects_make hblk hinit hlocked) hrest

lemma projects_readIf (h : cond = true → record.HasBlock id false) :
    ProjectsTo (touchIf cond (ops.readTouch record id f) ++ l') tag
      (returnIfBlockWhen record tag cond id (ops.polarRead record id f) rest) s := by
  cases cond with
  | false => exact hrest
  | true => exact projects_readBlock hlocked hnot hrest (h rfl)

lemma projects_makeIf (h : cond = true → record.HasBlock id true) :
    ProjectsTo (touchIf cond (makeTouch record id c) ++ l') tag
      (returnIfBlockWhen record tag cond id (ops.polarMake record .needsRedo id c) rest) s := by
  cases cond with
  | false => exact hrest
  | true => exact projects_makeBlock hlocked hnot hrest (h rfl)

end Blocks

/-! ### The routines -/

lemma polarBtreeXlogInsert_projects {isleaf ismeta posting : Bool}
    (hdistinct : record.DistinctBlocks) (h0 : record.HasBlock 0 false)
    (h1 : isleaf = false → record.HasBlock 1 false) (h2 : ismeta = true → record.HasBlock 2 true)
    (hlocked : s.locked = []) :
    ProjectsTo (ops.insertTouches record isleaf ismeta posting) tag
      (ops.polarBtreeXlogInsert record tag isleaf ismeta posting) s := by
  refine projects_readIf hlocked (fun t ht => by simp [hdistinct.ne ht]) ?_
    (fun h => h1 (by simpa using h))
  refine projects_readBlock hlocked (fun t ht => by simp [hdistinct.ne ht]) ?_ h0
  exact .of_append_nil (projects_makeIf hlocked (by simp) projects_noBlock h2)

lemma polarBtreeXlogSplit_projects {newitemonleft : Bool} (hdistinct : record.DistinctBlocks)
    (hform : SplitForm ops record) (hlocked : s.locked = []) :
    ProjectsTo (ops.splitTouches record newitemonleft) tag
      (ops.polarBtreeXlogSplit record tag newitemonleft) s := by
  obtain ⟨left, hleft, hleftInit⟩ := hform.left
  obtain ⟨right, hright, hrightInit⟩ := hform.right
  have hleftTag := XLogRecord.blockTag?_of_block? hleft
  have hrightTag := XLogRecord.blockTag?_of_block? hright
  have hbranches : ProjectsTo (ops.splitTouches record newitemonleft) tag
      (returnIfBlockWhen record tag (ops.level record.data ≠ 0) 3
        (ops.polarBtClearIncompleteSplit record 3) <|
        if tag = right.tag then
          ops.polarMake record .needsRedo 1
            (ops.restoreRight record (blkno record 0) (rnext record))
        else if tag = left.tag then
          ops.polarRead record 0 (ops.reconstructLeft newitemonleft record (blkno record 1))
        else returnIfBlockWhen record tag (rnext record ≠ 0) 2
          (ops.polarRead record 2 (ops.setPrev (blkno record 1))) noBlock) s := by
    refine projects_readIf hlocked (fun t ht => by simp [hdistinct.ne ht]) ?_
      (fun h => hform.child_block (by simpa using h))
    refine projects_ite (by simp [hrightTag]) (by simp [hdistinct.ne hrightTag])
      (projects_make hright hrightInit hlocked) ?_
    refine projects_ite (by simp [hleftTag]) (by simp [hdistinct.ne hleftTag])
      (projects_read hleft hleftInit hlocked) ?_
    exact .of_append_nil (projects_readIf hlocked (by simp) projects_noBlock
      fun h => hform.next_block (by simpa using h))
  obtain ⟨r, s', hrun, hrelease⟩ := hbranches
  refine ⟨r, s', ?_, hrelease⟩
  rw [polarBtreeXlogSplit, redo_bind_ok (polarGetLogTag_run hleft),
    redo_bind_ok (polarGetLogTag_run hright), ← hrun]
  simp [blkno, hleftTag, hrightTag]

lemma polarBtreeXlogMarkPageHalfdead_projects (hdistinct : record.DistinctBlocks)
    (h0 : record.HasBlock 0 true) (h1 : record.HasBlock 1 false) (hlocked : s.locked = []) :
    ProjectsTo (ops.halfdeadTouches record) tag
      (ops.polarBtreeXlogMarkPageHalfdead record tag) s := by
  obtain ⟨leaf, hleaf, hleafInit⟩ := h0
  obtain ⟨parent, hparent, hparentInit⟩ := h1
  have hleafTag := XLogRecord.blockTag?_of_block? hleaf
  have hparentTag := XLogRecord.blockTag?_of_block? hparent
  have hbranches : ProjectsTo (ops.halfdeadTouches record) tag
      (if tag = parent.tag then ops.polarRead record 1 (ops.removeDownlink record)
        else if tag = leaf.tag then ops.polarMake record .notFound 0 (ops.halfdeadLeaf record)
        else noBlock) s := by
    refine projects_ite (by simp [hparentTag]) (by simp [hdistinct.ne hparentTag])
      (projects_read hparent hparentInit hlocked) ?_
    exact .of_append_nil (projects_ite (by simp [hleafTag]) (by simp)
      (projects_make hleaf hleafInit hlocked) projects_noBlock)
  obtain ⟨r, s', hrun, hrelease⟩ := hbranches
  refine ⟨r, s', ?_, hrelease⟩
  rw [polarBtreeXlogMarkPageHalfdead, redo_bind_ok (polarGetLogTag_run hleaf),
    redo_bind_ok (polarGetLogTag_run hparent), hrun]

lemma polarBtreeXlogUnlinkPage_projects {ismeta : Bool} (hdistinct : record.DistinctBlocks)
    (hform : UnlinkForm ops record) (h4 : ismeta = true → record.HasBlock 4 true)
    (hlocked : s.locked = []) :
    ProjectsTo (ops.unlinkTouches record ismeta) tag
      (ops.polarBtreeXlogUnlinkPage record tag ismeta) s := by
  refine projects_readBlock hlocked (fun t ht => by simp [hdistinct.ne ht]) ?_ hform.right
  refine projects_readIf hlocked (fun t ht => by simp [hdistinct.ne ht]) ?_
    (fun h => hform.left_block (by simpa using h))
  refine projects_makeBlock hlocked (fun t ht => by simp [hdistinct.ne ht]) ?_ hform.target
  refine projects_makeIf hlocked (fun t ht => by simp [hdistinct.ne ht]) ?_ hform.leaf_block
  exact .of_append_nil (projects_makeIf hlocked (by simp) projects_noBlock h4)

lemma polarBtreeXlogNewroot_projects (hdistinct : record.DistinctBlocks)
    (hform : NewrootForm ops record) (hlocked : s.locked = []) :
    ProjectsTo (ops.newrootTouches record) tag (ops.polarBtreeXlogNewroot record tag) s := by
  refine projects_makeBlock hlocked (fun t ht => by simp [hdistinct.ne ht]) ?_ hform.root
  refine projects_readIf hlocked (fun t ht => by simp [hdistinct.ne ht]) ?_
    (fun h => hform.child_block (by simpa using h))
  exact .of_append_nil (projects_makeBlock hlocked (by simp) projects_noBlock hform.metapage)

/-- **Single-page redo of a b-tree record**, on a page it touches, is the projection of its
touches. -/
theorem polarBtreeRedo_projects (hform : BtreeWellFormed ops record)
    (hmem : tag ∈ touched (ops.btreeTouches record)) (hlocked : s.locked = []) :
    ProjectsTo (ops.btreeTouches record) tag (ops.polarBtreeRedo record tag) s := by
  obtain ⟨hdistinct, hform⟩ := hform
  unfold btreeTouches at hmem ⊢
  unfold polarBtreeRedo
  cases hop : btreeOp record.info with
  | none => simp [hop] at hform
  | some op =>
      rw [hop] at hform hmem
      cases op with
      | insertLeaf | insertPost =>
          exact polarBtreeXlogInsert_projects hdistinct hform (by simp) (by simp) hlocked
      | insertUpper =>
          exact polarBtreeXlogInsert_projects hdistinct hform.1 (fun _ => hform.2) (by simp) hlocked
      | insertMeta =>
          exact polarBtreeXlogInsert_projects hdistinct hform.1 (fun _ => hform.2.1)
            (fun _ => hform.2.2) hlocked
      | splitL | splitR => exact polarBtreeXlogSplit_projects hdistinct hform hlocked
      | dedup | delete | vacuum =>
          exact .of_append_nil (projects_readBlock hlocked (by simp) projects_noBlock hform)
      | unlinkPage => exact polarBtreeXlogUnlinkPage_projects hdistinct hform (by simp) hlocked
      | unlinkPageMeta =>
          exact polarBtreeXlogUnlinkPage_projects hdistinct hform.1 (fun _ => hform.2) hlocked
      | newroot => exact polarBtreeXlogNewroot_projects hdistinct hform hlocked
      | markPageHalfdead =>
          exact polarBtreeXlogMarkPageHalfdead_projects hdistinct hform.1 hform.2 hlocked
      | reusePage => exact projects_noBlock
      | metaCleanup =>
          -- the routine does not look at the tag, but it is asked about no other page
          obtain ⟨blk, hblk, hinit⟩ := hform
          obtain rfl : blk.tag = tag := by
            simpa [XLogRecord.blockTag?_of_block? hblk, eq_comm] using hmem
          exact projects_make hblk hinit hlocked

end Single

/-! ## Indexed pages -/

lemma mem_ifRef_tag : (∃ i ∈ record.ifRef id, record.blockTag? i = some tag) ↔
    record.blockTag? id = some tag := by
  cases hblk : record.block? id <;>
    simp [XLogRecord.ifRef, onlyIf, XLogRecord.hasBlockRef, XLogRecord.blockTag?, hblk]

/-- A block that is saved whenever the record has it, and touched under a condition the record
meets only then. -/
lemma mem_touched_touchIf (hl : touched l = (record.blockTag? id).toList)
    (hcond : cond = false → record.block? id = none) :
    tag ∈ touched (touchIf cond l) ↔ record.blockTag? id = some tag := by
  cases cond with
  | false => simp [XLogRecord.blockTag?, hcond rfl]
  | true => simp [hl]

lemma insert_saved {isleaf ismeta posting : Bool} :
    tag ∈ record.savedTags (polarBtreeXlogInsertSave isleaf ismeta) ↔
      tag ∈ touched (ops.insertTouches record isleaf ismeta posting) := by
  cases isleaf <;> cases ismeta <;>
    simp [mem_savedTags, polarBtreeXlogInsertSave, onlyIf, insertTouches]

lemma split_saved {newitemonleft : Bool} (hform : SplitForm ops record) :
    tag ∈ record.savedTags (polarBtreeXlogSplitSave record) ↔
      tag ∈ touched (ops.splitTouches record newitemonleft) := by
  have hchild : decide (ops.level record.data ≠ 0) = false → record.block? 3 = none := fun h =>
    hform.no_child (by simpa using h)
  have hnext : decide (rnext record ≠ 0) = false → record.block? 2 = none := fun h =>
    hform.next.resolve_right fun hnext => hnext.2 (by simpa using h)
  simp only [mem_savedTags, polarBtreeXlogSplitSave, splitTouches, List.mem_append, or_and_right,
    exists_or, mem_ifRef_tag, touched_append, mem_touched_touchIf touched_readTouch hchild,
    mem_touched_touchIf touched_readTouch hnext]
  simp [or_assoc]

lemma unlink_saved {ismeta : Bool} (hform : UnlinkForm ops record) :
    tag ∈ record.savedTags (polarBtreeXlogUnlinkPageSave ismeta record) ↔
      tag ∈ touched (ops.unlinkTouches record ismeta) := by
  have hleft : decide (ops.leftsib record.data ≠ 0) = false → record.block? 1 = none := fun h =>
    hform.no_left (by simpa using h)
  have hleaf : record.hasBlockRef 3 = false → record.block? 3 = none := by
    simp [XLogRecord.hasBlockRef]
  simp only [mem_savedTags, polarBtreeXlogUnlinkPageSave, unlinkTouches, List.mem_append,
    or_and_right, exists_or, mem_ifRef_tag, touched_append,
    mem_touched_touchIf touched_readTouch hleft, mem_touched_touchIf touched_makeTouch hleaf]
  cases ismeta <;> simp [onlyIf, or_assoc]

lemma newroot_saved (hform : NewrootForm ops record) :
    tag ∈ record.savedTags (polarBtreeXlogNewrootSave record) ↔
      tag ∈ touched (ops.newrootTouches record) := by
  have hchild : decide (0 < ops.level record.data) = false → record.block? 1 = none := fun h =>
    hform.no_child (by simpa using h)
  simp only [mem_savedTags, polarBtreeXlogNewrootSave, newrootTouches, List.mem_append,
    or_and_right, exists_or, mem_ifRef_tag, touched_append,
    mem_touched_touchIf touched_readTouch hchild]
  simp [or_assoc]

/-- **A b-tree record is indexed for the pages it touches.** -/
theorem btree_indexed (hrmid : record.rmid = .btree) (hform : BtreeWellFormed ops record) :
    Indexes record (touched (ops.btreeTouches record)) := by
  have hdecode : polarXlogDecodeData record = some record := by simp [polarXlogDecodeData, hrmid]
  have hparse : parseLogIndexXlog record = polarBtreeIdxSave record := by
    simp [parseLogIndexXlog, hrmid]
  obtain ⟨-, hform⟩ := hform
  unfold polarBtreeIdxSave at hparse
  unfold btreeTouches
  cases hop : btreeOp record.info with
  | none => simp [hop] at hform
  | some op =>
      rw [hop] at hform hparse
      cases op with
      | insertLeaf | insertPost | insertUpper | insertMeta =>
          exact ⟨record, _, hdecode, hparse, fun tag => insert_saved⟩
      | splitL | splitR => exact ⟨record, _, hdecode, hparse, fun tag => split_saved hform⟩
      | unlinkPage => exact ⟨record, _, hdecode, hparse, fun tag => unlink_saved hform⟩
      | unlinkPageMeta => exact ⟨record, _, hdecode, hparse, fun tag => unlink_saved hform.1⟩
      | newroot => exact ⟨record, _, hdecode, hparse, fun tag => newroot_saved hform⟩
      | dedup | delete | vacuum | metaCleanup | reusePage =>
          exact ⟨record, _, hdecode, hparse, fun tag => by simp [mem_savedTags]⟩
      | markPageHalfdead =>
          exact ⟨record, _, hdecode, hparse,
            fun tag => by simp [mem_savedTags, halfdeadTouches]⟩

end BtreeOps

/-! ## Replay -/

/-- **Single-page b-tree redo is the projection of full redo.**  For every log of b-tree records and
every set of pages, full redo of the log succeeds, and so does, for every page, single-page redo of
the records that are indexed for it; the page is the same, with its LSN. -/
theorem btree_redo_projection (ops : BtreeOps D C) {log : List (XLogRecord D)}
    (hform : ∀ record ∈ log, record.rmid = .btree ∧ BtreeWellFormed ops record) {s : RedoState C}
    (hlocked : s.locked = []) :
    ∃ s', redoAll ops.btreeRedo log s = .ok ((), s') ∧
      ∀ tag, ∃ s'', redoPage ops.polarBtreeRedo tag (indexedFor tag log) s = .ok ((), s'') ∧
        s''.pages tag = s'.pages tag := by
  have hmakes (record : XLogRecord D) (h : record ∈ log) (s : RedoState C) (hs : s.locked = []) :
      MakesOn (fun _ => True) (ops.btreeTouches record) (ops.btreeRedo record) s :=
    .of_run (BtreeOps.btreeRedo_run (hform record h).2 hs)
  obtain ⟨s', hall, hpages⟩ := redoAll_run hmakes hlocked
  refine ⟨s', hall, fun tag => ?_⟩
  obtain ⟨s'', hone, hpage⟩ := redoPage_indexed_run
    (fun r hr hmem s hs => (BtreeOps.polarBtreeRedo_projects (hform r hr).2 hmem hs).changesPage)
    (fun r hr => BtreeOps.btree_indexed (hform r hr).1 (hform r hr).2) hlocked
  exact ⟨s'', hone, hpage.trans (hpages tag trivial).symm⟩

/-- Pages that hold the links to their siblings. -/
def siblingLinks : BtreeOps Unit (UInt32 × UInt32) where
  image _ _ := none
  level _ := 0
  leftsib _ := 0
  rightsib _ := 0
  clearIncompleteSplit := id
  setPrev blkno p := (blkno, p.2)
  setNext blkno p := (p.1, blkno)
  insert _ _ := id
  restoreRight _ leftsib rnext := (leftsib, rnext)
  reconstructLeft _ _ rightsib p := (p.1, rightsib)
  dedup _ := id
  vacuum _ := id
  delete _ := id
  removeDownlink _ := id
  halfdeadLeaf _ := (0, 0)
  deletedPage _ leftsib rightsib := (leftsib, rightsib)
  halfdeadBranch _ := (0, 0)
  rootPage _ := (0, 0)
  metaPage _ _ := (0, 0)

/-- Leaf page 3, with page 4 to its right, is split; the new page is 9. -/
def leafSplit : XLogRecord Unit where
  rmid := .btree
  xlInfo := 0x30
  flags := 0
  blocks := [some ⟨⟨1663, 5, 16390, 0, 3⟩, false, false⟩,
    some ⟨⟨1663, 5, 16390, 0, 9⟩, false, true⟩, some ⟨⟨1663, 5, 16390, 0, 4⟩, false, false⟩]
  endRecPtr := 300
  data := ()

/-- Leaf page 9, whose parent is page 1, is marked half-dead. -/
def halfdeadMark : XLogRecord Unit where
  rmid := .btree
  xlInfo := 0xB0
  flags := 0
  blocks := [some ⟨⟨1663, 5, 16390, 0, 9⟩, false, true⟩,
    some ⟨⟨1663, 5, 16390, 0, 1⟩, false, false⟩]
  endRecPtr := 400
  data := ()

theorem btree_redo_projection_split_halfdead :
    ∃ s', redoAll siblingLinks.btreeRedo [leafSplit, halfdeadMark]
        ⟨fun _ => ⟨0, some (0, 0)⟩, []⟩ = .ok ((), s') ∧
      ∀ tag, ∃ s'', redoPage siblingLinks.polarBtreeRedo tag
          (indexedFor tag [leafSplit, halfdeadMark]) ⟨fun _ => ⟨0, some (0, 0)⟩, []⟩
          = .ok ((), s'') ∧ s''.pages tag = s'.pages tag := by
  refine btree_redo_projection siblingLinks ?_ rfl
  intro record hrecord
  obtain rfl | rfl : record = leafSplit ∨ record = halfdeadMark := by simpa using hrecord
  · refine ⟨rfl, ?_, ⟨⟨_, rfl, rfl⟩, ⟨_, rfl, rfl⟩, .inr ⟨⟨_, rfl, rfl⟩, by decide⟩, rfl⟩⟩
    rintro (_ | _ | _ | i) (_ | _ | _ | j) t hi hj <;>
      simp_all [leafSplit, XLogRecord.blockTag?, XLogRecord.block?] <;>
      exact absurd (hi.trans hj.symm) (by decide)
  · refine ⟨rfl, ?_, ⟨_, rfl, rfl⟩, _, rfl, rfl⟩
    rintro (_ | _ | i) (_ | _ | j) t hi hj <;>
      simp_all [halfdeadMark, XLogRecord.blockTag?, XLogRecord.block?] <;>
      exact absurd (hi.trans hj.symm) (by decide)

end GroundDB
