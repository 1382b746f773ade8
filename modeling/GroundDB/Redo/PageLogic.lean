import GroundDB.Redo.Btree
import GroundDB.Redo.Heap

/-!
# Judgements about single-page routines

A single-page routine locks the page it works on and hands the buffer from part to part until it
returns it.  A `PageLogic` is a judgement about such parts that follows the way they are put
together: it says what holds of a part that is entered with a buffer and ends with one, and there is
a rule for each of the parts the routines are made of.  Clearing map bits is left to the lemmas
about heap records, since it works on pages that no block names.

The routines are gone through here once, for every judgement (`PageLogic.polarHeapIdxRedo`,
`PageLogic.polarHeap2IdxRedo`, `PageLogic.polarBtreeRedo`).
-/

namespace GroundDB

variable {C D α β : Type}

/-- `Holds b held m`: the judgement about the part `m`, which is entered with the buffer `b` and
ends with `held a` if it returns `a`. -/
structure PageLogic (C : Type) {D : Type} (record : XLogRecord D) where
  Holds : ∀ {α : Type}, Buffer → (α → Buffer) → Redo C α → Prop
  ofPure : ∀ {α : Type} {b : Buffer} {held : α → Buffer} {a : α}, held a = b →
    Holds b held (pure a)
  ofPanic : ∀ {α : Type} {b : Buffer} {held : α → Buffer}, Holds b held redoPanic
  bind : ∀ {α β : Type} {b : Buffer} {held : α → Buffer} {held' : β → Buffer} {m : Redo C α}
    {k : α → Redo C β}, Holds b held m → (∀ a, Holds (held a) held' (k a)) →
      Holds b held' (m >>= k)
  ofTag : ∀ {α : Type} {b : Buffer} {held : α → Buffer} {id : ℕ} {k : BufferTag → Redo C α},
    (∀ t, record.blockTag? id = some t → Holds b held (k t)) →
      Holds b held (polarGetLogTag record id >>= k)
  read : ∀ {image : D → ℕ → Option C} {id : ℕ} {mode : RedoReadMode} {b : Buffer},
    Holds b Prod.snd (xlogReadBufferForRedoExtended image record id mode)
  change : ∀ {r : RedoAction × Buffer} {f : RedoPage C → RedoPage C},
    Holds r.2 (fun _ => r.2) (whenNeedsRedo r f)
  write : ∀ {b : Buffer} {f : RedoPage C → RedoPage C}, Holds b (fun _ => b) (writePage b f)
  oldTuple : ∀ {r : RedoAction × Buffer}, Holds r.2 (fun _ => r.2) (HeapOps.oldTuple r)

namespace PageLogic

variable {record : XLogRecord D} (J : PageLogic C record) {tag : BufferTag} {b buffer : Buffer}
  {image : D → ℕ → Option C} {id : ℕ} {mode : RedoReadMode} {f : RedoPage C → RedoPage C}

lemma ite {p : Prop} [Decidable p] {held : α → Buffer} {m m' : Redo C α} (hm : J.Holds b held m)
    (hm' : J.Holds b held m') : J.Holds b held (if p then m else m') := by
  split
  · exact hm
  · exact hm'

lemma thenChange {m : Redo C (RedoAction × Buffer)} (hm : J.Holds b Prod.snd m) :
    J.Holds b Prod.snd (do
      let r ← m
      whenNeedsRedo r f
      return r) :=
  J.bind hm fun _ => J.bind J.change fun _ => J.ofPure rfl

lemma polarRedoBlock : J.Holds b Prod.snd (polarRedoBlock image record id mode f) :=
  J.thenChange J.read

lemma polarInitBufferForRedo :
    J.Holds buffer (fun made => made) (polarInitBufferForRedo image record id buffer) := by
  cases buffer with
  | some t => exact J.ofPure rfl
  | none => exact J.bind J.read fun _ => J.ofPure rfl

/-! ## Heap records -/

section Heap

variable {ops : HeapOps D C} {heap : BufferTag} {r : RedoAction × Buffer} {flags : UInt8}
  {cond init hotUpdate samePage : Bool} {f : C → C}

lemma readHeapPage : J.Holds buffer Prod.snd (ops.readHeapPage record init buffer) :=
  J.ite (J.bind J.polarInitBufferForRedo fun _ => J.bind J.write fun _ => J.ofPure rfl) J.read

lemma redoHeapPage : J.Holds buffer Prod.snd (ops.redoHeapPage record init buffer f) :=
  J.thenChange J.readHeapPage

lemma redoOldTuple : J.Holds b (fun x => x.1.2) (ops.redoOldTuple record samePage hotUpdate) :=
  J.bind J.polarRedoBlock fun _ => J.bind J.oldTuple fun _ => J.ofPure rfl

lemma readNewPage : J.Holds r.2 Prod.snd (ops.readNewPage record samePage r r.2) :=
  J.ite (J.ofPure rfl) J.readHeapPage

variable (hclear : ∀ {id heap b flags}, record.blockTag? id = some heap →
  J.Holds b Prod.snd (ops.polarHeapClearVm record heap b flags))

include hclear

lemma polarClearVmIf (hheap : record.blockTag? id = some heap) :
    J.Holds r.2 Prod.snd (ops.polarClearVmIf record cond heap r flags) :=
  J.ite (hclear hheap) (J.ofPure rfl)

lemma polarMapHeapRedo :
    J.Holds none Prod.snd (ops.polarMapHeapRedo record tag flags init f) := by
  refine J.ofTag fun tag0 htag0 =>
    J.bind (J.polarClearVmIf (r := (.notFound, none)) hclear htag0) fun r => ?_
  exact J.ite J.redoHeapPage (J.ofPure rfl)

lemma polarHeapXlogDelete : J.Holds none Prod.snd (ops.polarHeapXlogDelete record tag) := by
  refine J.ofTag fun tag0 htag0 => J.ite ?_ (J.ite J.redoHeapPage (J.ofPure rfl))
  exact J.polarClearVmIf (r := (.notFound, none)) hclear htag0

omit hclear in
lemma polarOnePageRedo : J.Holds none Prod.snd (ops.polarOnePageRedo record tag f) :=
  J.ofTag fun _ _ => J.ite (J.ofPure rfl) J.redoHeapPage

lemma polarHeapXlogUpdate :
    J.Holds none Prod.snd (ops.polarHeapXlogUpdate record tag hotUpdate) := by
  refine J.ofTag fun tag0 htag0 => ?_
  have hold : ∃ id, record.blockTag? id = some ((record.blockTag? 1).getD tag0) := by
    cases hone : record.blockTag? 1 with
    | none => exact ⟨0, htag0⟩
    | some old => exact ⟨1, hone⟩
  obtain ⟨id, hold⟩ := hold
  refine J.bind (J.polarClearVmIf (r := (.notFound, none)) hclear hold) fun r₁ =>
    J.bind (J.polarClearVmIf hclear htag0) fun r => ?_
  -- what follows the old tuple stands behind both branches
  have hnew : ∀ (samePage : Bool) (x : (RedoAction × Buffer) × Option C),
      J.Holds x.1.2 Prod.snd (if tag = tag0 then do
          let r ← ops.readNewPage record samePage x.1 x.1.2
          whenNeedsRedo r (ops.redoNewPage record x.2)
          return r
        else return x.1) := fun samePage x =>
    J.ite (J.thenChange J.readNewPage) (J.ofPure rfl)
  exact J.ite (J.bind J.redoOldTuple fun x => hnew _ x)
    (J.bind (show J.Holds r.2 (fun x => x.1.2) _ from J.ofPure rfl) fun x => hnew _ x)

omit hclear in
lemma polarHeapXlogVisible : J.Holds none Prod.snd (ops.polarHeapXlogVisible record tag) := by
  refine J.ofTag fun tag0 _ => J.ofTag fun tag1 _ => ?_
  have hmap : ∀ r : RedoAction × Buffer, J.Holds r.2 Prod.snd (if tag = tag0 then
        GroundDB.polarRedoBlock ops.image record 0
          (if r.2.isSome then .normal else .zeroOnError)
          (ops.polarVisibleMapPage record tag1.blockNum)
      else return r) := fun r => J.ite J.polarRedoBlock (J.ofPure rfl)
  exact J.ite (J.bind J.polarRedoBlock hmap)
    (J.bind (show J.Holds none Prod.snd _ from J.ofPure rfl) hmap)

/-- **Heap records.** -/
theorem polarHeapIdxRedo : J.Holds none Prod.snd (ops.polarHeapIdxRedo record tag) := by
  unfold HeapOps.polarHeapIdxRedo
  cases heapOp record.info with
  | insert | lock => exact J.polarMapHeapRedo hclear
  | delete => exact J.polarHeapXlogDelete hclear
  | update | hotUpdate => exact J.polarHeapXlogUpdate hclear
  | truncate => exact J.ofPure rfl
  | confirm | inplace => exact J.polarOnePageRedo

/-- **Records of the second heap resource manager.** -/
theorem polarHeap2IdxRedo : J.Holds none Prod.snd (ops.polarHeap2IdxRedo record tag) := by
  unfold HeapOps.polarHeap2IdxRedo
  cases heap2Op record.info with
  | clean | freezePage => exact J.polarOnePageRedo
  | visible => exact J.polarHeapXlogVisible
  | multiInsert | lockUpdated => exact J.polarMapHeapRedo hclear
  | cleanupInfo | newCid | rewrite => exact J.ofPure rfl

end Heap

/-! ## B-tree records -/

section Btree

variable {ops : BtreeOps D C} {c : C} {f : C → C} {action : RedoAction} {cond : Bool}
  {m rest : Redo C (RedoAction × Buffer)}

lemma noBlock : J.Holds none Prod.snd (BtreeOps.noBlock : Redo C (RedoAction × Buffer)) :=
  J.ofPure rfl

lemma polarRead : J.Holds none Prod.snd (ops.polarRead record id f) := J.polarRedoBlock

lemma polarMake : J.Holds none Prod.snd (ops.polarMake record action id c) :=
  J.bind J.polarInitBufferForRedo fun _ => J.bind J.write fun _ => J.ofPure rfl

lemma returnIfBlock (hm : J.Holds none Prod.snd m) (hrest : J.Holds none Prod.snd rest) :
    J.Holds none Prod.snd (BtreeOps.returnIfBlock record tag id m rest) :=
  J.ofTag fun _ _ => J.ite hm hrest

lemma returnIfBlockWhen (hm : J.Holds none Prod.snd m) (hrest : J.Holds none Prod.snd rest) :
    J.Holds none Prod.snd (BtreeOps.returnIfBlockWhen record tag cond id m rest) :=
  J.ite (J.returnIfBlock hm hrest) hrest

lemma polarBtreeXlogInsert {isleaf ismeta posting : Bool} :
    J.Holds none Prod.snd (ops.polarBtreeXlogInsert record tag isleaf ismeta posting) :=
  J.returnIfBlockWhen J.polarRead <| J.returnIfBlock J.polarRead <|
    J.returnIfBlockWhen J.polarMake J.noBlock

lemma polarBtreeXlogSplit {newitemonleft : Bool} :
    J.Holds none Prod.snd (ops.polarBtreeXlogSplit record tag newitemonleft) :=
  J.ofTag fun _ _ => J.ofTag fun _ _ => J.returnIfBlockWhen J.polarRead <| J.ite J.polarMake <|
    J.ite J.polarRead <| J.returnIfBlockWhen J.polarRead J.noBlock

lemma polarBtreeXlogMarkPageHalfdead :
    J.Holds none Prod.snd (ops.polarBtreeXlogMarkPageHalfdead record tag) :=
  J.ofTag fun _ _ => J.ofTag fun _ _ => J.ite J.polarRead <| J.ite J.polarMake J.noBlock

lemma polarBtreeXlogUnlinkPage {ismeta : Bool} :
    J.Holds none Prod.snd (ops.polarBtreeXlogUnlinkPage record tag ismeta) :=
  J.returnIfBlock J.polarRead <| J.returnIfBlockWhen J.polarRead <|
    J.returnIfBlock J.polarMake <| J.returnIfBlockWhen J.polarMake <|
      J.returnIfBlockWhen J.polarMake J.noBlock

lemma polarBtreeXlogNewroot : J.Holds none Prod.snd (ops.polarBtreeXlogNewroot record tag) :=
  J.returnIfBlock J.polarMake <| J.returnIfBlockWhen J.polarRead <|
    J.returnIfBlock J.polarMake J.noBlock

/-- **B-tree records.** -/
theorem polarBtreeRedo : J.Holds none Prod.snd (ops.polarBtreeRedo record tag) := by
  unfold BtreeOps.polarBtreeRedo
  cases btreeOp record.info with
  | none => exact J.ofPanic
  | some op =>
      cases op with
      | insertLeaf | insertUpper | insertMeta | insertPost => exact J.polarBtreeXlogInsert
      | splitL | splitR => exact J.polarBtreeXlogSplit
      | dedup | delete | vacuum => exact J.returnIfBlock J.polarRead J.noBlock
      | unlinkPage | unlinkPageMeta => exact J.polarBtreeXlogUnlinkPage
      | newroot => exact J.polarBtreeXlogNewroot
      | markPageHalfdead => exact J.polarBtreeXlogMarkPageHalfdead
      | reusePage => exact J.noBlock
      | metaCleanup => exact J.polarMake

end Btree

end PageLogic

end GroundDB
