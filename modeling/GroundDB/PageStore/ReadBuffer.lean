import GroundDB.PageStore.Tag
import GroundDB.HashMap.Operations

/-!
# Reading a page version

The storage node keeps, besides the map of version lists, page versions in a key-value store.
`ReadBufferCommon` looks up what has to be replayed, takes the base version from the store, or the
base page when nothing was ever stored, applies the LSNs, stores the result and deletes the
version it started from.  The background vacuumer does the same for the pending LSNs of a list.

RocksDB is a map from tag and LSN to page.  Applying a list of LSNs is a left fold of a redo
function; base pages and redo function are arbitrary.
-/

namespace GroundDB

open PtrHeap History

/-! ## The node -/

/-- The stored page versions. -/
abbrev KvStore (Page : Type) := BufferTag → ℕ → Option Page

/-- The state of the storage node: the page-version map and the key-value store. -/
structure Node (Page : Type) where
  map : HashMap
  kv : KvStore Page

/-- How a request or a pass ends: with a result, or by asking the store for a version that is not
there.  The source goes on with a null page then and crashes. -/
inductive Outcome (α : Type)
  | done (result : α)
  | missing (tag : BufferTag) (lsn : ℕ)
deriving DecidableEq, Repr

section Node

variable {Page : Type}

/-- `PutPage2Rocksdb`. -/
def putPage (kv : KvStore Page) (tag : BufferTag) (lsn : ℕ) (page : Page) : KvStore Page :=
  fun t v => if t = tag ∧ v = lsn then some page else kv t v

/-- `DeletePageFromRocksdb`. -/
def deletePage (kv : KvStore Page) (tag : BufferTag) (lsn : ℕ) : KvStore Page :=
  fun t v => if t = tag ∧ v = lsn then none else kv t v

@[simp] lemma putPage_apply (kv : KvStore Page) (tag t : BufferTag) (lsn v : ℕ) (page : Page) :
    putPage kv tag lsn page t v = if t = tag ∧ v = lsn then some page else kv t v := rfl

@[simp] lemma deletePage_apply (kv : KvStore Page) (tag t : BufferTag) (lsn v : ℕ) :
    deletePage kv tag lsn t v = if t = tag ∧ v = lsn then none else kv t v := rfl

variable (basePage : BufferTag → Page) (redo : BufferTag → ℕ → Page → Page)

/-- `ApplyLsnList`: the LSNs in order, on a given page. -/
def applyLsnList (tag : BufferTag) (lsnList : List ℕ) (page : Page) : Page :=
  replay (redo tag) lsnList page

/-- The page the replay starts from: the stored version `replayedLsn`, or the base page (which
`ApplyLsnListAndGetUpdatedPage` fetches itself) when nothing was replayed yet. -/
def replayBase (kv : KvStore Page) (tag : BufferTag) (replayedLsn : ℕ) : Option Page :=
  if replayedLsn > 0 then kv tag replayedLsn else some (basePage tag)

/-- Store the new version and delete the one it was made from. -/
def replaceVersion (kv : KvStore Page) (tag : BufferTag) (replayedLsn lastLsn : ℕ) (page : Page) :
    KvStore Page :=
  let kv := putPage kv tag lastLsn page
  if replayedLsn > 0 then deletePage kv tag replayedLsn else kv

/-- `ReadBufferCommon`, after `WaitParse`.  The order of the put, the update and the delete does
not matter while requests run one at a time. -/
def readBufferCommon (node : Node Page) (req : ReadRequest) :
    Option (Node Page × Outcome Page) := do
  let (map, answer) ← hashMapGetBlockReplayList node.map req.key req.lsn
  match answer.result with
  | none => some ({ node with map := map }, .done (basePage req.tag))
  | some list =>
      if list.listLen = 0 then
        match node.kv req.tag list.replayedLsn with
        | none => some ({ node with map := map }, .missing req.tag list.replayedLsn)
        | some targetPage => some ({ node with map := map }, .done targetPage)
      else
        match replayBase basePage node.kv req.tag list.replayedLsn with
        | none => some ({ node with map := map }, .missing req.tag list.replayedLsn)
        | some base => do
            let page := applyLsnList redo req.tag list.toReplayList base
            let lastLsn ← list.toReplayList[list.listLen - 1]?
            let (map, _, _) ← hashMapUpdateReplayedLsn map req.key lastLsn true
            some ({ map := map
                    kv := replaceVersion node.kv req.tag list.replayedLsn lastLsn page },
              .done page)

/-- `BackgroundReplayHeadNode`. -/
def backgroundReplayHeadNode (node : Node Page) (iter : ℕ) :
    Option (Node Page × Outcome Unit) := do
  let head ← node.map.heads.read iter
  let (map, lsnList) ← backgroundReplay node.map iter
  match lsnList.getLast? with
  | none => some ({ node with map := map }, .done ())
  | some lastLsn =>
      let tag := tagOfKey head.key
      match replayBase basePage node.kv tag head.replayedLsn with
      | none => some ({ node with map := map }, .missing tag head.replayedLsn)
      | some base =>
          let page := applyLsnList redo tag lsnList base
          some ({ map := map
                  kv := replaceVersion node.kv tag head.replayedLsn lastLsn page }, .done ())

/-- `ParseXLogBlocksLsn`, for a block of the record that starts at `lsn`. -/
def parseXLogBlocksLsn (node : Node Page) (tag : BufferTag) (lsn : ℕ) : Option (Node Page) := do
  let (map, _) ← hashMapInsertKey node.map (keyOfTag tag) lsn 0 true
  some { node with map := map }

end Node

end GroundDB
