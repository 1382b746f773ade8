import GroundDB.Lib.Heap
import GroundDB.Lib.Bounded

/-!
# The page-version hash map

The data model of `logindex_hashmap.h`.  A bucket holds a chain of head nodes, one for each page;
a head node holds the first `hashHeadNum` LSNs of the records that touch the page, and the later
ones sit in a doubly linked list of element nodes of `hashElemNum` LSNs each.  `replayedLsn` is
the largest LSN up to which the page has been replayed and its version stored.

Pointers are addresses in two heaps, one for each kind of node.  An entry array is modelled by its
used prefix, whose length is the source's `entryNum`.  `pageNum` is `none` where the source leaves
the field uninitialised.  LSNs are natural numbers: the map only stores and compares them.
-/

namespace GroundDB

open PtrHeap

/-- `HASH_HEAD_NUM`: entries in a head node. -/
def hashHeadNum : ℕ := 15

/-- `HASH_ELEM_NUM`: entries in an element node. -/
def hashElemNum : ℕ := 30

/-- `KeyTypeStruct`: a page, or a relation when `blkNum` is `-1`. -/
structure KeyType where
  spcID : UInt64
  dbID : UInt64
  relID : UInt64
  forkNum : UInt32
  blkNum : Int64
deriving DecidableEq, Repr

/-- A block of one relation. -/
abbrev blockKey (blkNum : Int64) : KeyType := ⟨1663, 13000, 16384, 0, blkNum⟩

lemma buckets_pos : 0 < 1023 := by decide

structure LsnEntry where
  lsn : ℕ
  pageNum : Option ℤ
deriving DecidableEq, Repr

structure HashNodeEle where
  maxLsn : ℕ
  lsnEntry : Filled LsnEntry hashElemNum
  nextEle : Ptr
  prevEle : Ptr

structure HashNodeHead where
  key : KeyType
  hashValue : UInt32
  bucket : ℕ
  lsnEntry : Filled LsnEntry hashHeadNum
  maxLsn : ℕ
  replayedLsn : ℕ
  nextHead : Ptr
  prevHead : Ptr
  nextEle : Ptr
  tailEle : Ptr

/-- Element nodes along `nextEle`, with their addresses. -/
abbrev EleNodes := List (ℕ × HashNodeEle)

/-- Heads along `nextHead`, with their addresses. -/
abbrev HeadNodes := List (ℕ × HashNodeHead)

/-- `HashMapStruct`, with the two heaps its nodes live in.  `nodeList i` is the first head of
bucket `i`. -/
structure HashMap where
  bucketNum : ℕ
  bucketNum_pos : 0 < bucketNum
  nodeList : ℕ → Ptr
  heads : Heap HashNodeHead
  eles : Heap HashNodeEle

/-- `HashMapInit`: every bucket is empty. -/
def hashMapInit (bucketNum : ℕ) (hpos : 0 < bucketNum) : HashMap :=
  { bucketNum := bucketNum, bucketNum_pos := hpos, nodeList := fun _ => none,
    heads := Heap.empty, eles := Heap.empty }

/-- `HashKey`, in the unsigned arithmetic of the source. -/
def hashKey (key : KeyType) : UInt32 :=
  let res : UInt32 := 0
  let res := res + ((key.spcID &&& 0xFF) * 13 + 7).toUInt32
  let res := res + ((key.dbID &&& 0xFF) * 17 + 5).toUInt32
  let res := res + ((key.relID &&& 0xFF) * 11 + 7).toUInt32
  let res := res + ((key.forkNum &&& 0xFF) * 3 + 29)
  if key.blkNum != -1 then
    res + ((key.blkNum.toUInt64 &&& 0xFF) * 7 + 11).toUInt32
  else res

/-- `KeyMatch` compares the five fields. -/
def keyMatch (key1 key2 : KeyType) : Bool :=
  key1.spcID == key2.spcID && key1.dbID == key2.dbID && key1.relID == key2.relID
    && key1.forkNum == key2.forkNum && key1.blkNum == key2.blkNum

@[simp] lemma keyMatch_iff {k₁ k₂ : KeyType} : keyMatch k₁ k₂ = true ↔ k₁ = k₂ := by
  obtain ⟨s₁, d₁, r₁, f₁, b₁⟩ := k₁
  obtain ⟨s₂, d₂, r₂, f₂, b₂⟩ := k₂
  simp [keyMatch, and_assoc]

/-- The bucket a key belongs to. -/
def HashMap.bucketPos (m : HashMap) (key : KeyType) : ℕ :=
  (hashKey key).toNat % m.bucketNum

/-! ## The LSNs of a version list -/

/-- The LSNs of an entry array, in order. -/
def entryLsns (entries : List LsnEntry) : List ℕ := entries.map LsnEntry.lsn

/-- The LSNs of a chain of element nodes, in order. -/
def eleLsns (chain : EleNodes) : List ℕ :=
  chain.flatMap fun x => entryLsns x.2.lsnEntry.toList

/-- The LSNs of a version list: the head array first, then along `nextEle`. -/
def listLsns (head : HashNodeHead) (chain : EleNodes) : List ℕ :=
  entryLsns head.lsnEntry.toList ++ eleLsns chain

/-- The entries of a chain of element nodes, in order. -/
def eleEntries (chain : EleNodes) : List LsnEntry :=
  chain.flatMap fun x => x.2.lsnEntry.toList

/-- The entries of a version list, in the order of its LSNs. -/
def listEntries (head : HashNodeHead) (chain : EleNodes) : List LsnEntry :=
  head.lsnEntry.toList ++ eleEntries chain

lemma getLast?_of_entryLsns {es : List LsnEntry} {lsn : ℕ}
    (h : (entryLsns es).getLast? = some lsn) : ∃ e, es.getLast? = some e ∧ e.lsn = lsn := by
  rw [entryLsns, List.getLast?_map] at h
  exact Option.map_eq_some_iff.mp h

@[simp] lemma eleLsns_nil : eleLsns [] = [] := rfl

@[simp] lemma eleLsns_cons (x : ℕ × HashNodeEle) (chain : EleNodes) :
    eleLsns (x :: chain) = entryLsns x.2.lsnEntry.toList ++ eleLsns chain := List.flatMap_cons

@[simp] lemma eleLsns_append (c₁ c₂ : EleNodes) :
    eleLsns (c₁ ++ c₂) = eleLsns c₁ ++ eleLsns c₂ := List.flatMap_append

@[simp] lemma eleEntries_nil : eleEntries [] = [] := rfl

@[simp] lemma eleEntries_cons (x : ℕ × HashNodeEle) (chain : EleNodes) :
    eleEntries (x :: chain) = x.2.lsnEntry.toList ++ eleEntries chain := List.flatMap_cons

@[simp] lemma eleEntries_append (c₁ c₂ : EleNodes) :
    eleEntries (c₁ ++ c₂) = eleEntries c₁ ++ eleEntries c₂ := List.flatMap_append

@[simp] lemma entryLsns_eleEntries (chain : EleNodes) :
    entryLsns (eleEntries chain) = eleLsns chain := List.map_flatMap

@[simp] lemma entryLsns_listEntries (head : HashNodeHead) (chain : EleNodes) :
    entryLsns (listEntries head chain) = listLsns head chain := by
  rw [listLsns, ← entryLsns_eleEntries]
  exact List.map_append

/-- Following `nextEle` and `prevEle` from `head->nextEle` to `head->tailEle` one meets the
element nodes of `chain`. -/
def EleChain (eles : Heap HashNodeEle) (p : Ptr) (chain : EleNodes) (tl : Ptr) :
    Prop :=
  Chain HashNodeEle.nextEle (fun pr n => n.prevEle = pr) eles none p chain tl none

end GroundDB
