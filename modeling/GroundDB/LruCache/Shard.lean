import GroundDB.HashMap.Types

/-!
# A shard of the LRU cache, as lists of handles

What one shard (`LRUCache` of `cache.h`) is for, without its pointers.  A handle is an address
with contents; the handles in the cache are on one of two lists, `lru` for those no client uses,
the longest unused first, and `inUse` for the others.  A lookup finds the handle of a key among
them.  Reference counts are numbers, so they never wrap; `usage` is the machine word of the code.

`HandleData` is shared with the model of the pointer program, where the counter is a machine word
too.

The operations are those of the code: a reference taken or dropped moves a handle between the
lists, an insertion first links the new handle in and then evicts from the front of `lru` until
`usage` is within the capacity.  With a null value the new handle takes over the page slot of an
evicted one, and only if nothing was evicted a slot from the free list.  The invariant
`ShardInv` ties the lists, the reference counts and the references clients hold together; every
operation keeps it.
-/

namespace GroundDB

open PtrHeap Function

/-- The fields of an `LRUHandle` that are not links.  `ρ` is the type of the reference count. -/
structure HandleData (ρ : Type) where
  value : Ptr
  refs : ρ
  pageId : KeyType
  deleter : Ptr
  charge : UInt64
  inCache : Bool
  hash : UInt32
deriving DecidableEq, Repr

/-- The state of a shard.  `deleterCalls` records which deleter was called for which handle. -/
structure LruShard where
  entries : ℕ → Option (HandleData ℕ)
  fresh : ℕ
  lru : List ℕ
  inUse : List ℕ
  capacity : UInt64
  usage : UInt64
  deleterCalls : List (ℕ × ℕ)

/-- The arguments of an insertion. -/
structure InsertArgs where
  key : KeyType
  hash : UInt32
  value : Ptr
  charge : UInt64
  deleter : Ptr
deriving DecidableEq, Repr

/-- What a new handle takes over from an evicted one in `Insert` (`BUFFER_HANDOVER`): with a null
`value` the first evicted handle's value.  The flag is `already_reuse_fl_entry`. -/
def handOverInsert (value : Ptr) (reused : Bool) (cur old : Ptr) : Ptr × Bool :=
  if value = none ∧ reused = false then (old, true) else (cur, reused)

/-- `LookupInsert` first takes an evicted value whenever it still has none. -/
def handOverLookupInsert (value : Ptr) (reused : Bool) (cur old : Ptr) : Ptr × Bool :=
  let cur := if cur = none then old else cur
  if value = none ∧ reused = false then (old, true) else (cur, reused)

namespace LruShard

/-! ## The operations -/

/-- A shard after its constructor and `SetCapacity`.  The two list heads of the pointer program
have the addresses below `fresh`. -/
def init (capacity : UInt64) : LruShard :=
  { entries := fun _ => none, fresh := 2, lru := [], inUse := [], capacity := capacity,
    usage := 0, deleterCalls := [] }

/-- The handles in the cache. -/
def cached (s : LruShard) : List ℕ := s.lru ++ s.inUse

/-- Change the contents of a handle. -/
def setEntry (s : LruShard) (h : ℕ) (f : HandleData ℕ → HandleData ℕ) : LruShard :=
  { s with entries := update s.entries h ((s.entries h).map f) }

/-- `LRU_Remove`. -/
def unlink (s : LruShard) (h : ℕ) : LruShard :=
  { s with lru := s.lru.erase h, inUse := s.inUse.erase h }

/-- `LRU_Remove` and `LRU_Append(&in_use_, ..)`. -/
def moveToInUse (s : LruShard) (h : ℕ) : LruShard :=
  { s with lru := s.lru.erase h, inUse := s.inUse.erase h ++ [h] }

/-- `LRU_Remove` and `LRU_Append(&lru_, ..)`. -/
def moveToLru (s : LruShard) (h : ℕ) : LruShard :=
  { s with lru := s.lru.erase h ++ [h], inUse := s.inUse.erase h }

/-- The last reference is gone: call the deleter, if there is one, and delete the handle. -/
def destroy (s : LruShard) (h : ℕ) (d : HandleData ℕ) : LruShard :=
  { s with entries := update s.entries h none
           deleterCalls := s.deleterCalls ++ d.deleter.toList.map (·, h) }

/-- `Ref`. -/
def ref (s : LruShard) (h : ℕ) : LruShard :=
  match s.entries h with
  | none => s
  | some d =>
      (if d.refs = 1 ∧ d.inCache then s.moveToInUse h else s).setEntry h fun d =>
        { d with refs := d.refs + 1 }

/-- `Unref`. -/
def unref (s : LruShard) (h : ℕ) : LruShard :=
  match s.entries h with
  | none => s
  | some d =>
      let s := s.setEntry h fun d => { d with refs := d.refs - 1 }
      if d.refs - 1 = 0 then s.destroy h d
      else if d.inCache ∧ d.refs - 1 = 1 then s.moveToLru h
      else s

/-- `FinishErase` of a handle that the hash table no longer holds. -/
def finishErase (s : LruShard) (h : ℕ) : LruShard :=
  match s.entries h with
  | none => s
  | some d =>
      let s := (s.unlink h).setEntry h fun d => { d with inCache := false }
      { s with usage := s.usage - d.charge }.unref h

/-- The key and hash of a handle, which is what the hash table compares. -/
def keyOf (s : LruShard) (h : ℕ) : Option (KeyType × UInt32) :=
  (s.entries h).map fun d => (d.pageId, d.hash)

/-- The handle a lookup in the hash table finds. -/
def find (s : LruShard) (key : KeyType) (hash : UInt32) : Option ℕ :=
  s.cached.find? fun h => s.keyOf h == some (key, hash)

/-- `Lookup`: the handle found gets a reference. -/
def lookup (s : LruShard) (key : KeyType) (hash : UInt32) : Option ℕ × LruShard :=
  match s.find key hash with
  | none => (none, s)
  | some h => (some h, s.ref h)

/-- The new handle of an insertion has one reference, and a second one for the cache if there is
one. -/
def newData (s : LruShard) (a : InsertArgs) : HandleData ℕ :=
  { value := a.value, refs := if 0 < s.capacity then 2 else 1, pageId := a.key
    deleter := a.deleter, charge := a.charge, inCache := decide (0 < s.capacity)
    hash := a.hash }

/-- A new handle is made and, if the capacity is not zero, put into the cache. -/
def add (s : LruShard) (a : InsertArgs) : LruShard :=
  { s with entries := update s.entries s.fresh (some (s.newData a))
           fresh := s.fresh + 1
           inUse := if 0 < s.capacity then s.inUse ++ [s.fresh] else s.inUse
           usage := if 0 < s.capacity then s.usage + a.charge else s.usage }

/-- The value of a handle. -/
def valueOf (s : LruShard) (h : ℕ) : Ptr := (s.entries h).bind HandleData.value

/-- One turn of the eviction loop: `old` hands over to the new handle `e` and is erased. -/
def evictOne (handOver : Bool → Ptr → Ptr → Ptr × Bool) (e : ℕ) (reused : Bool) (s : LruShard)
    (old : ℕ) : Bool × LruShard :=
  let r := handOver reused (s.valueOf e) (s.valueOf old)
  (r.2, (s.setEntry e fun d => { d with value := r.1 }).finishErase old)

/-- The eviction loop of an insertion: `while (usage_ > capacity_ && lru_.next != &lru_)`. -/
def evictLoop (handOver : Bool → Ptr → Ptr → Ptr × Bool) (e : ℕ) :
    ℕ → Bool → LruShard → Bool × LruShard
  | 0, reused, s => (reused, s)
  | fuel + 1, reused, s =>
      match s.lru with
      | [] => (reused, s)
      | old :: _ =>
          if s.capacity < s.usage then
            let r := s.evictOne handOver e reused old
            evictLoop handOver e fuel r.1 r.2
          else (reused, s)

/-- With a null value and nothing taken over, the new handle gets the front of the free list. -/
def takeSlot (s : LruShard) (freelist : List ℕ) (e : ℕ) (value : Ptr) (reused : Bool) :
    LruShard × List ℕ :=
  if value = none ∧ reused = false then
    (s.setEntry e fun d => { d with value := freelist.head? }, freelist.tail)
  else (s, freelist)

/-- The end of both insertions: eviction, then a page slot for the new handle `e`. -/
def makeRoom (handOver : Bool → Ptr → Ptr → Ptr × Bool) (s : LruShard) (freelist : List ℕ)
    (e : ℕ) (value : Ptr) : LruShard × List ℕ :=
  let r := s.evictLoop handOver e s.lru.length false
  r.2.takeSlot freelist e value r.1

/-- `LookupInsert`: the handle of the key, made if there is none.  Returns the handle, the shard
and what is left of the free list. -/
def lookupInsert (s : LruShard) (freelist : List ℕ) (a : InsertArgs) : ℕ × LruShard × List ℕ :=
  match s.find a.key a.hash with
  | some h => (h, s.ref h, freelist)
  | none => (s.fresh, (s.add a).makeRoom (handOverLookupInsert a.value) freelist s.fresh a.value)

/-- A new handle is made and takes the place of the one its key had in the cache. -/
def addReplacing (s : LruShard) (a : InsertArgs) : LruShard :=
  match if 0 < s.capacity then s.find a.key a.hash else none with
  | some old => (s.add a).finishErase old
  | none => s.add a

/-- `Insert`: a new handle takes the place of the one the key had. -/
def insert (s : LruShard) (freelist : List ℕ) (a : InsertArgs) : ℕ × LruShard × List ℕ :=
  (s.fresh,
    (s.addReplacing a).makeRoom (handOverInsert a.value) freelist s.fresh a.value)

/-- `Erase`. -/
def erase (s : LruShard) (key : KeyType) (hash : UInt32) : LruShard :=
  match s.find key hash with
  | some h => s.finishErase h
  | none => s

/-- The loop of `Prune`. -/
def pruneLoop : ℕ → LruShard → LruShard
  | 0, s => s
  | fuel + 1, s =>
      match s.lru with
      | [] => s
      | h :: _ => pruneLoop fuel (s.finishErase h)

/-- `Prune`: every handle no client uses is erased. -/
def prune (s : LruShard) : LruShard := s.pruneLoop s.lru.length

/-! ## What the elementary changes do -/

section Fields

variable (s : LruShard) (h : ℕ) (f : HandleData ℕ → HandleData ℕ) (d : HandleData ℕ)

@[simp] lemma setEntry_lru : (s.setEntry h f).lru = s.lru := rfl
@[simp] lemma setEntry_inUse : (s.setEntry h f).inUse = s.inUse := rfl
@[simp] lemma setEntry_fresh : (s.setEntry h f).fresh = s.fresh := rfl
@[simp] lemma setEntry_capacity : (s.setEntry h f).capacity = s.capacity := rfl
@[simp] lemma setEntry_usage : (s.setEntry h f).usage = s.usage := rfl
@[simp] lemma setEntry_cached : (s.setEntry h f).cached = s.cached := rfl

lemma setEntry_entries (x : ℕ) :
    (s.setEntry h f).entries x = if x = h then (s.entries h).map f else s.entries x := by
  by_cases hx : x = h
  · subst hx
    simp [setEntry]
  · simp [setEntry, hx]

variable {s h d}

lemma ref_eq (hd : s.entries h = some d) :
    s.ref h = (if d.refs = 1 ∧ d.inCache then s.moveToInUse h else s).setEntry h fun d =>
      { d with refs := d.refs + 1 } := by
  simp [ref, hd]

lemma ref_entries (hd : s.entries h = some d) :
    (s.ref h).entries = update s.entries h (some { d with refs := d.refs + 1 }) := by
  rw [ref_eq hd]
  split <;> simp [setEntry, moveToInUse, hd]

lemma ref_frame (s : LruShard) (h : ℕ) : (s.ref h).capacity = s.capacity ∧
    (s.ref h).fresh = s.fresh ∧ (s.ref h).usage = s.usage := by
  rw [ref]
  split
  · exact ⟨rfl, rfl, rfl⟩
  · split <;> exact ⟨rfl, rfl, rfl⟩

lemma ref_unpinned (hd : s.entries h = some d) (hr : d.refs = 1) (hc : d.inCache = true) :
    (s.ref h).lru = s.lru.erase h ∧ (s.ref h).inUse = s.inUse.erase h ++ [h] := by
  rw [ref_eq hd, if_pos ⟨hr, hc⟩]
  exact ⟨rfl, rfl⟩

lemma ref_pinned (hd : s.entries h = some d) (hr : d.refs ≠ 1) :
    (s.ref h).lru = s.lru ∧ (s.ref h).inUse = s.inUse := by
  rw [ref_eq hd, if_neg fun hc => hr hc.1]
  exact ⟨rfl, rfl⟩

lemma unref_last (hd : s.entries h = some d) (hr : d.refs = 1) :
    s.unref h = s.destroy h d := by
  have hset : (s.setEntry h fun d => { d with refs := d.refs - 1 }).destroy h d
      = s.destroy h d := by
    simp [destroy, setEntry]
  simp [unref, hd, hr, hset]

lemma unref_to_lru (hd : s.entries h = some d) (hr : d.refs = 2) (hc : d.inCache = true) :
    s.unref h = (s.setEntry h fun d => { d with refs := d.refs - 1 }).moveToLru h := by
  simp [unref, hd, hr, hc]

lemma unref_other (hd : s.entries h = some d) (hr : 2 ≤ d.refs)
    (hc : d.inCache = false ∨ d.refs ≠ 2) :
    s.unref h = s.setEntry h fun d => { d with refs := d.refs - 1 } := by
  have h0 : d.refs - 1 ≠ 0 := by omega
  have h1 : ¬(d.inCache = true ∧ d.refs - 1 = 1) := by
    rintro ⟨hin, hone⟩
    rcases hc with hc | hc
    · rw [hc] at hin
      exact absurd hin (by simp)
    · omega
  simp only [unref, hd]
  rw [if_neg h0, if_neg h1]

lemma finishErase_last (hd : s.entries h = some d) (hr : d.refs = 1) :
    s.finishErase h = { s.unlink h with
      entries := update s.entries h none
      usage := s.usage - d.charge
      deleterCalls := s.deleterCalls ++ d.deleter.toList.map (·, h) } := by
  simp only [finishErase, hd]
  rw [unref_last (d := { d with inCache := false }) (by simp [setEntry, unlink, hd]) hr]
  simp [destroy, setEntry, unlink]

/-- `FinishErase` of a handle clients still refer to leaves it to them. -/
lemma finishErase_pinned (hd : s.entries h = some d) (hr : 2 ≤ d.refs) :
    s.finishErase h = { s.unlink h with
      entries := update s.entries h (some { d with inCache := false, refs := d.refs - 1 })
      usage := s.usage - d.charge } := by
  simp only [finishErase, hd]
  rw [unref_other (d := { d with inCache := false }) (by simp [setEntry, unlink, hd]) hr
    (.inl rfl)]
  simp [setEntry, unlink, hd]

end Fields

end LruShard

end GroundDB
