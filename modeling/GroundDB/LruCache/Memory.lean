import GroundDB.Lib.Links
import GroundDB.LruCache.ShardOps

/-!
# The pointer program of a shard: its two circular lists

The state of an `LRUCache` with its `LRUHandle` objects in memory.  Memory is kept field by field:
`next a` is the field `next` of the handle at the address `a`, and `live a` says that there is a
handle at `a`.  The two list heads `lru_` and `in_use_` are handles as well, at fixed addresses.
Reading or writing a field through a null pointer, or of a handle that was deleted, has no result;
neither has a loop that does not end.

`LRU_Remove` and `LRU_Append` do the four pointer assignments of the source.  `ListsRep` relates
the memory to the shard of lists: the two rings are its two lists and the contents of the handles
are its entries.  Each function on the lists is shown to keep the relation and to do in memory
what its counterpart does to the lists, as long as no reference count overflows.
-/

namespace GroundDB

open PtrHeap Links Function LruShard

/-- `HandleTable`: an array of buckets, each the first handle of a chain along `next_hash`. -/
structure HandleTable where
  length : UInt32
  elems : UInt32
  list : ℕ → Ptr

/-- `LRUCache` with the handles in memory and the free list it takes page slots from. -/
structure LRUCache where
  live : ℕ → Bool
  fresh : ℕ
  data : ℕ → HandleData UInt32
  next : ℕ → Ptr
  prev : ℕ → Ptr
  nextHash : ℕ → Ptr
  table : HandleTable
  capacity : UInt64
  usage : UInt64
  freelist : List ℕ
  deleterCalls : List (ℕ × ℕ)

/-- The address of the list head `lru_`. -/
def lruHead : ℕ := 0

/-- The address of the list head `in_use_`. -/
def inUseHead : ℕ := 1

/-- A computation on a shard that may run into an invalid access or not end. -/
abbrev ShardM := StateT LRUCache Option

namespace LRUCache

/-! ## Memory accesses -/

/-- The address a pointer refers to, if there is a handle. -/
def deref (p : Ptr) : ShardM ℕ := fun c =>
  match p with
  | some a => if c.live a then some (a, c) else none
  | none => none

def getNext (p : Ptr) : ShardM Ptr := do
  let a ← deref p
  return (← get).next a

def getPrev (p : Ptr) : ShardM Ptr := do
  let a ← deref p
  return (← get).prev a

def getNextHash (p : Ptr) : ShardM Ptr := do
  let a ← deref p
  return (← get).nextHash a

def getData (p : Ptr) : ShardM (HandleData UInt32) := do
  let a ← deref p
  return (← get).data a

def setNext (p v : Ptr) : ShardM Unit := do
  let a ← deref p
  modify fun c => { c with next := update c.next a v }

def setPrev (p v : Ptr) : ShardM Unit := do
  let a ← deref p
  modify fun c => { c with prev := update c.prev a v }

def setNextHash (p v : Ptr) : ShardM Unit := do
  let a ← deref p
  modify fun c => { c with nextHash := update c.nextHash a v }

/-- The memory after an assignment to the contents of the handle at `a`. -/
def putData (c : LRUCache) (a : ℕ) (d : HandleData UInt32) : LRUCache :=
  { c with data := update c.data a d }

def setData (p : Ptr) (f : HandleData UInt32 → HandleData UInt32) : ShardM Unit := do
  let a ← deref p
  modify fun c => c.putData a (f (c.data a))

/-- `new LRUHandle()`: its address was never used before. -/
def newHandle (d : HandleData UInt32) : ShardM ℕ := do
  let c ← get
  set { c with live := update c.live c.fresh true, fresh := c.fresh + 1
               data := update c.data c.fresh d }
  return c.fresh

/-- `delete e`. -/
def deleteHandle (a : ℕ) : ShardM Unit :=
  modify fun c => { c with live := update c.live a false }

section Access

variable {c : LRUCache} {a : ℕ} {v : Ptr}

@[simp] lemma run_deref (h : c.live a = true) : (deref (some a)).run c = some (a, c) := by
  simp [deref, StateT.run, h]

@[simp] lemma run_getNext (h : c.live a = true) :
    (getNext (some a)).run c = some (c.next a, c) := by
  simp [getNext, h]

@[simp] lemma run_getPrev (h : c.live a = true) :
    (getPrev (some a)).run c = some (c.prev a, c) := by
  simp [getPrev, h]

@[simp] lemma run_getNextHash (h : c.live a = true) :
    (getNextHash (some a)).run c = some (c.nextHash a, c) := by
  simp [getNextHash, h]

@[simp] lemma run_getData (h : c.live a = true) :
    (getData (some a)).run c = some (c.data a, c) := by
  simp [getData, h]

@[simp] lemma run_setNext (h : c.live a = true) : (setNext (some a) v).run c =
    some ((), { c with next := update c.next a v }) := by
  simp [setNext, h]

@[simp] lemma run_setPrev (h : c.live a = true) : (setPrev (some a) v).run c =
    some ((), { c with prev := update c.prev a v }) := by
  simp [setPrev, h]

@[simp] lemma run_setNextHash (h : c.live a = true) : (setNextHash (some a) v).run c =
    some ((), { c with nextHash := update c.nextHash a v }) := by
  simp [setNextHash, h]

@[simp] lemma run_setData {f : HandleData UInt32 → HandleData UInt32} (h : c.live a = true) :
    (setData (some a) f).run c = some ((), c.putData a (f (c.data a))) := by
  simp [setData, h]

variable {d : HandleData UInt32}

@[simp] lemma putData_live : (c.putData a d).live = c.live := rfl
@[simp] lemma putData_next : (c.putData a d).next = c.next := rfl
@[simp] lemma putData_prev : (c.putData a d).prev = c.prev := rfl
@[simp] lemma putData_nextHash : (c.putData a d).nextHash = c.nextHash := rfl
@[simp] lemma putData_table : (c.putData a d).table = c.table := rfl
@[simp] lemma putData_usage : (c.putData a d).usage = c.usage := rfl
@[simp] lemma putData_data_self : (c.putData a d).data a = d := update_self ..

lemma putData_data_of_ne {b : ℕ} (hb : b ≠ a) : (c.putData a d).data b = c.data b :=
  update_of_ne hb _ _

end Access

/-! ## The functions on the lists -/

/-- `LRU_Remove`. -/
def lruRemove (e : ℕ) : ShardM Unit := do
  -- e->next->prev = e->prev; e->prev->next = e->next
  setPrev (← getNext (some e)) (← getPrev (some e))
  setNext (← getPrev (some e)) (← getNext (some e))

/-- `LRU_Append`: the newest entry is inserted just before the list head. -/
def lruAppend (list e : ℕ) : ShardM Unit := do
  setNext (some e) (some list)
  setPrev (some e) (← getPrev (some list))
  setNext (← getPrev (some e)) (some e)
  setPrev (← getNext (some e)) (some e)

/-- `e->refs++`. -/
def incRefs (d : HandleData UInt32) : HandleData UInt32 := { d with refs := d.refs + 1 }

/-- `e->refs--`. -/
def decRefs (d : HandleData UInt32) : HandleData UInt32 := { d with refs := d.refs - 1 }

/-- `e->in_cache = false`. -/
def uncache (d : HandleData UInt32) : HandleData UInt32 := { d with inCache := false }

/-- `Ref`. -/
def ref (e : ℕ) : ShardM Unit := do
  let d ← getData (some e)
  if d.refs = 1 ∧ d.inCache then
    lruRemove e
    lruAppend inUseHead e
  setData (some e) incRefs

/-- `Unref`. -/
def unref (e : ℕ) : ShardM Unit := do
  setData (some e) decRefs
  let d ← getData (some e)
  if d.refs = 0 then
    modify fun c => { c with
      deleterCalls := c.deleterCalls ++ d.deleter.toList.map (·, e) }
    deleteHandle e
  else if d.inCache ∧ d.refs = 1 then
    lruRemove e
    lruAppend lruHead e

/-- `FinishErase`: returns whether there was a handle. -/
def finishErase (p : Ptr) : ShardM Bool :=
  match p with
  | none => return false
  | some e => do
      lruRemove e
      setData (some e) uncache
      let d ← getData (some e)
      modify fun c => { c with usage := c.usage - d.charge }
      unref e
      return true

/-! ## Memory and lists -/

/-- The contents of a handle with the counter as a number. -/
def count (d : HandleData UInt32) : HandleData ℕ := { d with refs := d.refs.toNat }

/-- What lives in memory, the two list heads apart. -/
def entry (c : LRUCache) (a : ℕ) : Option (HandleData ℕ) :=
  if 2 ≤ a ∧ c.live a = true then some (count (c.data a)) else none

/-- The memory of `c` holds the shard `s`: the rings at the two heads are its lists. -/
structure ListsRep (c : LRUCache) (s : LruShard) : Prop where
  lru : Ring c.next c.prev lruHead s.lru
  inUse : Ring c.next c.prev inUseHead s.inUse
  disjoint : ∀ a ∈ lruHead :: s.lru, a ∉ inUseHead :: s.inUse
  live : ∀ a ∈ lruHead :: inUseHead :: s.cached, c.live a = true
  handle : ∀ a ∈ s.cached, 2 ≤ a
  entries : ∀ a, s.entries a = c.entry a
  fresh : c.fresh = s.fresh
  capacity : c.capacity = s.capacity
  usage : c.usage = s.usage
  deleterCalls : c.deleterCalls = s.deleterCalls

/-- Two states that agree on all the hash table depends on. -/
structure SameTable (c' c : LRUCache) : Prop where
  table : c'.table = c.table
  nextHash : c'.nextHash = c.nextHash
  key : ∀ a, (c'.data a).hash = (c.data a).hash ∧ (c'.data a).pageId = (c.data a).pageId
  freelist : c'.freelist = c.freelist
  fresh : c'.fresh = c.fresh

lemma SameTable.trans {c₁ c₂ c₃ : LRUCache} (h₁ : SameTable c₁ c₂) (h₂ : SameTable c₂ c₃) :
    SameTable c₁ c₃ :=
  ⟨h₁.table.trans h₂.table, h₁.nextHash.trans h₂.nextHash,
    fun a => ⟨(h₁.key a).1.trans (h₂.key a).1, (h₁.key a).2.trans (h₂.key a).2⟩,
    h₁.freelist.trans h₂.freelist, h₁.fresh.trans h₂.fresh⟩

variable {c : LRUCache} {s : LruShard} {e : ℕ}

lemma ListsRep.live_of_mem (hr : ListsRep c s) (he : e ∈ s.cached) : c.live e = true :=
  hr.live e (by simp [he])

lemma ListsRep.entry_of_mem (hr : ListsRep c s) (he : e ∈ s.cached) :
    s.entries e = some (count (c.data e)) := by
  rw [hr.entries, entry, if_pos ⟨hr.handle e he, hr.live_of_mem he⟩]

lemma ListsRep.nodup (hr : ListsRep c s) : s.cached.Nodup :=
  List.nodup_append.mpr ⟨(List.nodup_cons.mp hr.lru.nodup).2, (List.nodup_cons.mp hr.inUse.nodup).2,
    fun a ha _ hb hab =>
      hr.disjoint a (List.mem_cons_of_mem _ ha) (List.mem_cons_of_mem _ (hab ▸ hb))⟩

lemma ListsRep.node_live (hr : ListsRep c s) {a : ℕ}
    (ha : a ∈ lruHead :: s.lru ∨ a ∈ inUseHead :: s.inUse) : c.live a = true := by
  refine hr.live a ?_
  simp only [LruShard.cached, List.mem_cons, List.mem_append] at ha ⊢
  tauto

lemma run_lruRemove {n p : ℕ} (he : c.live e = true) (hn : c.next e = some n)
    (hp : c.prev e = some p) (hln : c.live n = true) (hlp : c.live p = true) (hne : n ≠ e) :
    (lruRemove e).run c = some ((), { c with
      prev := update c.prev n (some p), next := update c.next p (some n) }) := by
  simp [lruRemove, he, hn, hp, hln, hlp, update_of_ne hne.symm]

lemma run_lruAppend {list p : ℕ} (he : c.live e = true) (hl : c.live list = true)
    (hp : c.prev list = some p) (hlp : c.live p = true) (hpe : p ≠ e) :
    (lruAppend list e).run c = some ((), { c with
      next := update (update c.next e (some list)) p (some e)
      prev := update (update c.prev e (some p)) list (some e) }) := by
  simp [lruAppend, he, hl, hp, hlp, update_of_ne hpe.symm]

/-- One ring loses a node; the other, which shares none of its nodes, stays. -/
lemma rings_remove {nx pv : ℕ → Ptr} {hd hd' : ℕ} {l l' : List ℕ} (hr : Ring nx pv hd l)
    (hr' : Ring nx pv hd' l') (hdis : ∀ a ∈ hd :: l, a ∉ hd' :: l') (he : e ∈ l) :
    ∃ p n, pv e = some p ∧ nx e = some n ∧ p ∈ hd :: l ∧ n ∈ hd :: l ∧ n ≠ e ∧
      Ring (update nx p (some n)) (update pv n (some p)) hd (l.erase e) ∧
      Ring (update nx p (some n)) (update pv n (some p)) hd' l' := by
  obtain ⟨p, n, hp, hn, hpm, hnm, -, hne⟩ := hr.neighbours he
  refine ⟨p, n, hp, hn, hpm, hnm, hne, ?_, hr'.congr ?_ ?_⟩
  · obtain ⟨l₁, l₂, rfl⟩ := List.append_of_mem he
    have hnot : e ∉ l₁ := by
      have hnd := hr.nodup
      rw [List.nodup_cons, List.nodup_append] at hnd
      intro hmem
      exact hnd.2.2.2 e hmem e List.mem_cons_self rfl
    rw [List.erase_append_right _ hnot, List.erase_cons_head]
    exact hr.remove hp hn
  · intro y hy
    refine update_of_ne ?_ _ _
    rintro rfl
    exact hdis y hpm hy
  · intro y hy
    refine update_of_ne ?_ _ _
    rintro rfl
    exact hdis y hnm hy

/-- Where the rings hold other lists of live handles, memory holds the shard with these lists. -/
lemma ListsRep.relink {nx pv : ℕ → Ptr} {l u : List ℕ} (hr : ListsRep c s)
    (hlru : Ring nx pv lruHead l) (hinUse : Ring nx pv inUseHead u) (hnd : (l ++ u).Nodup)
    (hmem : ∀ a ∈ l ++ u, 2 ≤ a ∧ c.live a = true) :
    ListsRep { c with next := nx, prev := pv } { s with lru := l, inUse := u } := by
  have hge : ∀ a ∈ l ++ u, a ≠ lruHead ∧ a ≠ inUseHead := by
    intro a ha
    have := (hmem a ha).1
    simp only [lruHead, inUseHead]
    omega
  refine ⟨hlru, hinUse, ?_, ?_, fun a ha => (hmem a ha).1, hr.entries, hr.fresh, hr.capacity,
    hr.usage, hr.deleterCalls⟩
  · intro a ha hmem
    rcases List.mem_cons.mp ha with rfl | ha <;> rcases List.mem_cons.mp hmem with h | hu
    · exact absurd h (by decide)
    · exact (hge _ (List.mem_append_right l hu)).1 rfl
    · exact (hge a (List.mem_append_left u ha)).2 h
    · exact (List.nodup_append.mp hnd).2.2 a ha a hu rfl
  · intro a ha
    rcases List.mem_cons.mp ha with rfl | ha
    · exact hr.live _ (by simp)
    · rcases List.mem_cons.mp ha with rfl | ha
      · exact hr.live _ (by simp)
      · exact (hmem a ha).2

lemma ListsRep.unlink {nx pv : ℕ → Ptr} (hr : ListsRep c s)
    (hlru : Ring nx pv lruHead (s.lru.erase e)) (hinUse : Ring nx pv inUseHead (s.inUse.erase e)) :
    ListsRep { c with next := nx, prev := pv } (s.unlink e) := by
  have hsub := List.Sublist.append (List.erase_sublist (a := e) (l := s.lru))
    (List.erase_sublist (a := e) (l := s.inUse))
  exact hr.relink hlru hinUse (hr.nodup.sublist hsub) fun a ha =>
    ⟨hr.handle a (hsub.subset ha), hr.live_of_mem (hsub.subset ha)⟩

lemma ListsRep.link {nx pv : ℕ → Ptr} {l u : List ℕ} (hr : ListsRep c s) (he : 2 ≤ e)
    (hlive : c.live e = true) (hnot : e ∉ s.cached) (hlru : Ring nx pv lruHead l)
    (hinUse : Ring nx pv inUseHead u) (hperm : (l ++ u).Perm (e :: s.cached)) :
    ListsRep { c with next := nx, prev := pv } { s with lru := l, inUse := u } := by
  refine hr.relink hlru hinUse
    (hperm.nodup_iff.mpr (List.nodup_cons.mpr ⟨hnot, hr.nodup⟩)) fun a ha => ?_
  rcases List.mem_cons.mp (hperm.mem_iff.mp ha) with rfl | ha
  · exact ⟨he, hlive⟩
  · exact ⟨hr.handle a ha, hr.live_of_mem ha⟩

lemma not_mem_unlink (hr : ListsRep c s) : e ∉ (s.unlink e).cached := by
  have hnd := List.nodup_append.mp hr.nodup
  rw [mem_cached, not_or]
  exact ⟨hnd.1.not_mem_erase, hnd.2.1.not_mem_erase⟩

/-- **`LRU_Remove`** takes a cached handle off its list. -/
lemma lruRemove_rep (hr : ListsRep c s) (he : e ∈ s.cached) :
    ∃ c', (lruRemove e).run c = some ((), c') ∧ ListsRep c' (s.unlink e) ∧
      c'.live = c.live ∧ c'.data = c.data ∧ SameTable c' c := by
  have hlive := hr.live_of_mem he
  have hsame : ∀ nx pv : ℕ → Ptr, SameTable { c with next := nx, prev := pv } c :=
    fun _ _ => ⟨rfl, rfl, fun _ => ⟨rfl, rfl⟩, rfl, rfl⟩
  -- the handle is on one list, and erasing it from the other changes nothing
  rcases mem_cached.mp he with hl | hu
  · have hnot : e ∉ s.inUse := fun hmem =>
      hr.disjoint e (List.mem_cons_of_mem _ hl) (List.mem_cons_of_mem _ hmem)
    obtain ⟨p, n, hp, hn, hpm, hnm, hne, hring, hother⟩ :=
      rings_remove hr.lru hr.inUse hr.disjoint hl
    refine ⟨_, run_lruRemove hlive hn hp (hr.node_live (.inl hnm)) (hr.node_live (.inl hpm)) hne,
      hr.unlink hring ?_, rfl, rfl, hsame _ _⟩
    rwa [List.erase_of_not_mem hnot]
  · have hnot : e ∉ s.lru := fun hmem =>
      hr.disjoint e (List.mem_cons_of_mem _ hmem) (List.mem_cons_of_mem _ hu)
    obtain ⟨p, n, hp, hn, hpm, hnm, hne, hring, hother⟩ :=
      rings_remove hr.inUse hr.lru (fun a ha ha' => hr.disjoint a ha' ha) hu
    refine ⟨_, run_lruRemove hlive hn hp (hr.node_live (.inr hnm)) (hr.node_live (.inr hpm)) hne,
      hr.unlink ?_ hring, rfl, rfl, hsame _ _⟩
    rwa [List.erase_of_not_mem hnot]

/-- One ring gets a node that is on neither; the other ring stays. -/
lemma rings_append {nx pv : ℕ → Ptr} {hd hd' : ℕ} {l l' : List ℕ} (hr : Ring nx pv hd l)
    (hr' : Ring nx pv hd' l') (hdis : ∀ a ∈ hd :: l, a ∉ hd' :: l') (he : e ∉ hd :: l)
    (he' : e ∉ hd' :: l') :
    ∃ p, pv hd = some p ∧ p ∈ hd :: l ∧ p ≠ e ∧
      Ring (update (update nx e (some hd)) p (some e))
        (update (update pv e (some p)) hd (some e)) hd (l ++ [e]) ∧
      Ring (update (update nx e (some hd)) p (some e))
        (update (update pv e (some p)) hd (some e)) hd' l' := by
  obtain ⟨p, hpm, hp, -⟩ := hr.linked.pred
  have hpe : p ≠ e := by
    rintro rfl
    exact he hpm
  have hhd : hd ≠ e := by
    rintro rfl
    exact he List.mem_cons_self
  refine ⟨p, hp, hpm, hpe, hr.append he hp ?_ ?_ ?_ ?_ ?_, hr'.congr ?_ ?_⟩
  · intro y hy
    by_cases hyp : y = p
    · rw [hyp, update_self, update_self]
    · rw [update_of_ne hyp, update_of_ne hyp, update_of_ne]
      rintro rfl
      exact he hy
  · intro y hy
    rw [update_of_ne, update_of_ne]
    · rintro rfl
      exact he (List.mem_cons_of_mem _ hy)
    · rintro rfl
      exact (List.nodup_cons.mp hr.nodup).1 hy
  · rw [update_of_ne hpe.symm, update_self]
  · rw [update_of_ne hhd.symm, update_self]
  · exact update_self ..
  · intro y hy
    rw [update_of_ne, update_of_ne]
    · rintro rfl
      exact he' hy
    · rintro rfl
      exact hdis y hpm hy
  · intro y hy
    rw [update_of_ne, update_of_ne]
    · rintro rfl
      exact he' hy
    · rintro rfl
      exact hdis y List.mem_cons_self hy

lemma ListsRep.not_mem_rings (he : 2 ≤ e) (hnot : e ∉ s.cached) :
    e ∉ lruHead :: s.lru ∧ e ∉ inUseHead :: s.inUse := by
  rw [mem_cached, not_or] at hnot
  simp only [List.mem_cons, not_or, lruHead, inUseHead]
  refine ⟨⟨?_, hnot.1⟩, ?_, hnot.2⟩ <;> omega

/-- **`LRU_Append`** to `in_use_`. -/
lemma lruAppend_inUse_rep (hr : ListsRep c s) (he : 2 ≤ e) (hlive : c.live e = true)
    (hnot : e ∉ s.cached) :
    ∃ c', (lruAppend inUseHead e).run c = some ((), c') ∧
      ListsRep c' { s with inUse := s.inUse ++ [e] } ∧
      c'.live = c.live ∧ c'.data = c.data ∧ SameTable c' c := by
  obtain ⟨hnl, hnu⟩ := ListsRep.not_mem_rings he hnot
  obtain ⟨p, hp, hpm, hpe, hring, hother⟩ :=
    rings_append hr.inUse hr.lru (fun a ha ha' => hr.disjoint a ha' ha) hnu hnl
  refine ⟨_, run_lruAppend hlive (hr.live _ (by simp)) hp (hr.node_live (.inr hpm)) hpe,
    hr.link he hlive hnot hother hring ?_, rfl, rfl, ⟨rfl, rfl, fun _ => ⟨rfl, rfl⟩, rfl, rfl⟩⟩
  rw [← List.append_assoc]
  exact List.perm_append_singleton e _

/-- **`LRU_Append`** to `lru_`. -/
lemma lruAppend_lru_rep (hr : ListsRep c s) (he : 2 ≤ e) (hlive : c.live e = true)
    (hnot : e ∉ s.cached) :
    ∃ c', (lruAppend lruHead e).run c = some ((), c') ∧
      ListsRep c' { s with lru := s.lru ++ [e] } ∧
      c'.live = c.live ∧ c'.data = c.data ∧ SameTable c' c := by
  obtain ⟨hnl, hnu⟩ := ListsRep.not_mem_rings he hnot
  obtain ⟨p, hp, hpm, hpe, hring, hother⟩ := rings_append hr.lru hr.inUse hr.disjoint hnl hnu
  refine ⟨_, run_lruAppend hlive (hr.live _ (by simp)) hp (hr.node_live (.inl hpm)) hpe,
    hr.link he hlive hnot hring hother ?_, rfl, rfl, ⟨rfl, rfl, fun _ => ⟨rfl, rfl⟩, rfl, rfl⟩⟩
  rw [List.append_assoc]
  exact List.perm_middle

lemma ListsRep.setData {f : HandleData UInt32 → HandleData UInt32}
    {g : HandleData ℕ → HandleData ℕ} (hr : ListsRep c s) (he : 2 ≤ e) (hlive : c.live e = true)
    (hfg : count (f (c.data e)) = g (count (c.data e))) :
    ListsRep (c.putData e (f (c.data e))) (s.setEntry e g) := by
  refine ⟨hr.lru, hr.inUse, hr.disjoint, hr.live, hr.handle, ?_, hr.fresh, hr.capacity, hr.usage,
    hr.deleterCalls⟩
  intro a
  rw [setEntry_entries]
  by_cases ha : a = e
  · subst ha
    rw [if_pos rfl, hr.entries]
    simp [entry, he, hlive, hfg]
  · rw [if_neg ha, hr.entries]
    simp [entry, putData_data_of_ne ha]

lemma sameTable_setData {d : HandleData UInt32} (hhash : d.hash = (c.data e).hash)
    (hkey : d.pageId = (c.data e).pageId) :
    SameTable (c.putData e d) c := by
  refine ⟨rfl, rfl, fun a => ?_, rfl, rfl⟩
  by_cases ha : a = e
  · subst ha
    simp [hhash, hkey]
  · simp [putData_data_of_ne ha]

/-- **`Ref`** of a cached handle, as long as its counter does not overflow. -/
theorem ref_rep (hr : ListsRep c s) (he : e ∈ s.cached) (hlt : (c.data e).refs.toNat + 1 < 2 ^ 32) :
    ∃ c', (ref e).run c = some ((), c') ∧ ListsRep c' (s.ref e) ∧ SameTable c' c := by
  have hlive := hr.live_of_mem he
  have hge := hr.handle e he
  have hinc : (c.data e).refs.toNat + 1 = ((c.data e).refs + 1).toNat := by
    rw [UInt32.toNat_add]
    simp only [UInt32.reduceToNat]
    omega
  have hone : (c.data e).refs = 1 ↔ (count (c.data e)).refs = 1 := by
    rw [← UInt32.toNat_inj]
    rfl
  rw [ref_eq (hr.entry_of_mem he)]
  by_cases hcond : (c.data e).refs = 1 ∧ (c.data e).inCache = true
  · have hcond' : (count (c.data e)).refs = 1 ∧ (count (c.data e)).inCache = true :=
      ⟨hone.mp hcond.1, hcond.2⟩
    rw [if_pos hcond']
    obtain ⟨c₁, hrun₁, hr₁, hl₁, hd₁, ht₁⟩ := lruRemove_rep hr he
    obtain ⟨c₂, hrun₂, hr₂, hl₂, hd₂, ht₂⟩ :=
      lruAppend_inUse_rep hr₁ hge (by rw [hl₁, hlive]) (not_mem_unlink hr)
    have hlive₂ : c₂.live e = true := by rw [hl₂, hl₁, hlive]
    have hdata : c₂.data e = c.data e := by rw [hd₂, hd₁]
    refine ⟨_, ?_, hr₂.setData (f := incRefs) hge hlive₂ ?_, ?_⟩
    · simp [ref, hlive, hcond, hrun₁, hrun₂, hlive₂]
    · simp only [count, incRefs, hdata, hinc]
    · refine SameTable.trans ?_ (ht₂.trans ht₁)
      exact sameTable_setData rfl rfl
  · have hcond' : ¬((count (c.data e)).refs = 1 ∧ (count (c.data e)).inCache = true) :=
      fun h => hcond ⟨hone.mpr h.1, h.2⟩
    rw [if_neg hcond']
    refine ⟨_, ?_, hr.setData (f := incRefs) hge hlive ?_, ?_⟩
    · simp [ref, hlive, hcond]
    · simp only [count, incRefs, hinc]
    · exact sameTable_setData rfl rfl

lemma ListsRep.destroy (hr : ListsRep c s) (he : 2 ≤ e) (hnot : e ∉ s.cached) (d : HandleData ℕ) :
    ListsRep { c with live := update c.live e false
                      deleterCalls := c.deleterCalls ++ d.deleter.toList.map (·, e) }
      (s.destroy e d) := by
  obtain ⟨hnl, hnu⟩ := ListsRep.not_mem_rings he hnot
  refine ⟨hr.lru, hr.inUse, hr.disjoint, ?_, hr.handle, ?_, hr.fresh, hr.capacity, hr.usage, ?_⟩
  · intro a ha
    have hne : a ≠ e := by
      rintro rfl
      simp only [List.mem_cons, not_or] at hnl hnu ha
      rcases ha with h | h | h
      · exact hnl.1 h
      · exact hnu.1 h
      · exact hnot h
    exact (update_of_ne hne _ _).trans (hr.live a ha)
  · intro a
    by_cases ha : a = e
    · subst ha
      simp [LruShard.destroy, entry]
    · simp [LruShard.destroy, entry, update_of_ne ha, hr.entries]
  · simp [LruShard.destroy, hr.deleterCalls]

/-- **`Unref`** of a live handle: it must not be on a list when its last reference goes, and must
be on one when only the cache's reference remains. -/
theorem unref_rep (hr : ListsRep c s) (he : 2 ≤ e) (hlive : c.live e = true)
    (hpos : 0 < (c.data e).refs.toNat) (hlast : (c.data e).refs.toNat = 1 → e ∉ s.cached)
    (hin : (c.data e).inCache = true → (c.data e).refs.toNat = 2 → e ∈ s.cached) :
    ∃ c', (unref e).run c = some ((), c') ∧ ListsRep c' (s.unref e) ∧ SameTable c' c := by
  have hent : s.entries e = some (count (c.data e)) := by
    rw [hr.entries, entry, if_pos ⟨he, hlive⟩]
  have hdec : ((c.data e).refs - 1).toNat = (c.data e).refs.toNat - 1 := by
    have hlt := (c.data e).refs.toNat_lt
    rw [UInt32.toNat_sub]
    simp only [UInt32.reduceToNat]
    omega
  have hzero : (c.data e).refs - 1 = 0 ↔ (c.data e).refs.toNat = 1 := by
    rw [← UInt32.toNat_inj, hdec]
    simp only [UInt32.reduceToNat]
    omega
  have hone : (c.data e).refs - 1 = 1 ↔ (c.data e).refs.toNat = 2 := by
    rw [← UInt32.toNat_inj, hdec]
    simp only [UInt32.reduceToNat]
    omega
  -- the state after the assignment to the counter
  set c₁ := c.putData e (decRefs (c.data e)) with hc₁
  have hr₁ : ListsRep c₁ (s.setEntry e fun d => { d with refs := d.refs - 1 }) := by
    refine hr.setData (f := decRefs) he hlive ?_
    simp only [count, decRefs, hdec]
  have ht₁ : SameTable c₁ c := sameTable_setData rfl rfl
  have hl₁ : c₁.live e = true := hlive
  have hd₁ : c₁.data e = decRefs (c.data e) := putData_data_self
  have hrefs₁ : (decRefs (c.data e)).refs = (c.data e).refs - 1 := rfl
  have hin₁ : (decRefs (c.data e)).inCache = (c.data e).inCache := rfl
  by_cases h1 : (c.data e).refs.toNat = 1
  · rw [unref_last hent h1]
    have hsame : (s.setEntry e fun d => { d with refs := d.refs - 1 }).destroy e
        (count (c.data e)) = s.destroy e (count (c.data e)) := by
      simp [LruShard.destroy, LruShard.setEntry]
    refine ⟨_, ?_, hsame ▸ hr₁.destroy he (hlast h1) (count (c.data e)), ?_⟩
    · have hdel : (decRefs (c.data e)).deleter = (count (c.data e)).deleter := rfl
      simp [unref, hlive, ← hc₁, hl₁, hd₁, hrefs₁, hdel, hzero.mpr h1, deleteHandle]
    · exact ⟨rfl, rfl, ht₁.key, rfl, rfl⟩
  · by_cases h2 : (c.data e).refs.toNat = 2 ∧ (c.data e).inCache = true
    · have hmem := hin h2.2 h2.1
      rw [unref_to_lru hent h2.1 h2.2]
      obtain ⟨c₂, hrun₂, hr₂, hl₂, hd₂, ht₂⟩ := lruRemove_rep hr₁ hmem
      obtain ⟨c₃, hrun₃, hr₃, hl₃, hd₃, ht₃⟩ := lruAppend_lru_rep hr₂ he (by rw [hl₂, hl₁])
        (not_mem_unlink hr₁)
      refine ⟨c₃, ?_, hr₃, ht₃.trans (ht₂.trans ht₁)⟩
      have hne : ¬(c.data e).refs - 1 = 0 := fun h => h1 (hzero.mp h)
      simp [unref, hlive, ← hc₁, hl₁, hd₁, hrefs₁, hin₁, hone.mpr h2.1, h2.2, hrun₂, hrun₃]
    · have hne : ¬(c.data e).refs - 1 = 0 := fun h => h1 (hzero.mp h)
      have hcond : ¬((c.data e).inCache = true ∧ (c.data e).refs - 1 = 1) :=
        fun h => h2 ⟨hone.mp h.2, h.1⟩
      refine ⟨_, ?_, ?_, ht₁⟩
      · simp [unref, hlive, ← hc₁, hl₁, hd₁, hrefs₁, hin₁, hne, hcond]
      · rw [unref_other hent]
        · exact hr₁
        · simp only [count]
          omega
        · by_cases hc : (c.data e).inCache = true
          · exact .inr fun h => h2 ⟨h, hc⟩
          · exact .inl (by simpa [count] using hc)

/-- **`FinishErase`** of a cached handle. -/
theorem finishErase_rep (hr : ListsRep c s) (hmem : e ∈ s.cached)
    (hpos : 0 < (c.data e).refs.toNat) :
    ∃ c', (finishErase (some e)).run c = some (true, c') ∧ ListsRep c' (s.finishErase e) ∧
      SameTable c' c := by
  have he := hr.handle e hmem
  have hlive := hr.live_of_mem hmem
  obtain ⟨c₁, hrun₁, hr₁, hl₁, hd₁, ht₁⟩ := lruRemove_rep hr hmem
  have hlive₁ : c₁.live e = true := by rw [hl₁, hlive]
  set c₂ := c₁.putData e (uncache (c₁.data e)) with hc₂
  have hr₂ : ListsRep c₂ ((s.unlink e).setEntry e fun d => { d with inCache := false }) :=
    hr₁.setData (f := uncache) he hlive₁ rfl
  have ht₂ : SameTable c₂ c₁ := sameTable_setData rfl rfl
  have hd₂ : c₂.data e = uncache (c.data e) := by
    rw [hc₂, putData_data_self, hd₁]
  have hl₂ : c₂.live e = true := hlive₁
  -- the charge is taken off the usage on both sides
  set c₃ : LRUCache := { c₂ with usage := c₂.usage - (c.data e).charge } with hc₃
  have hr₃ : ListsRep c₃ { (s.unlink e).setEntry e (fun d => { d with inCache := false }) with
      usage := s.usage - (c.data e).charge } :=
    ⟨hr₂.lru, hr₂.inUse, hr₂.disjoint, hr₂.live, hr₂.handle, hr₂.entries, hr₂.fresh,
      hr₂.capacity, congrArg (· - (c.data e).charge) hr₂.usage, hr₂.deleterCalls⟩
  have ht₃ : SameTable c₃ c₂ := ⟨rfl, rfl, fun _ => ⟨rfl, rfl⟩, rfl, rfl⟩
  have hd₃ : c₃.data e = uncache (c.data e) := hd₂
  have hpos₃ : 0 < (c₃.data e).refs.toNat := by
    rw [hd₃]
    exact hpos
  have hin₃ : (c₃.data e).inCache = false := by
    rw [hd₃]
    rfl
  obtain ⟨c₄, hrun₄, hr₄, ht₄⟩ := unref_rep hr₃ he hl₂ hpos₃ (fun _ => not_mem_unlink hr)
    (fun hc => absurd hc (by simp [hin₃]))
  refine ⟨c₄, ?_, ?_, ht₄.trans (ht₃.trans (ht₂.trans ht₁))⟩
  · have hcharge : (uncache (c.data e)).charge = (c.data e).charge := rfl
    simp [finishErase, hrun₁, hlive₁, ← hc₂, hl₂, hd₂, hcharge, ← hc₃, hrun₄]
  · simp only [LruShard.finishErase, hr.entry_of_mem hmem]
    exact hr₄

end LRUCache

end GroundDB
