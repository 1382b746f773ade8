import GroundDB.LruCache.Table

/-!
# The pointer program of a shard: its operations

`Lookup`, `LookupInsert`, `Insert`, `Release`, `Erase` and `Prune` of `LRUCache`, put together from
the functions on the lists and on the hash table.  `ShardRep c s` says that the memory `c` holds
the shard `s` of lists, its hash table included.  Each operation, run on a memory that holds `s`,
does what the operation of the same name does to `s` and returns the same handle.  Two things can
go wrong on the way: a reference count overflows in `Ref`, and an insertion that makes the table
grow beyond `2 ^ 31` handles never returns.
-/

namespace GroundDB

open PtrHeap Links Function LruShard

namespace LRUCache

/-! ## The operations -/

/-- `LRUCache()` with the capacity and the free list it gets right after. -/
def init (capacity : UInt64) (freelist : List ℕ) : LRUCache :=
  { live := fun a => decide (a < 2), fresh := 2
    data := fun _ => { value := none, refs := 0, pageId := ⟨0, 0, 0, 0, 0⟩, deleter := none,
                       charge := 0, inCache := false, hash := 0 }
    next := fun a => some a, prev := fun a => some a, nextHash := fun _ => none
    table := { length := 4, elems := 0, list := fun _ => none }
    capacity := capacity, usage := 0, freelist := freelist, deleterCalls := [] }

/-- `Lookup`. -/
def lookup (key : KeyType) (hash : UInt32) : ShardM Ptr := do
  let e ← tableLookup key hash
  match e with
  | none => return none
  | some h => do
      ref h
      return some h

/-- `Release`. -/
def release (h : ℕ) : ShardM Unit := unref h

/-- `Erase`. -/
def erase (key : KeyType) (hash : UInt32) : ShardM Unit := do
  let _ ← finishErase (← tableRemove key hash)

/-- The loop of `Prune`. -/
def pruneLoop : ℕ → ShardM Unit
  | 0 => fun _ => none
  | fuel + 1 => do
      let e ← getNext (some lruHead)
      if e ≠ some lruHead then
        let d ← getData e
        let _ ← finishErase (← tableRemove d.pageId d.hash)
        pruneLoop fuel

/-- `Prune`. -/
def prune : ShardM Unit := do
  pruneLoop ((← get).fresh + 1)

/-- The new handle of an insertion, which holds the reference of the caller. -/
def newData (a : InsertArgs) : HandleData UInt32 :=
  { value := a.value, refs := 1, pageId := a.key, deleter := a.deleter, charge := a.charge
    inCache := false, hash := a.hash }

/-- `e->refs++; e->in_cache = true`. -/
def pinned (d : HandleData UInt32) : HandleData UInt32 :=
  { d with refs := d.refs + 1, inCache := true }

/-- `e->value = v`. -/
def withValue (v : Ptr) (d : HandleData UInt32) : HandleData UInt32 := { d with value := v }

/-- The first part of both insertions: a new handle is made and put into the cache, where it takes
the place of the handle with the same key; without capacity it stays outside. -/
def add (a : InsertArgs) : ShardM ℕ := do
  let e ← newHandle (newData a)
  let c ← get
  if 0 < c.capacity then
    setData (some e) pinned
    lruAppend inUseHead e
    modify fun c => { c with usage := c.usage + a.charge }
    let _ ← finishErase (← tableInsert e)
  else
    setNext (some e) none
  return e

/-- The eviction loop of both insertions; returns `already_reuse_fl_entry`. -/
def evictLoop (handOver : Bool → Ptr → Ptr → Ptr × Bool) (e : ℕ) : ℕ → Bool → ShardM Bool
  | 0, _ => fun _ => none
  | fuel + 1, reused => do
      let c ← get
      let old ← getNext (some lruHead)
      if c.capacity < c.usage ∧ old ≠ some lruHead then
        let d ← getData old
        let new ← getData (some e)
        let r := handOver reused new.value d.value
        setData (some e) (withValue r.1)
        let _ ← finishErase (← tableRemove d.pageId d.hash)
        evictLoop handOver e fuel r.2
      else return reused

/-- The free list, which all shards share, after some shard took from it. -/
def setFreelist (c : LRUCache) (freelist : List ℕ) : LRUCache := { c with freelist := freelist }

/-- The rest of both insertions: eviction, then a page slot for the new handle. -/
def makeRoom (handOver : Bool → Ptr → Ptr → Ptr × Bool) (e : ℕ) (value : Ptr) : ShardM Unit := do
  let reused ← evictLoop handOver e ((← get).fresh + 1) false
  if value = none ∧ reused = false then
    let c ← get
    set (c.setFreelist c.freelist.tail)
    setData (some e) (withValue c.freelist.head?)

/-- `LookupInsert`. -/
def lookupInsert (a : InsertArgs) : ShardM ℕ := do
  let e ← tableLookup a.key a.hash
  match e with
  | some h => do
      ref h
      return h
  | none => do
      let e ← add a
      makeRoom (handOverLookupInsert a.value) e a.value
      return e

/-- `Insert`. -/
def insert (a : InsertArgs) : ShardM ℕ := do
  let e ← add a
  makeRoom (handOverInsert a.value) e a.value
  return e

/-! ## Memory and shard -/

/-- The memory `c` holds the shard `s` with its hash table. -/
structure ShardRep (c : LRUCache) (s : LruShard) : Prop where
  lists : ListsRep c s
  table : ∃ bs, TableRep c s.cached bs
  load : c.table.elems ≤ c.table.length
  fresh : 2 ≤ c.fresh

lemma rep_init (capacity : UInt64) (freelist : List ℕ) :
    ShardRep (init capacity freelist) (LruShard.init capacity) := by
  have hempty : (LruShard.init capacity).cached = [] := rfl
  have hring : ∀ hd : ℕ, Ring (fun a => some a) (fun a => some a) hd [] :=
    fun hd => ⟨⟨rfl, rfl⟩, List.nodup_singleton hd⟩
  refine ⟨⟨hring lruHead, hring inUseHead, ?_, ?_, ?_, ?_, rfl, rfl, rfl, rfl⟩,
    ⟨fun _ => [], ?_, ?_, fun _ _ => rfl, ?_, ?_, ?_, rfl⟩, ?_, le_refl 2⟩
  · simp [lruHead, inUseHead, LruShard.init]
  · rw [hempty]
    simp [lruHead, inUseHead, init]
  · simp [hempty]
  · intro a
    have hdead : ¬(2 ≤ a ∧ (init capacity freelist).live a = true) := by
      rintro ⟨hge, hlt⟩
      have := of_decide_eq_true hlt
      omega
    rw [entry, if_neg hdead]
    rfl
  · exact (by decide : (0 : UInt32) < 4)
  · exact (by decide : (4 : UInt32).toNat ≤ 2 ^ 31)
  · simp [hempty]
  · simp [hempty]
  · simp [hempty]
  · exact (by decide : (0 : UInt32) ≤ 4)

variable {c c' : LRUCache} {s s' : LruShard} {held held' : ℕ → ℕ} {h e : ℕ} {key : KeyType}
  {hash : UInt32} {bs : ℕ → List ℕ} {cached cached' : List ℕ}

/-- The table depends on its own fields and on the hashes of its handles, whose order is free. -/
lemma TableRep.congr (ht : TableRep c cached bs) (htable : c'.table = c.table)
    (hnext : c'.nextHash = c.nextHash) (hhash : ∀ x ∈ cached, (c'.data x).hash = (c.data x).hash)
    (hfresh : c.fresh ≤ c'.fresh) (hp : cached'.Perm cached)
    (hlive : ∀ x ∈ cached', c'.live x = true) : TableRep c' cached' bs := by
  refine ⟨?_, ?_, ?_, ?_, hlive, ?_, ?_⟩
  · rw [htable]
    exact ht.pos
  · rw [htable]
    exact ht.small
  · rw [htable, hnext]
    exact ht.path
  · intro i hi x
    rw [htable] at hi ⊢
    rw [ht.mem i hi x, hp.mem_iff]
    refine and_congr_right fun hx => ?_
    rw [hhash x hx]
  · intro x hx
    exact (ht.bound x (hp.mem_iff.mp hx)).trans_le hfresh
  · rw [htable, hp.length_eq]
    exact ht.elems

/-- Changes on the lists that keep the cached handles keep the table. -/
lemma ShardRep.congr (hr : ShardRep c s) (hl : ListsRep c' s') (hs : SameTable c' c)
    (hp : s'.cached.Perm s.cached) : ShardRep c' s' := by
  obtain ⟨bs, ht⟩ := hr.table
  refine ⟨hl, ⟨bs, ht.congr hs.table hs.nextHash (fun x _ => (hs.key x).1) hs.fresh.ge hp
    fun x hx => hl.live_of_mem hx⟩, ?_, ?_⟩
  · rw [hs.table]
    exact hr.load
  · rw [hs.fresh]
    exact hr.fresh

/-- What is live in memory is an entry of the shard, and the other way round. -/
lemma ListsRep.live_of_entry {d : HandleData ℕ} (hr : ListsRep c s) (hd : s.entries h = some d) :
    2 ≤ h ∧ c.live h = true ∧ d = count (c.data h) := by
  rw [hr.entries, entry] at hd
  split at hd
  next hc =>
    cases hd
    exact ⟨hc.1, hc.2, rfl⟩
  next => cases hd

lemma find_of_matches (hok : ShardOk s held)
    (hent : ∀ x ∈ s.cached, s.entries x = some (count (c.data x))) (hc : h ∈ s.cached)
    (hm : Matches c key hash h) : s.find key hash = some h := by
  obtain ⟨d, hd, hin⟩ := hok.inv.mem_cached_iff.mp hc
  rw [hent h hc, Option.some.injEq] at hd
  subst hd
  exact (find_eq_some_iff hok.inv hok.unique).mpr ⟨_, hent h hc, hin, hm.2, hm.1⟩

lemma find_of_not_matches (hent : ∀ x ∈ s.cached, s.entries x = some (count (c.data x)))
    (hno : ∀ x ∈ s.cached, ¬Matches c key hash x) : s.find key hash = none := by
  refine Option.eq_none_iff_forall_ne_some.mpr fun x hx => ?_
  obtain ⟨hc, d, hd, hk, hh⟩ := find_spec hx
  rw [hent x hc, Option.some.injEq] at hd
  subst hd
  exact hno x hc ⟨hh, hk⟩

/-! ## References -/

/-- **`Ref`** of a handle in the cache. -/
lemma ShardRep.ref (hr : ShardRep c s) (hi : ShardInv s held) (hc : h ∈ s.cached)
    (hlt : (c.data h).refs.toNat + 1 < 2 ^ 32) :
    ∃ c', (LRUCache.ref h).run c = some ((), c') ∧ ShardRep c' (s.ref h) ∧
      c'.freelist = c.freelist := by
  obtain ⟨c', hrun, hl, hs⟩ := ref_rep hr.lists hc hlt
  exact ⟨c', hrun, hr.congr hl hs ((recounts_ref s h).cached_perm hi (inv_ref hi hc)), hs.freelist⟩

lemma ShardRep.tableLookup (hr : ShardRep c s) (hok : ShardOk s held) (key : KeyType)
    (hash : UInt32) : (LRUCache.tableLookup key hash).run c = some (s.find key hash, c) := by
  obtain ⟨bs, ht⟩ := hr.table
  obtain ⟨r, hrun, hsome, hnone⟩ := ht.tableLookup key hash
  rw [hrun]
  congr 2
  cases r with
  | some o =>
      exact (find_of_matches hok (fun _ => hr.lists.entry_of_mem) (hsome o rfl).1
        (hsome o rfl).2).symm
  | none => exact (find_of_not_matches (fun _ => hr.lists.entry_of_mem) (hnone rfl)).symm

/-- **`Lookup`** does what the lookup among the lists does. -/
theorem lookup_rep (hr : ShardRep c s) (hok : ShardOk s held)
    (hrefs : ∀ x, s.find key hash = some x → (c.data x).refs.toNat + 1 < 2 ^ 32) :
    ∃ c', (lookup key hash).run c = some ((s.lookup key hash).1, c') ∧
      ShardRep c' (s.lookup key hash).2 ∧ c'.freelist = c.freelist := by
  have hrun := hr.tableLookup hok key hash
  cases hf : s.find key hash with
  | none =>
      refine ⟨c, ?_, ?_, rfl⟩
      · simp [lookup, hrun, hf, LruShard.lookup]
      · simpa [LruShard.lookup, hf] using hr
  | some h =>
      obtain ⟨c', hrun', hr', hfl⟩ := hr.ref hok.inv (find_spec hf).1 (hrefs h hf)
      refine ⟨c', ?_, ?_, hfl⟩
      · simp [lookup, hrun, hf, hrun', LruShard.lookup]
      · simpa [LruShard.lookup, hf] using hr'

/-- **`Release`** does what dropping a reference does to the lists. -/
theorem release_rep (hr : ShardRep c s) (hi : ShardInv s held) (hheld : 0 < held h) :
    ∃ c', (release h).run c = some ((), c') ∧ ShardRep c' (s.unref h) ∧
      c'.freelist = c.freelist := by
  obtain ⟨d, hd⟩ := (hi.handle h).live hheld
  obtain ⟨hge, hlive, rfl⟩ := hr.lists.live_of_entry hd
  have hrefs : (c.data h).refs.toNat = held h + if (c.data h).inCache then 1 else 0 :=
    (hi.handle h).refs _ hd
  have hlast : (c.data h).refs.toNat = 1 → h ∉ s.cached := by
    intro hone hc
    obtain ⟨d, hd', hin⟩ := hi.mem_cached_iff.mp hc
    obtain ⟨-, -, rfl⟩ := hr.lists.live_of_entry hd'
    have hin' : (c.data h).inCache = true := hin
    rw [if_pos hin'] at hrefs
    omega
  obtain ⟨c', hrun, hl, hs⟩ := unref_rep hr.lists hge hlive (by omega) hlast
    (fun hin _ => hi.mem_cached_iff.mpr ⟨_, hd, hin⟩)
  exact ⟨c', hrun, hr.congr hl hs ((recounts_unref hi hheld).cached_perm hi
    (inv_unref hi hheld)), hs.freelist⟩

/-! ## Erasing -/

lemma finishErase_cached (hi : ShardInv s held) (hc : h ∈ s.cached) :
    (s.finishErase h).cached.Perm (s.cached.erase h) := by
  obtain ⟨d, hd, hin⟩ := hi.mem_cached_iff.mp hc
  have hi' := inv_finishErase hi hc
  rw [List.perm_ext_iff_of_nodup hi'.nodup (hi.nodup.erase h)]
  intro x
  rw [hi'.mem_cached_iff, hi.nodup.mem_erase_iff, hi.mem_cached_iff,
    finishErase_entries hd]
  by_cases hx : x = h
  · subst hx
    rw [update_self]
    split <;> simp
  · simp [hx]

lemma ListsRep.finishErase (hl : ListsRep c s) (hi : ShardInv s held)
    (hc : h ∈ s.cached) (ht : TableRep c (s.cached.erase h) bs)
    (hload : c.table.elems ≤ c.table.length) (hfresh : 2 ≤ c.fresh) :
    ∃ c', (LRUCache.finishErase (some h)).run c = some (true, c') ∧
      ShardRep c' (s.finishErase h) ∧ c'.freelist = c.freelist := by
  obtain ⟨d, hd, -⟩ := hi.mem_cached_iff.mp hc
  obtain ⟨-, -, rfl⟩ := hl.live_of_entry hd
  obtain ⟨c', hrun, hl', hs⟩ := finishErase_rep hl hc ((hi.handle h).pos _ hd)
  refine ⟨c', hrun, ⟨hl', ⟨bs, ht.congr hs.table hs.nextHash (fun x _ => (hs.key x).1) hs.fresh.ge
    (finishErase_cached hi hc) fun x hx => hl'.live_of_mem hx⟩, ?_, ?_⟩, hs.freelist⟩
  · rw [hs.table]
    exact hload
  · rw [hs.fresh]
    exact hfresh

/-- **Removing a handle from the table and erasing it.** -/
lemma ShardRep.remove (hr : ShardRep c s) (hok : ShardOk s held) (hf : s.find key hash = some h) :
    ∃ c₁ c', (tableRemove key hash).run c = some (some h, c₁) ∧
      (LRUCache.finishErase (some h)).run c₁ = some (true, c') ∧
      ShardRep c' (s.finishErase h) ∧ c'.freelist = c.freelist := by
  obtain ⟨bs, ht⟩ := hr.table
  have hc := (find_spec hf).1
  rcases ht.tableRemove hok.inv.nodup key hash with
    ⟨o, c₁, bs', hrun, ho, hm, ht₁, hs, hlen⟩ | ⟨-, hnone⟩
  · have hfo := find_of_matches hok (fun _ => hr.lists.entry_of_mem) ho hm
    obtain rfl : o = h := by
      rw [hf] at hfo
      simpa using hfo.symm
    have hload : c₁.table.elems ≤ c₁.table.length := by
      rw [UInt32.le_iff_toNat_le, ht₁.elems, hlen]
      have := UInt32.le_iff_toNat_le.mp hr.load
      rw [ht.elems] at this
      exact List.length_erase_le.trans this
    obtain ⟨c', hrun', hr', hfl⟩ := (hr.lists.sameLists hs).finishErase hok.inv hc ht₁ hload
      (hs.agree.2.1 ▸ hr.fresh)
    exact ⟨c₁, c', hrun, hrun', hr', hfl.trans hs.agree.2.2.2⟩
  · have hfo := find_of_not_matches (fun _ => hr.lists.entry_of_mem) hnone
    rw [hf] at hfo
    cases hfo

/-- **`Erase`** does what it does to the lists. -/
theorem erase_rep (hr : ShardRep c s) (hok : ShardOk s held) (key : KeyType) (hash : UInt32) :
    ∃ c', (erase key hash).run c = some ((), c') ∧ ShardRep c' (s.erase key hash) ∧
      c'.freelist = c.freelist := by
  cases hf : s.find key hash with
  | none =>
      obtain ⟨bs, ht⟩ := hr.table
      rcases ht.tableRemove hok.inv.nodup key hash with
        ⟨o, c₁, bs', -, ho, hm, -⟩ | ⟨hrun, -⟩
      · have hfo := find_of_matches hok (fun _ => hr.lists.entry_of_mem) ho hm
        rw [hf] at hfo
        cases hfo
      · refine ⟨c, ?_, ?_, rfl⟩
        · simp [erase, hrun, finishErase]
        · simpa [LruShard.erase, hf] using hr
  | some h =>
      obtain ⟨c₁, c', hrun, hrun', hr', hfl⟩ := hr.remove hok hf
      refine ⟨c', ?_, ?_, hfl⟩
      · simp [erase, hrun, hrun']
      · simpa [LruShard.erase, hf] using hr'

lemma ListsRep.next_head (hl : ListsRep c s) :
    (getNext (some lruHead)).run c = some (some (s.lru.head?.getD lruHead), c) := by
  rw [run_getNext (hl.live _ (by simp)), hl.lru.next_head]

lemma find_front (hok : ShardOk s held) (hl : ListsRep c s) {r : List ℕ} (hlru : s.lru = h :: r) :
    s.find (c.data h).pageId (c.data h).hash = some h ∧ c.live h = true ∧ h ≠ lruHead := by
  have hc : h ∈ s.cached := by
    rw [mem_cached, hlru]
    exact .inl List.mem_cons_self
  obtain ⟨d, hd, hin⟩ := hok.inv.mem_cached_iff.mp hc
  obtain ⟨hge, hlive, rfl⟩ := hl.live_of_entry hd
  refine ⟨(find_eq_some_iff hok.inv hok.unique).mpr ⟨_, hd, hin, rfl, rfl⟩, hlive, ?_⟩
  rintro rfl
  exact absurd hge (by decide)

lemma length_lru_le (hi : ShardInv s held) : s.lru.length ≤ s.fresh := by
  have hsub : s.lru ⊆ List.range s.fresh := by
    intro a ha
    obtain ⟨d, hd, -⟩ := (hi.handle a).mem_lru.mp ha
    exact List.mem_range.mpr ((hi.handle a).fresh d hd)
  have hlen := (hi.nodup_lru.subperm hsub).length_le
  rwa [List.length_range] at hlen

lemma pruneLoop_rep {fuel : ℕ} (fuel' : ℕ) (hr : ShardRep c s) (hok : ShardOk s held)
    (hf : s.lru.length < fuel) (hf' : s.lru.length ≤ fuel') :
    ∃ c', (pruneLoop fuel).run c = some ((), c') ∧ ShardRep c' (s.pruneLoop fuel') ∧
      c'.freelist = c.freelist := by
  induction fuel generalizing c s fuel' with
  | zero => exact absurd hf (Nat.not_lt_zero _)
  | succ n ih =>
      have hnext := hr.lists.next_head
      cases hlru : s.lru with
      | nil =>
          refine ⟨c, ?_, ?_, rfl⟩
          · simp [pruneLoop, hnext, hlru]
          · cases fuel' with
            | zero => exact hr
            | succ m => simpa [LruShard.pruneLoop, hlru] using hr
      | cons h rest =>
          rw [hlru, List.length_cons] at hf hf'
          obtain ⟨m, rfl⟩ : ∃ m, fuel' = m + 1 := ⟨fuel' - 1, by omega⟩
          obtain ⟨hfind, hlive, hne⟩ := find_front hok hr.lists hlru
          have hc := (find_spec hfind).1
          obtain ⟨c₁, c₂, hrun₁, hrun₂, hr₂, hfl⟩ := hr.remove hok hfind
          have hrest : (s.finishErase h).lru = rest := by
            obtain ⟨d, hd, -⟩ := hok.inv.mem_cached_iff.mp hc
            rw [finishErase_lru, hd, Option.isSome_some, if_pos rfl, hlru,
              List.erase_cons_head]
          obtain ⟨c', hrun, hr', hfl'⟩ := ih m hr₂ (ok_finishErase hok hc)
            (by rw [hrest]; omega) (by rw [hrest]; omega)
          refine ⟨c', ?_, ?_, hfl'.trans hfl⟩
          · simp [pruneLoop, hnext, hlru, hne, hlive, hrun₁, hrun₂, hrun]
          · simpa [LruShard.pruneLoop, hlru] using hr'

/-- **`Prune`** does what it does to the lists. -/
theorem prune_rep (hr : ShardRep c s) (hok : ShardOk s held) :
    ∃ c', prune.run c = some ((), c') ∧ ShardRep c' s.prune ∧ c'.freelist = c.freelist := by
  have hlen := length_lru_le hok.inv
  rw [← hr.lists.fresh] at hlen
  obtain ⟨c', hrun, hr', hfl⟩ :=
    pruneLoop_rep s.lru.length hr hok (Nat.lt_succ_of_le hlen) (le_refl _)
  exact ⟨c', by simp [prune, hrun], hr', hfl⟩

/-! ## Eviction -/

variable {a : InsertArgs}

lemma ShardRep.withValue (hr : ShardRep c s) (hge : 2 ≤ e) (hlive : c.live e = true) (v : Ptr) :
    ShardRep (c.putData e (LRUCache.withValue v (c.data e)))
      (s.setEntry e fun d => { d with value := v }) :=
  hr.congr (hr.lists.setData (f := LRUCache.withValue v) hge hlive rfl)
    (sameTable_setData rfl rfl) (List.Perm.refl _)

/-- **The eviction loop** evicts what the loop on the lists evicts. -/
lemma evictLoop_rep (handOver : Bool → Ptr → Ptr → Ptr × Bool) {fuel : ℕ} (fuel' : ℕ)
    (reused : Bool) (hr : ShardRep c s) (hok : ShardOk s held) (he : 0 < held e)
    (hf : s.lru.length < fuel) (hf' : s.lru.length ≤ fuel') :
    ∃ c', (evictLoop handOver e fuel reused).run c
        = some ((s.evictLoop handOver e fuel' reused).1, c') ∧
      ShardRep c' (s.evictLoop handOver e fuel' reused).2 ∧ c'.freelist = c.freelist := by
  induction fuel generalizing c s fuel' reused with
  | zero => exact absurd hf (Nat.not_lt_zero _)
  | succ n ih =>
      have hnext := hr.lists.next_head
      have hcap := hr.lists.capacity
      have husage := hr.lists.usage
      cases hlru : s.lru with
      | nil =>
          have hdone : s.evictLoop handOver e fuel' reused = (reused, s) := by
            cases fuel' with
            | zero => rfl
            | succ m => simp [LruShard.evictLoop, hlru]
          rw [hdone]
          refine ⟨c, ?_, hr, rfl⟩
          simp [evictLoop, hnext, hlru]
      | cons old rest =>
          rw [hlru, List.length_cons] at hf hf'
          obtain ⟨m, rfl⟩ : ∃ m, fuel' = m + 1 := ⟨fuel' - 1, by omega⟩
          obtain ⟨hfind, hlive, hne⟩ := find_front hok hr.lists hlru
          obtain ⟨d, hd⟩ := (hok.inv.handle e).live he
          obtain ⟨hge, hlive_e, rfl⟩ := hr.lists.live_of_entry hd
          by_cases hover : s.capacity < s.usage
          · have hval : s.valueOf e = (c.data e).value := by
              rw [LruShard.valueOf, hd]
              rfl
            have hvalo : s.valueOf old = (c.data old).value := by
              obtain ⟨-, d, hd', -⟩ := find_spec hfind
              obtain ⟨-, -, rfl⟩ := hr.lists.live_of_entry hd'
              rw [LruShard.valueOf, hd']
              rfl
            set r := handOver reused (c.data e).value (c.data old).value with hrdef
            have hr₁ := hr.withValue hge hlive_e r.1
            have hok₁ := ok_setValue hok e r.1
            have hnold : old ≠ e := by
              rintro rfl
              exact hok.inv.not_mem_lru he (by rw [hlru]; exact List.mem_cons_self)
            have hfind₁ : (s.setEntry e fun d => { d with value := r.1 }).find
                (c.data old).pageId (c.data old).hash = some old := by
              have := (find_front hok₁ hr₁.lists (h := old) (r := rest) hlru).1
              rwa [putData_data_of_ne hnold] at this
            obtain ⟨c₁, c₂, hrun₁, hrun₂, hr₂, hfl⟩ := hr₁.remove hok₁ hfind₁
            have hone : s.evictOne handOver e reused old
                = (r.2, (s.setEntry e fun d => { d with value := r.1 }).finishErase old) := by
              rw [LruShard.evictOne, hval, hvalo]
            have hrest : (s.evictOne handOver e reused old).2.lru = rest :=
              evictOne_lru hok.inv hlru
            rw [hone] at hrest
            obtain ⟨c', hrun, hr', hfl'⟩ := ih m r.2 hr₂
              (ok_finishErase hok₁ (find_spec hfind₁).1)
              (by rw [hrest]; omega) (by rw [hrest]; omega)
            have hstep : s.evictLoop handOver e (m + 1) reused
                = LruShard.evictLoop handOver e m r.2
                  ((s.setEntry e fun d => { d with value := r.1 }).finishErase old) := by
              simp [LruShard.evictLoop, hlru, hover, hone]
            rw [hstep]
            refine ⟨c', ?_, hr', hfl'.trans hfl⟩
            simp [evictLoop, hcap, husage, hnext, hlru, hover, hne, hlive, hlive_e, ← hrdef,
              hrun₁, hrun₂, hrun]
          · have hdone : s.evictLoop handOver e (m + 1) reused = (reused, s) := by
              simp [LruShard.evictLoop, hlru, hover]
            rw [hdone]
            refine ⟨c, ?_, hr, rfl⟩
            simp [evictLoop, hcap, husage, hnext, hlru, hover]

lemma ShardRep.setFreelist (hr : ShardRep c s) (l : List ℕ) : ShardRep (c.setFreelist l) s := by
  obtain ⟨bs, ht⟩ := hr.table
  have hl := hr.lists
  exact ⟨⟨hl.lru, hl.inUse, hl.disjoint, hl.live, hl.handle, hl.entries, hl.fresh, hl.capacity,
    hl.usage, hl.deleterCalls⟩,
    ⟨bs, ht.congr rfl rfl (fun _ _ => rfl) (le_refl _) (List.Perm.refl _) ht.live⟩, hr.load,
    hr.fresh⟩

/-- **Eviction and the choice of a slot**, for a new handle the caller holds. -/
lemma makeRoom_rep (handOver : Bool → Ptr → Ptr → Ptr × Bool) (value : Ptr) (hr : ShardRep c s)
    (hok : ShardOk s held) (he : 0 < held e) :
    ∃ c', (makeRoom handOver e value).run c = some ((), c') ∧
      ShardRep c' (s.makeRoom handOver c.freelist e value).1 ∧
      c'.freelist = (s.makeRoom handOver c.freelist e value).2 := by
  have hlen := length_lru_le hok.inv
  rw [← hr.lists.fresh] at hlen
  obtain ⟨c₁, hrun₁, hr₁, hfl₁⟩ := evictLoop_rep handOver s.lru.length false hr hok he
    (Nat.lt_succ_of_le hlen) (le_refl _)
  have hok₁ : ShardOk (s.evictLoop handOver e s.lru.length false).2 held :=
    ok_evictLoop hok s.lru.length false
  simp only [LruShard.makeRoom]
  set t := s.evictLoop handOver e s.lru.length false with ht
  by_cases hslot : value = none ∧ t.1 = false
  · obtain ⟨d, hd⟩ := (hok₁.inv.handle e).live he
    obtain ⟨hge, hlive, rfl⟩ := hr₁.lists.live_of_entry hd
    set c₂ := c₁.setFreelist c₁.freelist.tail with hc₂
    have hr₂ : ShardRep c₂ t.2 := hr₁.setFreelist _
    have hlive₂ : c₂.live e = true := hlive
    rw [LruShard.takeSlot, if_pos hslot, ← hfl₁]
    refine ⟨_, ?_, hr₂.withValue hge hlive₂ c₁.freelist.head?, rfl⟩
    simp [makeRoom, hrun₁, hslot, ← hc₂, hlive₂]
  · refine ⟨c₁, ?_, ?_, ?_⟩
    · simp [makeRoom, hrun₁, hslot]
    · rw [LruShard.takeSlot, if_neg hslot]
      exact hr₁
    · rw [LruShard.takeSlot, if_neg hslot]
      exact hfl₁

/-! ## Insertions -/

/-- The memory after `new LRUHandle()`. -/
def allocated (c : LRUCache) (d : HandleData UInt32) : LRUCache :=
  { c with live := update c.live c.fresh true, fresh := c.fresh + 1
           data := update c.data c.fresh d }

lemma run_newHandle (d : HandleData UInt32) :
    (newHandle d).run c = some (c.fresh, c.allocated d) := rfl

/-- A shard with one more handle, which is on no list. -/
def withEntry (s : LruShard) (d : HandleData ℕ) : LruShard :=
  { s with entries := update s.entries s.fresh (some d), fresh := s.fresh + 1 }

lemma ListsRep.allocated (hl : ListsRep c s) (hfresh : 2 ≤ c.fresh) (d : HandleData UInt32) :
    ListsRep (c.allocated d) (withEntry s (count d)) := by
  have hne : ∀ x, c.live x = true → (c.allocated d).live x = true := by
    intro x hx
    by_cases hxf : x = c.fresh
    · simp [LRUCache.allocated, hxf]
    · simp [LRUCache.allocated, hxf, hx]
  refine ⟨hl.lru, hl.inUse, hl.disjoint, fun x hx => hne x (hl.live x hx), hl.handle, ?_,
    congrArg (· + 1) hl.fresh, hl.capacity, hl.usage, hl.deleterCalls⟩
  intro x
  by_cases hx : x = c.fresh
  · subst hx
    simp [withEntry, entry, LRUCache.allocated, ← hl.fresh, hfresh]
  · have hx' : x ≠ s.fresh := hl.fresh ▸ hx
    simp [withEntry, entry, LRUCache.allocated, hx, hx', hl.entries]

/-- Making a handle outside the cache, when there is no capacity. -/
lemma add_rep_outside (hr : ShardRep c s) (hok : ShardOk s held) (hcap : ¬0 < s.capacity) :
    ∃ c', (add a).run c = some (s.fresh, c') ∧ ShardRep c' (s.add a) ∧
      c'.freelist = c.freelist := by
  have hl₁ := hr.lists.allocated hr.fresh (newData a)
  have hfresh := hr.lists.fresh
  have hnot : c.fresh ∉ s.cached := hfresh ▸ hok.inv.fresh_not_mem
  have hnot' := ListsRep.not_mem_rings hr.fresh hnot
  have hcap' : ¬0 < (c.allocated (newData a)).capacity := by
    rw [hl₁.capacity]
    exact hcap
  have hlive : (c.allocated (newData a)).live c.fresh = true := update_self ..
  have hsame : s.add a = withEntry s (count (newData a)) := by
    simp [LruShard.add, withEntry, LruShard.newData, count, newData, hcap]
  set c₁ := c.allocated (newData a) with hc₁
  set c₂ : LRUCache := { c₁ with next := update c₁.next c.fresh none } with hc₂
  have hnext : ∀ x, x ≠ c.fresh → c₂.next x = c₁.next x :=
    fun x hx => update_of_ne hx _ _
  have hl₂ : ListsRep c₂ (s.add a) := by
    rw [hsame]
    refine ⟨hl₁.lru.congr ?_ fun _ _ => rfl, hl₁.inUse.congr ?_ fun _ _ => rfl, hl₁.disjoint,
      hl₁.live, hl₁.handle, hl₁.entries, hl₁.fresh, hl₁.capacity, hl₁.usage, hl₁.deleterCalls⟩
    · intro y hy
      refine hnext y ?_
      rintro rfl
      exact hnot'.1 hy
    · intro y hy
      refine hnext y ?_
      rintro rfl
      exact hnot'.2 hy
  obtain ⟨bs, ht⟩ := hr.table
  have hcached : (s.add a).cached = s.cached := by simp [LruShard.add, LruShard.cached, hcap]
  refine ⟨c₂, ?_, ⟨hl₂, ⟨bs, ht.congr rfl rfl ?_ (Nat.le_succ _) ?_ ?_⟩, hr.load, ?_⟩, rfl⟩
  · rw [← hfresh]
    simp [add, run_newHandle, ← hc₁, hcap', hlive, ← hc₂]
  · intro x hx
    have hxf : x ≠ c.fresh := by
      rintro rfl
      exact hnot hx
    exact congrArg HandleData.hash (update_of_ne hxf _ _)
  · rw [hcached]
  · exact fun x hx => hl₂.live_of_mem hx
  · exact Nat.le_succ_of_le hr.fresh

/-- The memory in which the new handle is in the cache, but not yet in the table. -/
lemma appended_rep (hr : ShardRep c s) (hok : ShardOk s held) (hcap : 0 < s.capacity)
    (ht : TableRep c s.cached bs) :
    ∃ c₁ c₂ : LRUCache, c₁ = (c.allocated (newData a)).putData c.fresh (pinned (newData a)) ∧
      (lruAppend inUseHead c.fresh).run c₁ = some ((), c₂) ∧
      ListsRep { c₂ with usage := c₂.usage + a.charge } (s.add a) ∧
      TableRep { c₂ with usage := c₂.usage + a.charge } s.cached bs ∧ c₂.table = c.table ∧
      c₂.freelist = c.freelist ∧ c₂.fresh = c.fresh + 1 ∧ c₂.live c.fresh = true ∧
      c₂.data c.fresh = pinned (newData a) := by
  have hl₀ := hr.lists.allocated hr.fresh (newData a)
  have hfresh := hr.lists.fresh
  have hnot : c.fresh ∉ s.cached := hfresh ▸ hok.inv.fresh_not_mem
  have hlive₀ : (c.allocated (newData a)).live c.fresh = true := update_self ..
  have hdata₀ : (c.allocated (newData a)).data c.fresh = newData a := update_self ..
  set c₁ := (c.allocated (newData a)).putData c.fresh (pinned (newData a)) with hc₁
  have hl₁ : ListsRep c₁ (withEntry s (s.newData a)) := by
    have hset := hl₀.setData (f := pinned) (g := fun _ => s.newData a) hr.fresh hlive₀ (by
      rw [hdata₀]
      simp [count, pinned, newData, LruShard.newData, hcap])
    rw [hdata₀] at hset
    have hsame : (withEntry s (count (newData a))).setEntry c.fresh (fun _ => s.newData a)
        = withEntry s (s.newData a) := by
      simp [LruShard.setEntry, withEntry, hfresh]
    rwa [hsame] at hset
  obtain ⟨c₂, hrun, hl₂, hlive₂, hdata₂, hs₂⟩ := lruAppend_inUse_rep hl₁ hr.fresh
    (show c₁.live c.fresh = true from hlive₀) hnot
  have hother : ∀ x ∈ s.cached, c₂.data x = c.data x := by
    intro x hx
    have hxf : x ≠ c.fresh := by
      rintro rfl
      exact hnot hx
    rw [hdata₂, hc₁, putData_data_of_ne hxf]
    exact update_of_ne hxf _ _
  have hl₃ : ListsRep { c₂ with usage := c₂.usage + a.charge } (s.add a) := by
    have hsame : s.add a = { withEntry s (s.newData a) with
        inUse := s.inUse ++ [c.fresh], usage := s.usage + a.charge } := by
      simp [LruShard.add, withEntry, hcap, hfresh]
    rw [hsame]
    exact ⟨hl₂.lru, hl₂.inUse, hl₂.disjoint, hl₂.live, hl₂.handle, hl₂.entries, hl₂.fresh,
      hl₂.capacity, congrArg (· + a.charge) hl₂.usage, hl₂.deleterCalls⟩
  have hf₂ : c₂.fresh = c.fresh + 1 := hs₂.fresh
  refine ⟨c₁, c₂, rfl, hrun, hl₃, ?_, hs₂.table, hs₂.freelist, hf₂, ?_, ?_⟩
  · refine ht.congr hs₂.table hs₂.nextHash ?_ ?_ (List.Perm.refl _) ?_
    · exact fun x hx => congrArg HandleData.hash (hother x hx)
    · exact hf₂ ▸ Nat.le_succ c.fresh
    · intro x hx
      refine hl₃.live_of_mem ?_
      simp only [LruShard.add, LruShard.cached, hcap, if_true, List.mem_append] at hx ⊢
      tauto
  · rw [hlive₂]
    exact hlive₀
  · rw [hdata₂, hc₁, putData_data_self]

lemma add_cached (hcap : 0 < s.capacity) (a : InsertArgs) :
    (s.add a).cached.Perm (s.fresh :: s.cached) := by
  have happ : (s.add a).cached = s.cached ++ [s.fresh] := by
    simp [LruShard.add, LruShard.cached, hcap]
  rw [happ]
  exact List.perm_append_singleton _ _

/-- **The first part of an insertion** puts the new handle in the place of the one with its key.
It may fail to return only while the table grows. -/
lemma add_rep (hr : ShardRep c s) (hok : ShardOk s held) (a : InsertArgs) :
    (∃ c', (add a).run c = some (s.fresh, c') ∧ ShardRep c' (s.addReplacing a) ∧
      c'.freelist = c.freelist) ∨
    ((add a).run c = none ∧ 2 ^ 31 ≤ s.cached.length ∧ s.find a.key a.hash = none) := by
  by_cases hcap : 0 < s.capacity
  rotate_left
  · left
    rw [LruShard.addReplacing, if_neg hcap]
    exact add_rep_outside hr hok hcap
  obtain ⟨bs, ht⟩ := hr.table
  obtain ⟨c₁, c₂, hc₁, hrun₁, hl₂, ht₂, htab, hfl, hf₂, hlive, hdata⟩ :=
    appended_rep hr hok hcap ht (a := a)
  have hfresh := hr.lists.fresh
  have hnot : c.fresh ∉ s.cached := hfresh ▸ hok.inv.fresh_not_mem
  have hcap' : 0 < (c.allocated (newData a)).capacity := by
    have : (c.allocated (newData a)).capacity = s.capacity := hr.lists.capacity
    rwa [this]
  set c₃ : LRUCache := { c₂ with usage := c₂.usage + a.charge } with hc₃
  have hrun : (add a).run c = ((tableInsert c.fresh).run c₃).bind fun r =>
      ((finishErase r.1).run r.2).map fun r => (c.fresh, r.2) := by
    have hlive₀ : (c.allocated (newData a)).live c.fresh = true := update_self ..
    have hdata₀ : (c.allocated (newData a)).data c.fresh = newData a := update_self ..
    simp [add, run_newHandle, hcap', hlive₀, hdata₀, ← hc₁, hrun₁, ← hc₃]
  -- what matches in memory is what the lookup among the cached handles finds
  have hentry : ∀ x ∈ s.cached, s.entries x = some (count (c₃.data x)) := by
    intro x hx
    have hxf : x ≠ s.fresh := by
      rintro rfl
      exact hok.inv.fresh_not_mem hx
    rw [← add_entries_of_ne (a := a) hxf]
    exact hl₂.entry_of_mem ((add_cached hcap a).mem_iff.mpr (List.mem_cons_of_mem _ hx))
  have hkey : (c₃.data c.fresh).pageId = a.key ∧ (c₃.data c.fresh).hash = a.hash := by
    have : c₃.data c.fresh = pinned (newData a) := hdata
    rw [this]
    exact ⟨rfl, rfl⟩
  have hload : c₃.table.elems ≤ c₃.table.length := by
    have : c₃.table = c.table := htab
    rw [this]
    exact hr.load
  have hperm := add_cached hcap a
  have hfresh₃ : 2 ≤ c₃.fresh := by
    have : c₃.fresh = c.fresh + 1 := hf₂
    have := hr.fresh
    omega
  rcases ht₂.tableInsert hok.inv.nodup hload hnot hlive (hf₂ ▸ Nat.lt_succ_self c.fresh) with
    ⟨r, c₄, bs', hrun₄, hs₄, hload₄, hcase⟩ | ⟨hnone, hbig, hno⟩
  · left
    rw [hkey.1, hkey.2] at hcase
    have hl₄ := hl₂.sameLists hs₄
    have hfl₄ : c₄.freelist = c.freelist := hs₄.agree.2.2.2.trans hfl
    have hfresh₄ : 2 ≤ c₄.fresh := hs₄.agree.2.1 ▸ hfresh₃
    rw [hrun, hrun₄, ← hfresh]
    rcases hcase with ⟨rfl, hno, ht₄⟩ | ⟨o, rfl, ho, hm, ht₄⟩
    · refine ⟨c₄, rfl, ?_, hfl₄⟩
      rw [LruShard.addReplacing, if_pos hcap, find_of_not_matches hentry hno]
      refine ⟨hl₄, ⟨bs', ht₄.congr rfl rfl (fun _ _ => rfl) (le_refl _) ?_ ?_⟩, hload₄, hfresh₄⟩
      · rw [hfresh]
        exact hperm
      · exact fun x hx => hl₄.live_of_mem hx
    · have hfind := find_of_matches hok hentry ho hm
      have ho' : o ∈ (s.add a).cached := hperm.mem_iff.mpr (List.mem_cons_of_mem _ ho)
      have hne : s.fresh ≠ o := by
        rintro rfl
        exact hok.inv.fresh_not_mem ho
      have ht₄' : TableRep c₄ ((s.add a).cached.erase o) bs' := by
        have hp : ((s.add a).cached.erase o).Perm (c.fresh :: s.cached.erase o) := by
          rw [hfresh, ← List.erase_cons_tail (by simpa using hne)]
          exact hperm.erase o
        exact ht₄.congr rfl rfl (fun _ _ => rfl) (le_refl _) hp
          fun x hx => hl₄.live_of_mem (List.mem_of_mem_erase hx)
      obtain ⟨c₅, hrun₅, hr₅, hfl₅⟩ :=
        hl₄.finishErase (inv_add hok.inv a) ho' ht₄' hload₄ hfresh₄
      refine ⟨c₅, ?_, ?_, hfl₅.trans hfl₄⟩
      · simp [hrun₅]
      · rw [LruShard.addReplacing, if_pos hcap, hfind]
        exact hr₅
  · right
    rw [hkey.1, hkey.2] at hno
    exact ⟨by rw [hrun, hnone]; rfl, hbig, find_of_not_matches hentry hno⟩

/-- **`Insert`** does what it does to the lists, if it returns. -/
theorem insert_rep (hr : ShardRep c s) (hok : ShardOk s held) (a : InsertArgs) :
    (∃ c', (insert a).run c = some ((s.insert c.freelist a).1, c') ∧
      ShardRep c' (s.insert c.freelist a).2.1 ∧ c'.freelist = (s.insert c.freelist a).2.2) ∨
    ((insert a).run c = none ∧ 2 ^ 31 ≤ s.cached.length) := by
  rcases add_rep hr hok a with ⟨c₁, hrun₁, hr₁, hfl₁⟩ | ⟨hnone, hbig, -⟩
  · left
    obtain ⟨c₂, hrun₂, hr₂, hfl₂⟩ := makeRoom_rep (handOverInsert a.value) a.value hr₁
      (ok_addReplacing hok a) (takeRef_pos held s.fresh)
    rw [hfl₁] at hr₂ hfl₂
    refine ⟨c₂, ?_, hr₂, hfl₂⟩
    simp [insert, hrun₁, hrun₂, LruShard.insert]
  · right
    exact ⟨by simp [insert, hnone], hbig⟩

/-- **`LookupInsert`** does what it does to the lists, if it returns. -/
theorem lookupInsert_rep (hr : ShardRep c s) (hok : ShardOk s held)
    (hrefs : ∀ x, s.find a.key a.hash = some x → (c.data x).refs.toNat + 1 < 2 ^ 32) :
    (∃ c', (lookupInsert a).run c = some ((s.lookupInsert c.freelist a).1, c') ∧
      ShardRep c' (s.lookupInsert c.freelist a).2.1 ∧
      c'.freelist = (s.lookupInsert c.freelist a).2.2) ∨
    ((lookupInsert a).run c = none ∧ 2 ^ 31 ≤ s.cached.length) := by
  have hrun := hr.tableLookup hok a.key a.hash
  cases hf : s.find a.key a.hash with
  | some h =>
      left
      obtain ⟨c', hrun', hr', hfl⟩ := hr.ref hok.inv (find_spec hf).1 (hrefs h hf)
      refine ⟨c', ?_, ?_, ?_⟩
      · simp [lookupInsert, hrun, hf, hrun', LruShard.lookupInsert]
      · simpa [LruShard.lookupInsert, hf] using hr'
      · simpa [LruShard.lookupInsert, hf] using hfl
  | none =>
      have hadded := addReplacing_of_find_none hf
      rcases add_rep hr hok a with ⟨c₁, hrun₁, hr₁, hfl₁⟩ | ⟨hnone, hbig, -⟩
      · left
        have hok₁ := ok_addReplacing hok a
        rw [hadded] at hr₁ hok₁
        obtain ⟨c₂, hrun₂, hr₂, hfl₂⟩ := makeRoom_rep (handOverLookupInsert a.value) a.value
          hr₁ hok₁ (takeRef_pos held s.fresh)
        rw [hfl₁] at hr₂ hfl₂
        refine ⟨c₂, ?_, ?_, ?_⟩
        · simp [lookupInsert, hrun, hf, hrun₁, hrun₂, LruShard.lookupInsert]
        · simpa [LruShard.lookupInsert, hf] using hr₂
        · simpa [LruShard.lookupInsert, hf] using hfl₂
      · right
        exact ⟨by simp [lookupInsert, hrun, hf, hnone], hbig⟩

end LRUCache

end GroundDB
