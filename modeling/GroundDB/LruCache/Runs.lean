import GroundDB.Lib.Run
import GroundDB.LruCache.Operations

/-!
# Runs of one shard

Clients call the operations of a shard one after the other, each under the shard's lock, and hold
references to the handles they were given.  Beside the memory a state keeps what the code does not
store: how many references to a handle are outstanding, and when each handle was last released.
Every caller passes a key together with a hash, and nothing ties the two: the code hashes the whole
record of a page id, also the bytes between its fields, which the comparison of keys does not read.

`CacheInv` is what the shard is meant to keep: its two rings and the hash table hold exactly the
handles in the cache, each on the ring its reference count says, with different keys; `usage_` is
the sum of their charges; the front of `lru_` was released before every other unused handle; and a
reference count is what clients hold, and one more for the cache.

It is kept in every run whose calls have room in two machine words and enter a key with one hash
(`Room`).  `usage_` is the sum of the charges modulo `2 ^ 64`, a reference count wraps to zero when
a handle gets `2 ^ 32 - 1` outstanding references, and a key that comes with a second hash is not
found and enters the cache once more.
-/

namespace GroundDB

open PtrHeap Links Lts Function LruShard

/-- A shard, the references its clients hold, and the time of the last release of each handle. -/
structure ShardRun where
  cache : LRUCache
  held : ℕ → ℕ
  clock : ℕ
  lastRelease : ℕ → ℕ

/-- What can happen to a shard.  With `others` a different shard takes from the free list. -/
inductive ShardCall
  | lookup (key : KeyType) (hash : UInt32)
  | lookupInsert (args : InsertArgs)
  | insert (args : InsertArgs)
  | release (h : ℕ)
  | erase (key : KeyType) (hash : UInt32)
  | prune
  | others (freelist : List ℕ)

namespace ShardRun

/-- The shard after its constructor, with no reference outstanding. -/
def start (capacity : UInt64) (freelist : List ℕ) : ShardRun :=
  { cache := LRUCache.init capacity freelist, held := fun _ => 0, clock := 1
    lastRelease := fun _ => 0 }

/-- One call.  A client only releases a handle it holds.  There is no next state when the call
does not return. -/
def call (st : ShardRun) : ShardCall → Option ShardRun
  | .lookup key hash =>
      ((LRUCache.lookup key hash).run st.cache).map fun r =>
        { st with cache := r.2, held := takeResult st.held r.1 }
  | .lookupInsert args =>
      ((LRUCache.lookupInsert args).run st.cache).map fun r =>
        { st with cache := r.2, held := takeRef st.held r.1 }
  | .insert args =>
      ((LRUCache.insert args).run st.cache).map fun r =>
        { st with cache := r.2, held := takeRef st.held r.1 }
  | .release h =>
      if 0 < st.held h then
        ((LRUCache.release h).run st.cache).map fun r =>
          { cache := r.2, held := dropRef st.held h, clock := st.clock + 1
            lastRelease := update st.lastRelease h st.clock }
      else none
  | .erase key hash =>
      ((LRUCache.erase key hash).run st.cache).map fun r => { st with cache := r.2 }
  | .prune => (LRUCache.prune.run st.cache).map fun r => { st with cache := r.2 }
  | .others freelist => some { st with cache := st.cache.setFreelist freelist }

/-- The steps of a run. -/
def Step (st : ShardRun) (a : ShardCall) (st' : ShardRun) : Prop := st.call a = some st'

end ShardRun

namespace LRUCache

/-! ## The invariant -/

/-- There is a handle at `h`. -/
def isLive (c : LRUCache) (h : ℕ) : Bool := decide (2 ≤ h) && c.live h

/-- There is a handle at `h`, and it is in the cache. -/
def isCached (c : LRUCache) (h : ℕ) : Bool := c.isLive h && (c.data h).inCache

lemma ShardRep.isLive_iff {c : LRUCache} {s : LruShard} (hr : ShardRep c s) {h : ℕ} :
    c.isLive h = true ↔ s.entries h = some (count (c.data h)) := by
  rw [hr.lists.entries, entry, isLive, Bool.and_eq_true, decide_eq_true_eq]
  split
  next hc => simp [hc]
  next hc => simp [hc]

lemma ShardRep.isCached_iff {c : LRUCache} {s : LruShard} {held : ℕ → ℕ} (hr : ShardRep c s)
    (hi : ShardInv s held) {h : ℕ} : c.isCached h = true ↔ h ∈ s.cached := by
  rw [hi.mem_cached_iff, isCached, Bool.and_eq_true, hr.isLive_iff]
  constructor
  · rintro ⟨hl, hin⟩
    exact ⟨_, hl, hin⟩
  · rintro ⟨d, hd, hin⟩
    obtain ⟨-, -, rfl⟩ := hr.lists.live_of_entry hd
    exact ⟨hd, hin⟩

/-- The sum of the charges of the handles in the cache. -/
def chargeTotal (c : LRUCache) : ℕ :=
  (((List.range c.fresh).filter c.isCached).map fun h => (c.data h).charge.toNat).sum

end LRUCache

/-- What a shard keeps, where `lru`, `inUse` and `chain i` are the handles on the two rings and in
the bucket `i` of the table. -/
structure CacheInv (st : ShardRun) (lru inUse : List ℕ) (chain : ℕ → List ℕ) : Prop where
  lruRing : Ring st.cache.next st.cache.prev lruHead lru
  inUseRing : Ring st.cache.next st.cache.prev inUseHead inUse
  cached : ∀ h, st.cache.isCached h = true ↔ h ∈ lru ∨ h ∈ inUse
  one : ∀ h ∈ lru, h ∉ inUse
  refs_lru : ∀ h, st.cache.isCached h = true → (h ∈ lru ↔ (st.cache.data h).refs = 1)
  refs_inUse : ∀ h, st.cache.isCached h = true → (h ∈ inUse ↔ 2 ≤ (st.cache.data h).refs)
  chains : ∀ i < st.cache.table.length.toNat,
    Seg st.cache.nextHash (st.cache.table.list i) (chain i) none
  table : ∀ h, st.cache.isCached h = true ↔ ∃ i < st.cache.table.length.toNat, h ∈ chain i
  bucket : ∀ i < st.cache.table.length.toNat, ∀ h ∈ chain i,
    st.cache.table.bucketOf (st.cache.data h).hash = i
  keys : ∀ a b, st.cache.isCached a = true → st.cache.isCached b = true →
    (st.cache.data a).pageId = (st.cache.data b).pageId → a = b
  usage : st.cache.usage.toNat = st.cache.chargeTotal
  recent : lru.Pairwise fun a b => st.lastRelease a < st.lastRelease b
  victim : ∀ old, st.cache.next lruHead = some old → old ≠ lruHead →
    (st.cache.isCached old = true ∧ (st.cache.data old).refs = 1) ∧
      ∀ h, st.cache.isCached h = true → (st.cache.data h).refs = 1 → h ≠ old →
        st.lastRelease old < st.lastRelease h
  refs : ∀ h, st.cache.isLive h = true → (st.cache.data h).refs.toNat
    = st.held h + if (st.cache.data h).inCache then 1 else 0
  live : ∀ h, 0 < st.held h → st.cache.isLive h = true

/-- The invariant of a shard. -/
def ShardRun.Invariant (st : ShardRun) : Prop := ∃ lru inUse chain, CacheInv st lru inUse chain

/-- The sum of the charges of the handles in the cache that have another key than `key`. -/
def LRUCache.chargeOther (c : LRUCache) (key : KeyType) : ℕ :=
  (((List.range c.fresh).filter fun h => c.isCached h && decide ((c.data h).pageId ≠ key)).map
    fun h => (c.data h).charge.toNat).sum

/-- The handle of the key, if it is in the cache, has fewer than `2 ^ 32 - 2` outstanding
references. -/
def ShardRun.CounterRoom (st : ShardRun) (key : KeyType) : Prop :=
  ∀ h, st.cache.isCached h = true → (st.cache.data h).pageId = key → st.held h + 2 < 2 ^ 32

/-- The charge of a handle that enters the cache and those of the handles that stay add up to less
than `2 ^ 64`. -/
def ShardRun.ChargeRoom (st : ShardRun) (key : KeyType) (charge : UInt64) : Prop :=
  0 < st.cache.capacity → st.cache.chargeOther key + charge.toNat < 2 ^ 64

/-- The handle of the key, if it is in the cache, was entered with this hash. -/
def ShardRun.SameHash (st : ShardRun) (key : KeyType) (hash : UInt32) : Prop :=
  ∀ h, st.cache.isCached h = true → (st.cache.data h).pageId = key → (st.cache.data h).hash = hash

/-- **No word overflows in a call**: a handle that gets a reference has room for it in its counter,
and the charge of a new handle has room in `usage_`.  **And no key is entered with a second
hash.** -/
def ShardRun.Room (st : ShardRun) : ShardCall → Prop
  | .lookup key _ => st.CounterRoom key
  | .lookupInsert args => st.SameHash args.key args.hash ∧ st.CounterRoom args.key ∧
      ((∀ h, st.cache.isCached h = true → (st.cache.data h).pageId ≠ args.key) →
        st.ChargeRoom args.key args.charge)
  | .insert args => st.SameHash args.key args.hash ∧ st.ChargeRoom args.key args.charge
  | _ => True

/-! ## States that hold a shard -/

namespace ShardRun

/-- Handles in the cache that have one key have one hash. -/
def OneHash (s : LruShard) : Prop :=
  ∀ x y d e, s.entries x = some d → s.entries y = some e → d.inCache = true → e.inCache = true →
    d.pageId = e.pageId → d.hash = e.hash

/-- The state holds a shard of lists that is in order, except that `usage_` may have wrapped. -/
structure Good (st : ShardRun) (s : LruShard) : Prop where
  rep : LRUCache.ShardRep st.cache s
  ok : ShardOk s st.held
  oneHash : OneHash s
  recent : Recent s st.lastRelease
  clock : ∀ x, st.lastRelease x < st.clock
  refs : ∀ h, st.held h + 1 < 2 ^ 32

variable {st st' : ShardRun} {s s' : LruShard} {h : ℕ}

lemma good_start (capacity : UInt64) (freelist : List ℕ) :
    Good (start capacity freelist) (LruShard.init capacity) := by
  refine ⟨LRUCache.rep_init capacity freelist, ok_init capacity, ?_, List.Pairwise.nil,
    fun _ => Nat.zero_lt_one, ?_⟩
  · intro x y d e hd
    cases hd
  · intro h
    exact (by decide : 0 + 1 < 2 ^ 32)

lemma Good.isCached_iff (hg : Good st s) : st.cache.isCached h = true ↔ h ∈ s.cached :=
  hg.rep.isCached_iff hg.ok.inv

lemma Good.entry_of_isCached (hg : Good st s) (hc : st.cache.isCached h = true) :
    s.entries h = some (LRUCache.count (st.cache.data h)) ∧
      (LRUCache.count (st.cache.data h)).inCache = true := by
  rw [LRUCache.isCached, Bool.and_eq_true] at hc
  exact ⟨hg.rep.isLive_iff.mp hc.1, hc.2⟩

lemma Good.cached_perm (hg : Good st s) :
    ((List.range st.cache.fresh).filter st.cache.isCached).Perm s.cached := by
  rw [List.perm_ext_iff_of_nodup (List.nodup_range.filter _) hg.ok.inv.nodup]
  intro x
  rw [List.mem_filter, List.mem_range, hg.isCached_iff, hg.rep.lists.fresh]
  refine ⟨fun hx => hx.2, fun hx => ⟨?_, hx⟩⟩
  obtain ⟨d, hd, -⟩ := hg.ok.inv.mem_cached_iff.mp hx
  exact (hg.ok.inv.handle x).fresh d hd

lemma Good.charge_eq (hg : Good st s) {x : ℕ} (hx : x ∈ s.cached) :
    (st.cache.data x).charge.toNat = s.chargeOf x := by
  obtain ⟨d, hd, -⟩ := hg.ok.inv.mem_cached_iff.mp hx
  obtain ⟨-, -, rfl⟩ := hg.rep.lists.live_of_entry hd
  rw [chargeOf_eq hd]
  rfl

lemma Good.chargeTotal_eq (hg : Good st s) : st.cache.chargeTotal = s.chargeSum := by
  rw [LRUCache.chargeTotal, LruShard.chargeSum, (hg.cached_perm.map _).sum_eq]
  exact congrArg List.sum (List.map_congr_left fun x hx => hg.charge_eq hx)

lemma Good.chargeOther_eq (hg : Good st s) (key : KeyType) :
    st.cache.chargeOther key = s.chargeOther key := by
  have hfilter : s.cached.filter (fun h => decide ((st.cache.data h).pageId ≠ key))
      = s.cached.filter fun h => decide ((s.entries h).map HandleData.pageId ≠ some key) := by
    refine List.filter_congr fun x hx => ?_
    obtain ⟨d, hd, -⟩ := hg.ok.inv.mem_cached_iff.mp hx
    obtain ⟨-, -, rfl⟩ := hg.rep.lists.live_of_entry hd
    simp [hd, LRUCache.count]
  have hperm := hg.cached_perm.filter fun h => decide ((st.cache.data h).pageId ≠ key)
  rw [List.filter_filter, hfilter] at hperm
  simp only [Bool.and_comm (decide _)] at hperm
  rw [LRUCache.chargeOther, LruShard.chargeOther, (hperm.map _).sum_eq]
  exact congrArg List.sum (List.map_congr_left fun x hx => hg.charge_eq (List.mem_filter.mp hx).1)

/-- `usage_` is the sum of the charges exactly when the sum fits into it. -/
lemma Good.usage_iff (hg : Good st s) :
    st.cache.usage.toNat = st.cache.chargeTotal ↔ st.cache.chargeTotal < 2 ^ 64 := by
  rw [hg.chargeTotal_eq, hg.rep.lists.usage, hg.ok.inv.usage]
  constructor
  · intro h
    rw [← h]
    exact Nat.mod_lt _ (by positivity)
  · exact Nat.mod_eq_of_lt

/-- Among the cached handles, the counter says on which list a handle is. -/
lemma Good.mem_lists (hg : Good st s) (hc : st.cache.isCached h = true) :
    (h ∈ s.lru ↔ (st.cache.data h).refs = 1) ∧ (h ∈ s.inUse ↔ 2 ≤ (st.cache.data h).refs) := by
  obtain ⟨hd, hin⟩ := hg.entry_of_isCached hc
  have hi := hg.ok.inv.handle h
  rw [hi.mem_lru, hi.mem_inUse, hd, ← UInt32.toNat_inj, UInt32.le_iff_toNat_le]
  constructor
  · constructor
    · rintro ⟨d, hd', -, hr⟩
      cases hd'
      exact hr
    · intro hr
      exact ⟨_, rfl, hin, hr⟩
  · constructor
    · rintro ⟨d, hd', -, hr⟩
      cases hd'
      exact hr
    · intro hr
      exact ⟨_, rfl, hin, hr⟩

/-- **A state that holds a shard satisfies the invariant** when the sum of the charges fits. -/
lemma Good.invariant (hg : Good st s) (hfits : st.cache.chargeTotal < 2 ^ 64) :
    st.Invariant := by
  obtain ⟨bs, ht⟩ := hg.rep.table
  have hlru : ∀ x ∈ s.lru, st.cache.isCached x = true := fun x hx =>
    hg.isCached_iff.mpr (mem_cached.mpr (.inl hx))
  refine ⟨s.lru, s.inUse, bs, hg.rep.lists.lru, hg.rep.lists.inUse, ?_, ?_, ?_, ?_, ht.path, ?_,
    ?_, ?_, hg.usage_iff.mpr hfits, hg.recent, ?_, ?_, ?_⟩
  · intro h
    rw [hg.isCached_iff, mem_cached]
  · exact fun h hl => hg.ok.inv.not_mem_inUse hl
  · exact fun h hc => (hg.mem_lists hc).1
  · exact fun h hc => (hg.mem_lists hc).2
  · intro h
    rw [hg.isCached_iff]
    constructor
    · intro hc
      have hi := LRUCache.bucketOf_lt ht.pos (st.cache.data h).hash
      exact ⟨_, hi, (ht.mem _ hi h).mpr ⟨hc, rfl⟩⟩
    · rintro ⟨i, hi, hm⟩
      exact ((ht.mem i hi h).mp hm).1
  · intro i hi h hm
    exact ((ht.mem i hi h).mp hm).2
  · intro a b ha hb hkey
    obtain ⟨hda, hina⟩ := hg.entry_of_isCached ha
    obtain ⟨hdb, hinb⟩ := hg.entry_of_isCached hb
    exact hg.ok.unique a b _ _ hda hdb hina hinb hkey (hg.oneHash a b _ _ hda hdb hina hinb hkey)
  · intro old hold hne
    rw [hg.rep.lists.lru.next_head, Option.some.injEq] at hold
    cases hl : s.lru with
    | nil =>
        rw [hl] at hold
        exact absurd hold.symm hne
    | cons x rest =>
        obtain rfl : x = old := by
          rw [hl] at hold
          exact hold
        have hmem : x ∈ s.lru := by
          rw [hl]
          exact List.mem_cons_self
        refine ⟨⟨hlru x hmem, (hg.mem_lists (hlru x hmem)).1.mp hmem⟩, ?_⟩
        intro h hc hr hhx
        have hh := (hg.mem_lists hc).1.mpr hr
        have hrec := hg.recent
        rw [Recent, hl, List.pairwise_cons] at hrec
        rw [hl, List.mem_cons, or_iff_right hhx] at hh
        exact hrec.1 h hh
  · intro h hl
    exact (hg.ok.inv.handle h).refs _ (hg.rep.isLive_iff.mp hl)
  · intro h hpos
    obtain ⟨d, hd⟩ := (hg.ok.inv.handle h).live hpos
    obtain ⟨-, -, rfl⟩ := hg.rep.lists.live_of_entry hd
    exact hg.rep.isLive_iff.mpr hd

/-! ## Hashes -/

/-- Where handles keep key and hash and none enters the cache, keys have one hash still. -/
lemma OneHash.of_kept (hh : OneHash s)
    (hkept : ∀ x d', s'.entries x = some d' → ∃ d, s.entries x = some d ∧
      d'.pageId = d.pageId ∧ d'.hash = d.hash ∧ (d'.inCache = true → d.inCache = true)) :
    OneHash s' := by
  intro x y d' e' hd' he' hin hin' hkey
  obtain ⟨d, hd, hpage, hhash, hc⟩ := hkept x d' hd'
  obtain ⟨e, he, hpage', hhash', hc'⟩ := hkept y e' he'
  rw [hhash, hhash']
  exact hh x y d e hd he (hc hin) (hc' hin') (hpage ▸ hpage' ▸ hkey)

lemma OneHash.shrinks (hh : OneHash s) (hs : Shrinks s' s) : OneHash s' := by
  refine hh.of_kept fun x d' hd' => ?_
  obtain ⟨d, hd, hsame, hc⟩ := hs x d' hd'
  exact ⟨d, hd, hsame.pageId, hsame.hash, hc⟩

lemma OneHash.setValue (hh : OneHash s) (e : ℕ) (v : Ptr) :
    OneHash (s.setEntry e fun d => { d with value := v }) := by
  refine hh.of_kept fun x d' hd' => ?_
  rw [setEntry_entries] at hd'
  split at hd'
  next hx =>
    obtain ⟨d, hd, rfl⟩ := Option.map_eq_some_iff.mp hd'
    exact ⟨d, hx ▸ hd, rfl, rfl, id⟩
  next => exact ⟨d', hd', rfl, rfl, id⟩

lemma OneHash.add {a : InsertArgs} (hh : OneHash s)
    (ha : ∀ x d, s.entries x = some d → d.inCache = true → d.pageId = a.key → d.hash = a.hash) :
    OneHash (s.add a) := by
  have hold : ∀ x d, x ≠ s.fresh → (s.add a).entries x = some d → s.entries x = some d := by
    intro x d hx hd
    rwa [add_entries_of_ne hx] at hd
  have hnew : ∀ d, (s.add a).entries s.fresh = some d → d.pageId = a.key ∧ d.hash = a.hash := by
    intro d hd
    rw [add_entries_fresh] at hd
    cases hd
    exact ⟨rfl, rfl⟩
  intro x y d e hd he hin hin' hkey
  by_cases hx : x = s.fresh
  · obtain ⟨hk, hhash⟩ := hnew d (hx ▸ hd)
    by_cases hy : y = s.fresh
    · rw [hhash, (hnew e (hy ▸ he)).2]
    · rw [hhash, ha y e (hold y e hy he) hin' (hkey.symm.trans hk)]
  · by_cases hy : y = s.fresh
    · obtain ⟨hk, hhash⟩ := hnew e (hy ▸ he)
      rw [hhash, ha x d (hold x d hx hd) hin (hkey.trans hk)]
    · exact hh x y d e (hold x d hx hd) (hold y e hy he) hin hin' hkey

lemma OneHash.makeRoom {handOver : Bool → Ptr → Ptr → Ptr × Bool} {freelist : List ℕ} {e : ℕ}
    {value : Ptr} (hh : OneHash s) : OneHash (s.makeRoom handOver freelist e value).1 := by
  have hloop : OneHash (s.evictLoop handOver e s.lru.length false).2 := by
    refine evictLoop_rule (P := fun _ s => OneHash s) ?_ _ hh
    intro reused s old rest hh _ _
    exact (hh.setValue e _).shrinks (shrinks_finishErase _ old)
  simp only [LruShard.makeRoom, LruShard.takeSlot]
  split
  · exact hloop.setValue e _
  · exact hloop

lemma Good.sameHash (hg : Good st s) {key : KeyType} {hash : UInt32}
    (hsame : st.SameHash key hash) :
    ∀ x d, s.entries x = some d → d.inCache = true → d.pageId = key → d.hash = hash := by
  intro x d hd hin hk
  have hc := hg.isCached_iff.mpr (hg.ok.inv.mem_cached_iff.mpr ⟨d, hd, hin⟩)
  obtain ⟨-, -, rfl⟩ := hg.rep.lists.live_of_entry hd
  exact hsame x hc hk

/-! ## One call -/

/-- A reference more, where there is room for it in the counter. -/
lemma takeRef_lt {held : ℕ → ℕ} (hh : ∀ x, held x + 1 < 2 ^ 32) (hlt : held h + 2 < 2 ^ 32) :
    ∀ x, takeRef held h x + 1 < 2 ^ 32 := by
  intro x
  by_cases hx : x = h
  · rw [hx, takeRef, update_self]
    exact hlt
  · rw [takeRef, update_of_ne hx]
    exact hh x

lemma Good.refs_cached (hg : Good st s) (hc : h ∈ s.cached) :
    (st.cache.data h).refs.toNat = st.held h + 1 := by
  obtain ⟨hd, hin⟩ := hg.entry_of_isCached (hg.isCached_iff.mpr hc)
  have := (hg.ok.inv.handle h).refs _ hd
  rw [if_pos hin] at this
  exact this

/-- Room for another reference to a cached handle, and to a new one. -/
lemma Good.room_of_refs (hg : Good st s) (hc : h ∈ s.cached)
    (hlt : (st.cache.data h).refs.toNat + 1 < 2 ^ 32) : st.held h + 2 < 2 ^ 32 := by
  have := hg.refs_cached hc
  omega

lemma Good.room_fresh (hg : Good st s) : st.held s.fresh + 2 < 2 ^ 32 := by
  rw [hg.ok.inv.held_fresh]
  norm_num

/-- Room in the counter of the handle that a lookup finds. -/
lemma Good.counterRoom (hg : Good st s) {key : KeyType} (hroom : st.CounterRoom key)
    (hash : UInt32) :
    ∀ x, s.find key hash = some x → (st.cache.data x).refs.toNat + 1 < 2 ^ 32 := by
  intro x hx
  obtain ⟨hc, d, hd, hk, -⟩ := find_spec hx
  obtain ⟨-, -, rfl⟩ := hg.rep.lists.live_of_entry hd
  rw [hg.refs_cached hc]
  exact hroom x (hg.isCached_iff.mpr hc) hk

/-- What happens to the order of releases when no handle is released. -/
lemma Good.of_sublist (hg : Good st s) {c : LRUCache} {held : ℕ → ℕ}
    (hrep : LRUCache.ShardRep c s') (hok : ShardOk s' held) (hh : OneHash s')
    (hsub : s'.lru.Sublist s.lru) (hrefs : ∀ x, held x + 1 < 2 ^ 32) :
    Good { st with cache := c, held := held } s' :=
  ⟨hrep, hok, hh, hg.recent.sublist hsub, hg.clock, hrefs⟩

lemma Good.lookup (hg : Good st s) {key : KeyType} {hash : UInt32}
    (hs : st.call (.lookup key hash) = some st') (hroom : st.CounterRoom key) :
    Good st' (s.lookup key hash).2 := by
  have hrefs := hg.counterRoom hroom hash
  obtain ⟨c', hrun, hrep, -⟩ := LRUCache.lookup_rep hg.rep hg.ok hrefs
  simp only [call, hrun, Option.map_some, Option.some.injEq] at hs
  subst hs
  refine hg.of_sublist hrep (ok_lookup hg.ok key hash)
    (hg.oneHash.shrinks (shrinks_lookup s key _)) (lookup_lru_sublist ..) ?_
  rw [LruShard.lookup]
  cases hf : s.find key hash with
  | none => exact hg.refs
  | some h => exact takeRef_lt hg.refs (hg.room_of_refs (find_spec hf).1 (hrefs h hf))

lemma Good.lookupInsert (hg : Good st s) {a : InsertArgs}
    (hs : st.call (.lookupInsert a) = some st') (hsame : st.SameHash a.key a.hash)
    (hroom : st.CounterRoom a.key) : Good st' (s.lookupInsert st.cache.freelist a).2.1 := by
  have hrefs := hg.counterRoom hroom a.hash
  rcases LRUCache.lookupInsert_rep (a := a) hg.rep hg.ok hrefs with
    ⟨c', hrun, hrep, -⟩ | ⟨hnone, -⟩
  · simp only [call, hrun, Option.map_some, Option.some.injEq] at hs
    subst hs
    refine hg.of_sublist hrep (ok_lookupInsert hg.ok _ a) ?_
      (lookupInsert_lru_sublist ..) ?_
    · rw [LruShard.lookupInsert]
      split
      · exact hg.oneHash.shrinks (shrinks_ref s _)
      · exact (hg.oneHash.add (hg.sameHash hsame)).makeRoom
    · rw [LruShard.lookupInsert]
      cases hf : s.find a.key a.hash with
      | none => exact takeRef_lt hg.refs (hg.room_fresh)
      | some h =>
          exact takeRef_lt hg.refs (hg.room_of_refs (find_spec hf).1 (hrefs h hf))
  · simp only [call, hnone, Option.map_none] at hs
    cases hs

lemma Good.insert (hg : Good st s) {a : InsertArgs} (hs : st.call (.insert a) = some st')
    (hsame : st.SameHash a.key a.hash) : Good st' (s.insert st.cache.freelist a).2.1 := by
  rcases LRUCache.insert_rep hg.rep hg.ok a with ⟨c', hrun, hrep, -⟩ | ⟨hnone, -⟩
  · simp only [call, hrun, Option.map_some, Option.some.injEq] at hs
    subst hs
    refine hg.of_sublist hrep (ok_insert hg.ok _ a) ?_
      (insert_lru_sublist ..) (takeRef_lt hg.refs hg.room_fresh)
    have hadd := hg.oneHash.add (hg.sameHash hsame)
    refine OneHash.makeRoom ?_
    rw [LruShard.addReplacing]
    split
    · exact hadd.shrinks (shrinks_finishErase _ _)
    · exact hadd
  · simp only [call, hnone, Option.map_none] at hs
    cases hs

lemma Good.release (hg : Good st s) (hs : st.call (.release h) = some st') :
    Good st' (s.unref h) := by
  rw [call] at hs
  split at hs
  next hheld =>
    obtain ⟨c', hrun, hrep, -⟩ := LRUCache.release_rep hg.rep hg.ok.inv hheld
    simp only [hrun, Option.map_some, Option.some.injEq] at hs
    subst hs
    refine ⟨hrep, ok_unref hg.ok hheld,
      hg.oneHash.shrinks (shrinks_unref s h),
      hg.recent.unref hg.ok.inv hheld fun x _ => hg.clock x, ?_, ?_⟩
    · intro x
      change update st.lastRelease h st.clock x < st.clock + 1
      by_cases hx : x = h
      · rw [hx, update_self]
        exact Nat.lt_succ_self _
      · rw [update_of_ne hx]
        exact Nat.lt_succ_of_lt (hg.clock x)
    · intro x
      refine lt_of_le_of_lt (Nat.succ_le_succ ?_) (hg.refs x)
      change update st.held h (st.held h - 1) x ≤ st.held x
      by_cases hx : x = h
      · rw [hx, update_self]
        exact Nat.sub_le _ 1
      · rw [update_of_ne hx]
  next => cases hs

lemma Good.erase (hg : Good st s) {key : KeyType} {hash : UInt32}
    (hs : st.call (.erase key hash) = some st') : Good st' (s.erase key hash) := by
  obtain ⟨c', hrun, hrep, -⟩ := LRUCache.erase_rep hg.rep hg.ok key hash
  simp only [call, hrun, Option.map_some, Option.some.injEq] at hs
  subst hs
  exact hg.of_sublist hrep (ok_erase hg.ok key _)
    (hg.oneHash.shrinks (shrinks_erase s key _)) (erase_lru_sublist ..) hg.refs

lemma Good.prune (hg : Good st s) (hs : st.call .prune = some st') : Good st' s.prune := by
  obtain ⟨c', hrun, hrep, -⟩ := LRUCache.prune_rep hg.rep hg.ok
  simp only [call, hrun, Option.map_some, Option.some.injEq] at hs
  subst hs
  exact hg.of_sublist hrep (ok_prune hg.ok)
    (hg.oneHash.shrinks (shrinks_prune s)) (prune_lru_sublist s) hg.refs

/-- **Every call returns**, with no invalid access on the way, while the table holds fewer than
`2 ^ 31` handles and the counters have room for one more reference. -/
theorem Good.call_isSome (hg : Good st s) (hsmall : s.cached.length < 2 ^ 31)
    (hroom : ∀ h, st.held h + 2 < 2 ^ 32) (a : ShardCall)
    (hheld : ∀ h, a = .release h → 0 < st.held h) : (st.call a).isSome = true := by
  have hrefs : ∀ key hash x, s.find key hash = some x →
      (st.cache.data x).refs.toNat + 1 < 2 ^ 32 := by
    intro key hash x hx
    rw [hg.refs_cached (find_spec hx).1]
    exact hroom x
  cases a with
  | lookup key hash =>
      obtain ⟨c', hrun, -⟩ := LRUCache.lookup_rep hg.rep hg.ok (hrefs key hash)
      simp [ShardRun.call, hrun]
  | lookupInsert a =>
      rcases LRUCache.lookupInsert_rep hg.rep hg.ok (hrefs a.key a.hash) with
        ⟨c', hrun, -⟩ | ⟨-, hbig⟩
      · simp [ShardRun.call, hrun]
      · exact absurd hsmall (Nat.not_lt.mpr hbig)
  | insert a =>
      rcases LRUCache.insert_rep hg.rep hg.ok a with ⟨c', hrun, -⟩ | ⟨-, hbig⟩
      · simp [ShardRun.call, hrun]
      · exact absurd hsmall (Nat.not_lt.mpr hbig)
  | release h =>
      have hpos := hheld h rfl
      obtain ⟨c', hrun, -⟩ := LRUCache.release_rep hg.rep hg.ok.inv hpos
      simp [ShardRun.call, hpos, hrun]
  | erase key hash =>
      obtain ⟨c', hrun, -⟩ := LRUCache.erase_rep hg.rep hg.ok key hash
      simp [ShardRun.call, hrun]
  | prune =>
      obtain ⟨c', hrun, -⟩ := LRUCache.prune_rep hg.rep hg.ok
      simp [ShardRun.call, hrun]
  | others freelist => rfl

/-! ## Whole runs -/

lemma Good.addReplacing_lt (hg : Good st s) {a : InsertArgs} (hsame : st.SameHash a.key a.hash)
    (hroom : st.ChargeRoom a.key a.charge) : (s.addReplacing a).chargeSum < 2 ^ 64 := by
  by_cases hcap : 0 < s.capacity
  · refine (chargeSum_addReplacing_le hg.ok (hg.sameHash hsame)).trans_lt ?_
    rw [← hg.chargeOther_eq]
    exact hroom (hg.rep.lists.capacity ▸ hcap)
  · -- without capacity nothing is cached
    have hnone : s.cached = [] := by
      refine List.eq_nil_iff_forall_not_mem.mpr fun x hx => hcap ?_
      obtain ⟨d, hd, hc⟩ := hg.ok.inv.mem_cached_iff.mp hx
      exact hg.ok.room x d hd hc
    have hsame : (s.add a).cached = s.cached := by
      simp [LruShard.add, LruShard.cached, hcap]
    rw [LruShard.addReplacing, if_neg hcap, LruShard.chargeSum, hsame, hnone]
    norm_num

/-- **One call with room** keeps a shard in the state, with charges that fit `usage_`. -/
theorem Good.call {a : ShardCall} (hg : Good st s) (hlt : s.chargeSum < 2 ^ 64)
    (hroom : st.Room a) (hs : st.call a = some st') :
    ∃ s', Good st' s' ∧ s'.chargeSum < 2 ^ 64 := by
  cases a with
  | lookup key hash =>
      exact ⟨_, hg.lookup hs hroom, (chargeSum_shrinks hg.ok.inv
        (ok_lookup hg.ok key _).inv (shrinks_lookup s key _)).trans_lt hlt⟩
  | lookupInsert a =>
      obtain ⟨hsame, hcounter, hcharge⟩ := hroom
      refine ⟨_, hg.lookupInsert hs hsame hcounter, ?_⟩
      rw [LruShard.lookupInsert]
      cases hf : s.find a.key a.hash with
      | some h =>
          have hc := (find_spec hf).1
          exact (chargeSum_shrinks hg.ok.inv (inv_ref hg.ok.inv hc)
            (shrinks_ref s h)).trans_lt hlt
      | none =>
          have hnew : ∀ x, st.cache.isCached x = true → (st.cache.data x).pageId ≠ a.key := by
            intro x hx hk
            obtain ⟨hd, -⟩ := hg.entry_of_isCached hx
            exact find_eq_none hf (hg.isCached_iff.mp hx) hd ⟨hk, hsame x hx hk⟩
          have hadd := hg.addReplacing_lt hsame (hcharge hnew)
          have hok := ok_addReplacing hg.ok a
          rw [addReplacing_of_find_none hf] at hadd hok
          exact (chargeSum_makeRoom_le hok).trans_lt hadd
  | insert a =>
      exact ⟨_, hg.insert hs hroom.1, (chargeSum_makeRoom_le
        (ok_addReplacing hg.ok a)).trans_lt (hg.addReplacing_lt hroom.1 hroom.2)⟩
  | release h =>
      refine ⟨_, hg.release hs, ?_⟩
      rw [ShardRun.call] at hs
      split at hs
      next hheld =>
        exact (chargeSum_shrinks hg.ok.inv (inv_unref hg.ok.inv hheld)
          (shrinks_unref s h)).trans_lt hlt
      next => cases hs
  | erase key hash =>
      exact ⟨_, hg.erase hs, (chargeSum_shrinks hg.ok.inv
        (ok_erase hg.ok key _).inv (shrinks_erase s key _)).trans_lt hlt⟩
  | prune =>
      exact ⟨_, hg.prune hs, (chargeSum_shrinks hg.ok.inv
        (ok_prune hg.ok).inv (shrinks_prune s)).trans_lt hlt⟩
  | others freelist =>
      obtain rfl := Option.some.inj hs
      exact ⟨s, ⟨hg.rep.setFreelist freelist, hg.ok, hg.oneHash, hg.recent, hg.clock, hg.refs⟩, hlt⟩

lemma good_of_run {capacity : UInt64} {freelist : List ℕ} {tr : List ShardCall}
    (hrun : Run (Guarded Step Room) (start capacity freelist) tr st) :
    ∃ s, Good st s ∧ s.chargeSum < 2 ^ 64 := by
  refine hrun.invariant (I := fun st => ∃ s, Good st s ∧ s.chargeSum < 2 ^ 64) ?_ ?_
  · exact ⟨_, good_start capacity freelist, by norm_num [LruShard.chargeSum, LruShard.init,
      LruShard.cached]⟩
  · rintro st a st' ⟨s, hg, hlt⟩ ⟨hroom, hs⟩
    exact hg.call hlt hroom hs

/-- **The invariant of a shard** holds in every state of every run whose calls have room in the
machine words and enter no key with a second hash. -/
theorem run_invariant (capacity : UInt64) (freelist : List ℕ) {tr : List ShardCall} {st : ShardRun}
    (hrun : Run (Guarded Step Room) (start capacity freelist) tr st) : st.Invariant := by
  obtain ⟨s, hg, hlt⟩ := good_of_run hrun
  exact hg.invariant (hg.chargeTotal_eq ▸ hlt)

lemma start_room {capacity : UInt64} {freelist : List ℕ} (a : InsertArgs) :
    (start capacity freelist).Room (.lookupInsert a) := by
  have hnone : ∀ h, (start capacity freelist).cache.isCached h = false := by
    intro h
    simp [start, LRUCache.init, LRUCache.isCached]
  refine ⟨fun h hc => absurd hc (by simp [hnone]), fun h hc => absurd hc (by simp [hnone]),
    fun _ _ => ?_⟩
  have hzero : (start capacity freelist).cache.chargeOther a.key = 0 := by
    simp [LRUCache.chargeOther, hnone]
  rw [hzero, Nat.zero_add]
  exact a.charge.toNat_lt

/-- A page is entered, released and pruned. -/
theorem run_invariant_prune : ∃ st, Run (Guarded Step Room) (start 1 [7])
    [.lookupInsert ⟨⟨1, 1, 1, 0, 1⟩, 5, none, 1, none⟩, .release 2, .prune] st ∧ st.Invariant := by
  have heval : ((((start 1 [7]).call (.lookupInsert ⟨⟨1, 1, 1, 0, 1⟩, 5, none, 1, none⟩)).bind
      fun st => st.call (.release 2)).bind fun st => st.call .prune).isSome = true := by
    decide +kernel
  obtain ⟨st, hst⟩ := Option.isSome_iff_exists.mp heval
  obtain ⟨st₂, h₁₂, h₃⟩ := Option.bind_eq_some_iff.mp hst
  obtain ⟨st₁, h₁, h₂⟩ := Option.bind_eq_some_iff.mp h₁₂
  have hrun : Run (Guarded Step Room) (start 1 [7])
      [.lookupInsert ⟨⟨1, 1, 1, 0, 1⟩, 5, none, 1, none⟩, .release 2, .prune] st :=
    .cons ⟨start_room _, h₁⟩ (.cons ⟨trivial, h₂⟩ (.cons ⟨trivial, h₃⟩ .nil))
  exact ⟨st, hrun, run_invariant 1 [7] hrun⟩

/-- Two runs that break the invariant.  With capacity 1, two handles of charge `2 ^ 63` are inserted
and held: their charges sum to `2 ^ 64`, and `usage_` is zero.  With capacity 2, one key is entered
with two hashes: it is in the cache twice. -/
theorem usage_wraps :
    (∃ st, Run Step (start 1 []) [
      .insert ⟨⟨1, 1, 1, 0, 1⟩, 5, some 10, 9223372036854775808, none⟩,
      .insert ⟨⟨1, 1, 1, 0, 2⟩, 6, some 11, 9223372036854775808, none⟩] st ∧ ¬st.Invariant) ∧
    ∃ st, Run Step (start 2 [7, 8]) [
      .lookupInsert ⟨⟨1, 1, 1, 0, 0⟩, 5, none, 1, none⟩,
      .lookupInsert ⟨⟨1, 1, 1, 0, 0⟩, 6, none, 1, none⟩] st ∧ ¬st.Invariant := by
  constructor
  · have heval : (List.foldlM call (start 1 []) [
        .insert ⟨⟨1, 1, 1, 0, 1⟩, 5, some 10, 9223372036854775808, none⟩,
        .insert ⟨⟨1, 1, 1, 0, 2⟩, 6, some 11, 9223372036854775808, none⟩]).any (fun st =>
          decide (st.cache.usage.toNat = 0 ∧ st.cache.chargeTotal = 2 ^ 64)) = true := by
      decide +kernel
    obtain ⟨st, hst, hobs⟩ := exists_run_of_any heval
    obtain ⟨husage, htotal⟩ := of_decide_eq_true hobs
    refine ⟨st, hst, ?_⟩
    rintro ⟨lru, inUse, chain, hinv⟩
    have := hinv.usage
    rw [husage, htotal] at this
    exact absurd this (by norm_num)
  · have heval : (List.foldlM call (start 2 [7, 8]) [
        .lookupInsert ⟨⟨1, 1, 1, 0, 0⟩, 5, none, 1, none⟩,
        .lookupInsert ⟨⟨1, 1, 1, 0, 0⟩, 6, none, 1, none⟩]).any (fun st =>
          decide (st.cache.isCached 2 = true ∧ st.cache.isCached 3 = true ∧
            (st.cache.data 2).pageId = (st.cache.data 3).pageId)) = true := by
      decide +kernel
    obtain ⟨st, hst, hobs⟩ := exists_run_of_any heval
    obtain ⟨htwo, hthree, hkey⟩ := of_decide_eq_true hobs
    refine ⟨st, hst, ?_⟩
    rintro ⟨lru, inUse, chain, hinv⟩
    exact absurd (hinv.keys 2 3 htwo hthree hkey) (by decide)

/-- **Every call returns** in every state of every run, with no invalid access on the way, while the
table holds fewer than `2 ^ 31` handles and the counters have room for one more reference. -/
theorem run_calls_return (capacity : UInt64) (freelist : List ℕ) {tr : List ShardCall}
    {st : ShardRun} (hrun : Run (Guarded Step Room) (start capacity freelist) tr st)
    (helems : st.cache.table.elems.toNat < 2 ^ 31) (hroom : ∀ h, st.held h + 2 < 2 ^ 32)
    (a : ShardCall) (hheld : ∀ h, a = .release h → 0 < st.held h) : (st.call a).isSome = true := by
  obtain ⟨s, hg, -⟩ := good_of_run hrun
  obtain ⟨bs, htable⟩ := hg.rep.table
  rw [htable.elems] at helems
  exact hg.call_isSome helems hroom a hheld

/-- After one page was entered and released, a second one can be entered. -/
theorem run_calls_return_second : ∃ st, Run (Guarded Step Room) (start 1 [7])
    [.lookupInsert ⟨⟨1, 1, 1, 0, 1⟩, 5, none, 1, none⟩, .release 2] st ∧
      (st.call (.lookupInsert ⟨⟨1, 1, 1, 0, 2⟩, 6, none, 1, none⟩)).isSome = true := by
  have heval : (((start 1 [7]).call (.lookupInsert ⟨⟨1, 1, 1, 0, 1⟩, 5, none, 1, none⟩)).bind
      fun st => st.call (.release 2)).map (fun st => st.cache.table.elems) = some 1 := by
    decide +kernel
  obtain ⟨st, hst, helems⟩ := Option.map_eq_some_iff.mp heval
  obtain ⟨st₁, h₁, h₂⟩ := Option.bind_eq_some_iff.mp hst
  have hrun : Run (Guarded Step Room) (start 1 [7])
      [.lookupInsert ⟨⟨1, 1, 1, 0, 1⟩, 5, none, 1, none⟩, .release 2] st :=
    .cons ⟨start_room _, h₁⟩ (.cons ⟨trivial, h₂⟩ .nil)
  have hheld : ∀ h, st.held h + 2 < 2 ^ 32 := by
    intro h
    rw [call, Option.map_eq_some_iff] at h₁
    obtain ⟨r, -, rfl⟩ := h₁
    rw [call] at h₂
    split at h₂
    · obtain ⟨r', -, rfl⟩ := Option.map_eq_some_iff.mp h₂
      simp only [dropRef, takeRef, update_apply, start]
      split_ifs <;> norm_num
    · cases h₂
  exact ⟨st, hrun, run_calls_return 1 [7] hrun (by rw [helems]; decide) hheld _ (by rintro h ⟨⟩)⟩

end ShardRun

end GroundDB
