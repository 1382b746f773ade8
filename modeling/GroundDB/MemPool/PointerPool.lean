import GroundDB.LruCache.Runs
import GroundDB.MemPool.Pool

/-!
# The pool of pointer shards

`ShardedLRUCache` as the program has it: 128 shards, each with lists and a hash table in memory and
counters of 32 bits, and the free list they share.  The memory pool was described with shards of
lists and counters without bound (`PoolRun`).

**A step** of the pointer pool is a step of the pool with the same result (`Refines.call`) where the
counter of a handle that gets another reference has room for it; and it is made whenever the pool
makes one, unless a table has `2 ^ 31` handles, for which `Resize` would not end.  **A run** of the
pointer pool is then a run of the pool (`pointer_run_refines`), so that what holds of the slots in
all runs of the pool holds of the slots in memory.
-/

namespace GroundDB

open PtrHeap Lts

/-- `ShardedLRUCache`: the memory of its shards, the free list, and the references clients hold. -/
structure ShardedLRUCache where
  shards : Fin kNumShards → LRUCache
  freelist : List ℕ
  held : Fin kNumShards → ℕ → ℕ

namespace ShardedLRUCache

/-- A cache with empty shards. -/
def start (capacity : Fin kNumShards → UInt64) (freelist : List ℕ) : ShardedLRUCache :=
  { shards := fun i => LRUCache.init (capacity i) freelist, freelist := freelist
    held := fun _ _ => 0 }

/-- The memory of one shard, the free list and the references to handles of the shard change. -/
def set (p : ShardedLRUCache) (i : Fin kNumShards) (c : LRUCache) (freelist : List ℕ)
    (held : ℕ → ℕ) : ShardedLRUCache :=
  { shards := Function.update p.shards i c, freelist := freelist
    held := Function.update p.held i held }

/-- One call.  `Release` reads the hash in the handle to find its shard. -/
def call (p : ShardedLRUCache) : PoolCall → Option ShardedLRUCache
  | .lookup key hash =>
      let i := shardOf hash
      ((LRUCache.lookup key hash).run (p.shards i)).map fun r =>
        p.set i r.2 p.freelist (takeResult (p.held i) r.1)
  | .lookupInsert key hash charge =>
      let i := shardOf hash
      ((LRUCache.lookupInsert (PoolRun.insertArgs key hash charge)).run
        ((p.shards i).setFreelist p.freelist)).map fun r =>
          p.set i r.2 r.2.freelist (takeRef (p.held i) r.1)
  | .release j h =>
      if 0 < p.held j h ∧ (p.shards j).isLive h = true then
        let i := shardOf ((p.shards j).data h).hash
        ((LRUCache.release h).run (p.shards i)).map fun r =>
          p.set i r.2 p.freelist (dropRef (p.held i) h)
      else none
  | .erase key hash =>
      let i := shardOf hash
      ((LRUCache.erase key hash).run (p.shards i)).map fun r => p.set i r.2 p.freelist (p.held i)
  | .prune i => (LRUCache.prune.run (p.shards i)).map fun r => p.set i r.2 p.freelist (p.held i)

/-- The steps of a run. -/
def Step (p : ShardedLRUCache) (a : PoolCall) (p' : ShardedLRUCache) : Prop := p.call a = some p'

/-- The counter of the handle that is found has room for one more reference. -/
def CounterRoom (p : ShardedLRUCache) (key : KeyType) (hash : UInt32) : Prop :=
  ∀ h < (p.shards (shardOf hash)).fresh, (p.shards (shardOf hash)).isCached h = true →
    ((p.shards (shardOf hash)).data h).pageId = key →
    ((p.shards (shardOf hash)).data h).refs.toNat + 1 < 2 ^ 32

instance (p : ShardedLRUCache) (key : KeyType) (hash : UInt32) :
    Decidable (p.CounterRoom key hash) :=
  inferInstanceAs (Decidable (∀ h < _, _ → _ → _))

/-- No counter overflows in a call. -/
def Room (p : ShardedLRUCache) : PoolCall → Prop
  | .lookup key hash => p.CounterRoom key hash
  | .lookupInsert key hash _ => p.CounterRoom key hash
  | _ => True

instance (p : ShardedLRUCache) (a : PoolCall) : Decidable (p.Room a) :=
  match a with
  | .lookup key hash => inferInstanceAs (Decidable (p.CounterRoom key hash))
  | .lookupInsert key hash _ => inferInstanceAs (Decidable (p.CounterRoom key hash))
  | .release _ _ => .isTrue trivial
  | .erase _ _ => .isTrue trivial
  | .prune _ => .isTrue trivial

/-- **The pointer pool holds the pool**: each memory holds a shard of lists, with the same
references given out, and the free list is the same. -/
structure Refines (p : ShardedLRUCache) (st : PoolRun) : Prop where
  shard : ∀ i, LRUCache.ShardRep (p.shards i) (st.shards i)
  freelist : p.freelist = st.freelist
  held : p.held = st.held

variable {p p' : ShardedLRUCache} {st : PoolRun}

lemma refines_start (capacity : Fin kNumShards → UInt64) (freelist : List ℕ) :
    Refines (start capacity freelist) (PoolRun.start capacity freelist) :=
  ⟨fun i => LRUCache.rep_init (capacity i) freelist, rfl, rfl⟩

lemma Refines.set (hr : Refines p st) {i : Fin kNumShards} {c : LRUCache} {s : LruShard}
    (hrep : LRUCache.ShardRep c s) (freelist : List ℕ) (held : ℕ → ℕ) :
    Refines (p.set i c freelist held) (st.set i s freelist held) := by
  refine ⟨fun j => ?_, rfl, ?_⟩
  · by_cases hj : j = i
    · subst hj
      simpa [ShardedLRUCache.set, PoolRun.set] using hrep
    · simpa [ShardedLRUCache.set, PoolRun.set, hj] using hr.shard j
  · simp only [ShardedLRUCache.set, PoolRun.set, hr.held]

/-- The handle that a shard of lists finds has room in its counter. -/
lemma Refines.counterRoom (hr : Refines p st) (hok : st.Ok) {key : KeyType} {hash : UInt32}
    (hroom : p.CounterRoom key hash) :
    ∀ x, (st.shards (shardOf hash)).find key hash = some x →
      ((p.shards (shardOf hash)).data x).refs.toNat + 1 < 2 ^ 32 := by
  intro x hx
  obtain ⟨hc, d, hd, hk, -⟩ := LruShard.find_spec hx
  obtain ⟨-, -, rfl⟩ := (hr.shard _).lists.live_of_entry hd
  have hlt := ((hok.shard _).inv.handle x).fresh _ hd
  rw [← (hr.shard _).lists.fresh] at hlt
  exact hroom x hlt (((hr.shard _).isCached_iff (hok.shard _).inv).mpr hc) hk

/-- **A call** of the pointer pool, where the counters have room: it does what the call of the pool
does, or nothing where that does nothing; or a table has `2 ^ 31` handles. -/
theorem Refines.call (hr : Refines p st) (hok : st.Ok) {a : PoolCall} (hroom : p.Room a) :
    (∃ p' st', p.call a = some p' ∧ st.call a = some st' ∧ Refines p' st') ∨
    (p.call a = none ∧ st.call a = none) ∨
    (p.call a = none ∧ ∃ i, 2 ^ 31 ≤ (st.shards i).cached.length) := by
  cases a with
  | lookup key hash =>
      left
      obtain ⟨c', hrun, hrep, -⟩ := LRUCache.lookup_rep (hr.shard (shardOf hash)) (hok.shard _)
        (hr.counterRoom hok hroom)
      refine ⟨_, _, by simp only [ShardedLRUCache.call, hrun, Option.map_some]; rfl, rfl, ?_⟩
      simp only [hr.freelist, hr.held]
      exact hr.set hrep _ _
  | lookupInsert key hash charge =>
      rcases LRUCache.lookupInsert_rep (a := PoolRun.insertArgs key hash charge)
        ((hr.shard (shardOf hash)).setFreelist p.freelist) (hok.shard _)
        (hr.counterRoom hok hroom) with ⟨c', hrun, hrep, hfree⟩ | ⟨hnone, hbig⟩
      · left
        refine ⟨_, _, by simp only [ShardedLRUCache.call, hrun, Option.map_some]; rfl, rfl, ?_⟩
        simp only [LRUCache.setFreelist, hr.freelist] at hrep hfree
        simp only [LRUCache.setFreelist, hr.freelist, hr.held, hfree]
        exact hr.set hrep _ _
      · right; right
        exact ⟨by simp [ShardedLRUCache.call, hnone], _, hbig⟩
  | release j h =>
      by_cases hheld : 0 < st.held j h
      · left
        obtain ⟨d, hd⟩ := ((hok.shard j).inv.handle h).live hheld
        obtain ⟨-, -, rfl⟩ := (hr.shard j).lists.live_of_entry hd
        have hhome := hok.home j h _ hd
        simp only [LRUCache.count] at hhome
        have hlive := (hr.shard j).isLive_iff.mpr hd
        obtain ⟨c', hrun, hrep, -⟩ := LRUCache.release_rep (hr.shard j) (hok.shard j).inv hheld
        refine ⟨p.set j c' p.freelist (dropRef (p.held j) h),
          st.set j ((st.shards j).unref h) st.freelist (dropRef (st.held j) h), ?_, ?_, ?_⟩
        · rw [ShardedLRUCache.call, if_pos ⟨by rwa [hr.held], hlive⟩]
          simp only [hhome, hrun, Option.map_some]
        · rw [PoolRun.call, if_pos hheld, hd, Option.map_some]
          simp only [LRUCache.count, hhome]
        · rw [hr.freelist, hr.held]
          exact hr.set hrep _ _
      · right; left
        rw [ShardedLRUCache.call, PoolRun.call, if_neg hheld, hr.held, if_neg (fun h => hheld h.1)]
        exact ⟨rfl, rfl⟩
  | erase key hash =>
      left
      obtain ⟨c', hrun, hrep, -⟩ := LRUCache.erase_rep (hr.shard (shardOf hash)) (hok.shard _) key
        hash
      refine ⟨_, _, by simp only [ShardedLRUCache.call, hrun, Option.map_some]; rfl, rfl, ?_⟩
      simp only [hr.freelist, hr.held]
      exact hr.set hrep _ _
  | prune i =>
      left
      obtain ⟨c', hrun, hrep, -⟩ := LRUCache.prune_rep (hr.shard i) (hok.shard i)
      refine ⟨_, _, by simp only [ShardedLRUCache.call, hrun, Option.map_some]; rfl, rfl, ?_⟩
      simp only [hr.freelist, hr.held]
      exact hr.set hrep _ _

/-- **A run of the pointer pool** in which no counter overflows is a run of the pool: the calls give
the same handles out, and in the end each memory holds its shard. -/
theorem refines_of_run {capacity : Fin kNumShards → UInt64} {freelist : List ℕ}
    {tr : List PoolCall} (hrun : Run (Guarded Step Room) (start capacity freelist) tr p) :
    ∃ st, Run PoolRun.Step (.start capacity freelist) tr st ∧ st.Ok ∧ Refines p st := by
  induction hrun with
  | nil => exact ⟨_, .nil, PoolRun.ok_start capacity freelist, refines_start capacity freelist⟩
  | snoc _ hs ih =>
      obtain ⟨st, hrun, hok, hr⟩ := ih
      obtain ⟨hroom, hcall⟩ := hs
      rcases hr.call hok hroom with ⟨p', st', hp', hst', hr'⟩ | ⟨hnone, -⟩ | ⟨hnone, -⟩
      · obtain rfl := Option.some.inj (hp'.symm.trans hcall)
        exact ⟨st', .snoc hrun hst', hok.call hst', hr'⟩
      · rw [Step, hnone] at hcall
        cases hcall
      · rw [Step, hnone] at hcall
        cases hcall

/-- The page slot of a live handle, as it is in memory. -/
def slot (p : ShardedLRUCache) (h : Fin kNumShards × ℕ) : Ptr :=
  if (p.shards h.1).isLive h.2 = true then ((p.shards h.1).data h.2).value else none

lemma Refines.slot_eq (hr : Refines p st) (h : Fin kNumShards × ℕ) : p.slot h = st.owner h := by
  rw [slot, PoolRun.owner, LruShard.valueOf]
  split
  next hlive =>
    rw [(hr.shard h.1).isLive_iff.mp hlive]
    rfl
  next hdead =>
    cases hd : (st.shards h.1).entries h.2 with
    | none => rfl
    | some d =>
        obtain ⟨-, -, rfl⟩ := (hr.shard h.1).lists.live_of_entry hd
        exact absurd ((hr.shard h.1).isLive_iff.mpr hd) hdead

/-- **The pointer pool refines the pool.**  In every state of every run in which no counter
overflows there is a state of the pool, reached by the same calls, that has the same references,
free list and slots; and as long as no table has `2 ^ 31` handles, every further call with room
returns in the one exactly if it does in the other. -/
theorem pointer_run_refines (capacity : Fin kNumShards → UInt64) (freelist : List ℕ)
    {tr : List PoolCall} {p : ShardedLRUCache}
    (hrun : Run (Guarded Step Room) (start capacity freelist) tr p) :
    ∃ st, Run PoolRun.Step (.start capacity freelist) tr st ∧
      p.held = st.held ∧ p.freelist = st.freelist ∧ (∀ h, p.slot h = st.owner h) ∧
      ((∀ i, (p.shards i).table.elems.toNat < 2 ^ 31) → ∀ a, p.Room a →
        ((p.call a).isSome = true ↔ (st.call a).isSome = true)) := by
  obtain ⟨st, hst, hok, hr⟩ := refines_of_run hrun
  refine ⟨st, hst, hr.held, hr.freelist, hr.slot_eq, fun hsmall a hroom => ?_⟩
  rcases hr.call hok hroom with ⟨p', st', hp', hst', -⟩ | ⟨hp, hst⟩ | ⟨-, i, hbig⟩
  · simp [hp', hst']
  · simp [hp, hst]
  · obtain ⟨bs, htable⟩ := (hr.shard i).table
    have hlt := hsmall i
    rw [htable.elems] at hlt
    exact absurd hlt (Nat.not_lt.mpr hbig)

/-- A page is entered and released, a second one takes its slot, and is looked up. -/
theorem pointer_run_refines_two : ∃ tr p, Run (Guarded Step Room) (start (fun _ => 1) [4, 5]) tr p ∧
      tr = [.lookupInsert ⟨1, 1, 1, 0, 1⟩ 0 1, .release (shardOf 0) 2,
        .lookupInsert ⟨1, 1, 1, 0, 2⟩ 1 1, .lookup ⟨1, 1, 1, 0, 2⟩ 1] ∧
      p.slot (shardOf 0, 3) = some 4 ∧ p.held (shardOf 0) 3 = 2 ∧
      ∃ st, Run PoolRun.Step (.start (fun _ => 1) [4, 5]) tr st ∧ ∀ h, p.slot h = st.owner h := by
  have heval : (List.foldlM (fun p a => if Room p a then call p a else none)
      (start (fun _ => 1) [4, 5]) [.lookupInsert ⟨1, 1, 1, 0, 1⟩ 0 1, .release (shardOf 0) 2,
        .lookupInsert ⟨1, 1, 1, 0, 2⟩ 1 1, .lookup ⟨1, 1, 1, 0, 2⟩ 1]).any (fun p =>
          decide (p.slot (shardOf 0, 3) = some 4 ∧ p.held (shardOf 0) 3 = 2)) = true := by
    decide +kernel
  obtain ⟨p, hrun, hobs⟩ := exists_guarded_run_of_any heval
  obtain ⟨hslot, hheld⟩ := of_decide_eq_true hobs
  obtain ⟨st, hst, -, -, howner, -⟩ := pointer_run_refines (fun _ => 1) [4, 5] hrun
  exact ⟨_, p, hrun, rfl, hslot, hheld, st, hst, howner⟩

end ShardedLRUCache

end GroundDB
