import GroundDB.Lib.Run
import GroundDB.Lib.Tokens
import GroundDB.LruCache.Eviction

/-!
# The memory pool

The cache of the memory node has 128 shards, chosen by the upper seven bits of a key's hash, and
one free list of page slots (`ShardedLRUCache`, `FreeList`).  A page slot is a `PageMeta`, here its
number in the page array.  A slot is taken from the free list, or from an evicted handle, by
`LookupInsert` with a null value; it is the value of the handle from then on.

A handle is an address in the memory of its shard.  Calls run under the lock of their shard, and
the free list has a lock of its own that is taken last, so a run is a sequence of calls; `Prune`
of the whole cache is one call for each shard.

The first result is that page slots are never shared: no two handles have the same slot, and no
handle has one that is also free.
-/

namespace GroundDB

open PtrHeap Lts Tokens Function LruShard

/-- `kNumShards`. -/
def kNumShards : ℕ := 128

/-- `Shard`: the upper seven bits of a hash. -/
def shardOf (hash : UInt32) : Fin kNumShards :=
  ⟨(hash >>> 25).toNat, by
    have := hash.toNat_lt
    rw [UInt32.toNat_shiftRight]
    simp only [UInt32.reduceToNat, kNumShards, Nat.shiftRight_eq_div_pow, Nat.reduceMod,
      Nat.reducePow]
    omega⟩

/-- The shards, the free list, and the references clients hold. -/
structure PoolRun where
  shards : Fin kNumShards → LruShard
  freelist : List ℕ
  held : Fin kNumShards → ℕ → ℕ

/-- The calls of the pool's clients, with the hash that `ShardedLRUCache` computes of a key. -/
inductive PoolCall
  | lookup (key : KeyType) (hash : UInt32)
  | lookupInsert (key : KeyType) (hash : UInt32) (charge : UInt64)
  | release (i : Fin kNumShards) (h : ℕ)
  | erase (key : KeyType) (hash : UInt32)
  | prune (i : Fin kNumShards)

/-- `Erase` and `Prune` take handles out of the cache. -/
def PoolCall.removes : PoolCall → Bool
  | .erase _ _ => true
  | .prune _ => true
  | _ => false

namespace PoolRun

/-- A pool with empty shards. -/
def start (capacity : Fin kNumShards → UInt64) (freelist : List ℕ) : PoolRun :=
  { shards := fun i => LruShard.init (capacity i), freelist := freelist, held := fun _ _ => 0 }

/-- One shard, the free list and the references to handles of the shard change. -/
def set (st : PoolRun) (i : Fin kNumShards) (s : LruShard) (freelist : List ℕ) (held : ℕ → ℕ) :
    PoolRun :=
  { shards := update st.shards i s, freelist := freelist
    held := update st.held i held }

/-- The arguments of `LookupInsert` in the memory pool: no value and no deleter. -/
def insertArgs (key : KeyType) (hash : UInt32) (charge : UInt64) : InsertArgs :=
  ⟨key, hash, none, charge, none⟩

/-- One call.  `Release` finds the shard of a handle by the hash in it. -/
def call (st : PoolRun) : PoolCall → Option PoolRun
  | .lookup key hash =>
      let i := shardOf hash
      let r := (st.shards i).lookup key hash
      some (st.set i r.2 st.freelist (takeResult (st.held i) r.1))
  | .lookupInsert key hash charge =>
      let i := shardOf hash
      let r := (st.shards i).lookupInsert st.freelist (insertArgs key hash charge)
      some (st.set i r.2.1 r.2.2 (takeRef (st.held i) r.1))
  | .release j h =>
      if 0 < st.held j h then
        ((st.shards j).entries h).map fun d =>
          let i := shardOf d.hash
          st.set i ((st.shards i).unref h) st.freelist (dropRef (st.held i) h)
      else none
  | .erase key hash =>
      let i := shardOf hash
      some (st.set i ((st.shards i).erase key hash) st.freelist (st.held i))
  | .prune i => some (st.set i (st.shards i).prune st.freelist (st.held i))

/-- The handle that `LookupInsert` returns. -/
def returned (st : PoolRun) (key : KeyType) (hash : UInt32) (charge : UInt64) :
    Fin kNumShards × ℕ :=
  (shardOf hash, ((st.shards (shardOf hash)).lookupInsert st.freelist
    (insertArgs key hash charge)).1)

/-- The handle that `Lookup` returns. -/
def found (st : PoolRun) (key : KeyType) (hash : UInt32) :
    Option (Fin kNumShards × ℕ) :=
  ((st.shards (shardOf hash)).lookup key hash).1.map (shardOf hash, ·)

/-- The steps of a run. -/
def Step (st : PoolRun) (a : PoolCall) (st' : PoolRun) : Prop := st.call a = some st'

/-- The page slot of a live handle. -/
def owner (st : PoolRun) (h : Fin kNumShards × ℕ) : Ptr := (st.shards h.1).valueOf h.2

/-! ## The shards are in order -/

/-- Every shard keeps its invariant, and its handles belong to it. -/
structure Ok (st : PoolRun) : Prop where
  shard : ∀ i, ShardOk (st.shards i) (st.held i)
  home : ∀ i h d, (st.shards i).entries h = some d → shardOf d.hash = i

variable {st st' : PoolRun} {i : Fin kNumShards} {s : LruShard}
  {freelist : List ℕ} {held : ℕ → ℕ} {a : PoolCall}

lemma ok_start (capacity : Fin kNumShards → UInt64) (freelist : List ℕ) :
    (start capacity freelist).Ok := by
  refine ⟨fun i => ok_init (capacity i), ?_⟩
  intro i h d hd
  cases hd

@[simp] lemma set_shards_self : (st.set i s freelist held).shards i = s := update_self ..

lemma set_shards_of_ne {j : Fin kNumShards} (hj : j ≠ i) :
    (st.set i s freelist held).shards j = st.shards j := update_of_ne hj _ _

@[simp] lemma set_freelist : (st.set i s freelist held).freelist = freelist := rfl

lemma Ok.set (hok : st.Ok) (hs : ShardOk s held)
    (hhome : ∀ h d, s.entries h = some d → shardOf d.hash = i) :
    (st.set i s freelist held).Ok := by
  refine ⟨?_, ?_⟩
  · intro j
    by_cases hj : j = i
    · subst hj
      simpa [PoolRun.set] using hs
    · simpa [PoolRun.set, hj] using hok.shard j
  · intro j h d hd
    by_cases hj : j = i
    · subst hj
      rw [set_shards_self] at hd
      exact hhome h d hd
    · rw [set_shards_of_ne hj] at hd
      exact hok.home j h d hd

/-- **What a call does**: it makes a new handle in a shard, or it changes a shard in which handles
only go.  Without `Erase` and `Prune` the cached ones stay. -/
lemma Ok.call_cases (hok : st.Ok) (hs : st.call a = some st') :
    (∃ key hash charge s fl held, a = .lookupInsert key hash charge ∧
      (st.shards (shardOf hash)).find key hash = none ∧
      LruShard.Inserted (st.shards (shardOf hash)) st.freelist (insertArgs key hash charge)
        ((st.shards (shardOf hash)).evicted charge) s fl ∧
      ShardOk s held ∧ st' = st.set (shardOf hash) s fl held) ∨
    ∃ i s held, st' = st.set i s st.freelist held ∧ ShardOk s held ∧
      Shrinks s (st.shards i) ∧
      (a.removes = false → Recounts (st.shards i) s) := by
  cases a with
  | lookup key hash =>
      right
      obtain rfl := Option.some.inj hs
      exact ⟨_, _, _, rfl, ok_lookup (hok.shard _) key _,
        shrinks_lookup _ key _, fun _ => recounts_lookup _ key _⟩
  | lookupInsert key hash charge =>
      obtain rfl := Option.some.inj hs
      cases hf : (st.shards (shardOf hash)).find key hash with
      | none =>
          left
          exact ⟨key, hash, charge, _, _, _, rfl, hf,
            (lookupInsert_spec _ (insertArgs key hash charge) (hok.shard _) hf rfl).2,
            ok_lookupInsert (hok.shard _) _ _, rfl⟩
      | some h =>
          right
          have hres : (st.shards (shardOf hash)).lookupInsert st.freelist
              (insertArgs key hash charge)
                = (h, (st.shards (shardOf hash)).ref h, st.freelist) := by
            simp [LruShard.lookupInsert, insertArgs, hf]
          rw [hres]
          exact ⟨_, _, _, rfl, ok_ref (hok.shard _) (find_spec hf).1,
            shrinks_ref _ h, fun _ => recounts_ref _ h⟩
  | release j h =>
      right
      rw [call] at hs
      split at hs
      next hheld =>
        obtain ⟨d, hd, rfl⟩ := Option.map_eq_some_iff.mp hs
        rw [hok.home j h d hd]
        exact ⟨_, _, _, rfl, ok_unref (hok.shard j) hheld,
          shrinks_unref _ h, fun _ => recounts_unref (hok.shard j).inv hheld⟩
      next => cases hs
  | erase key hash =>
      right
      obtain rfl := Option.some.inj hs
      refine ⟨_, _, _, rfl, ok_erase (hok.shard _) key _, shrinks_erase _ key _,
        fun hr => ?_⟩
      cases hr
  | prune i =>
      right
      obtain rfl := Option.some.inj hs
      refine ⟨_, _, _, rfl, ok_prune (hok.shard _), shrinks_prune _,
        fun hr => ?_⟩
      cases hr

lemma Ok.home_shrinks (hok : st.Ok) (hs : Shrinks s (st.shards i)) :
    ∀ h d, s.entries h = some d → shardOf d.hash = i := by
  intro h d hd
  obtain ⟨d₀, hd₀, hsame, -⟩ := hs h d hd
  rw [hsame.hash]
  exact hok.home i h d₀ hd₀

lemma Ok.home_inserted (hok : st.Ok) {key : KeyType} {hash : UInt32} {charge : UInt64} {vs : List ℕ}
    {fl : List ℕ} (hins : LruShard.Inserted (st.shards (shardOf hash)) st.freelist
      (insertArgs key hash charge) vs s fl) :
    ∀ h d, s.entries h = some d → shardOf d.hash = shardOf hash := by
  intro h d hd
  by_cases hh : h = (st.shards (shardOf hash)).fresh
  · rw [hh, hins.new] at hd
    cases hd
    rfl
  · rw [hins.entries h hh] at hd
    split at hd
    · cases hd
    · exact hok.home _ h d hd

/-- Every call keeps the shards in order. -/
theorem Ok.call (hok : st.Ok) (hs : st.call a = some st') : st'.Ok := by
  rcases hok.call_cases hs with
    ⟨_, _, _, s, fl, held, -, -, hins, hsok, rfl⟩ | ⟨i, s, held, rfl, hsok, hshrinks, -⟩
  · exact hok.set hsok (hok.home_inserted hins)
  · exact hok.set hsok (hok.home_shrinks hshrinks)

/-! ## Slots are not shared -/

lemma owner_set (h : Fin kNumShards × ℕ) : (st.set i s freelist held).owner h
    = if h.1 = i then s.valueOf h.2 else st.owner h := by
  by_cases hi : h.1 = i
  · subst hi
    rw [if_pos rfl, owner, set_shards_self]
  · rw [if_neg hi, owner, set_shards_of_ne hi]
    rfl

lemma valueOf_shrinks {s s' : LruShard} (hs : Shrinks s' s) (x : ℕ) :
    s'.valueOf x = s.valueOf x ∨ s'.valueOf x = none := by
  cases hd : s'.entries x with
  | none =>
      right
      rw [LruShard.valueOf, hd]
      rfl
  | some d' =>
      left
      obtain ⟨d, hd₀, hsame, -⟩ := hs x d' hd
      rw [LruShard.valueOf, LruShard.valueOf, hd, hd₀]
      exact hsame.value

/-- What an insertion in the shard `i` does to the slots: the evicted handles `vs` lose theirs, and
the new handle gets the front of the free list, or the first slot among theirs. -/
structure Enters (st st' : PoolRun) (i : Fin kNumShards) (vs : List ℕ) : Prop where
  old : ∀ h, h ≠ (i, (st.shards i).fresh) →
    st'.owner h = if h.1 = i ∧ h.2 ∈ vs then none else st.owner h
  new : st'.owner (i, (st.shards i).fresh)
    = if vs = [] then st.freelist.head? else vs.findSome? (st.shards i).valueOf
  free : st'.freelist = if vs = [] then st.freelist.tail else st.freelist
  before : st.owner (i, (st.shards i).fresh) = none

lemma Ok.enters (hok : st.Ok) {a : InsertArgs} {vs fl : List ℕ}
    (hins : LruShard.Inserted (st.shards i) st.freelist a vs s fl) :
    Enters st (st.set i s fl held) i vs := by
  refine ⟨?_, ?_, hins.free, ?_⟩
  · rintro ⟨j, x⟩ hne
    rw [owner_set]
    by_cases hj : j = i
    · subst hj
      have hx : x ≠ (st.shards j).fresh := fun hx => hne (by rw [hx])
      simp only [if_true, true_and]
      rw [LruShard.valueOf, hins.entries x hx]
      split <;> rfl
    · simp [hj]
  · rw [owner_set, if_pos rfl, LruShard.valueOf, hins.new]
    rfl
  · rw [owner, LruShard.valueOf, (hok.shard i).inv.entries_fresh]
    rfl

/-- **An insertion keeps slots exclusive.** -/
lemma Enters.exclusive {vs : List ℕ} (he : Enters st st' i vs)
    (hx : Exclusive st.owner st.freelist) : Exclusive st'.owner st'.freelist := by
  rw [he.free]
  by_cases hnil : vs = []
  · -- nothing was evicted: the new handle takes the front of the free list
    rw [if_pos hnil]
    refine hx.take (e := (i, (st.shards i).fresh)) ?_ ?_
    · intro h hne
      simpa [hnil] using he.old h hne
    · simpa [hnil] using he.new
  rw [if_neg hnil]
  have hother : ∀ h, h ≠ (i, (st.shards i).fresh) →
      st'.owner h = st.owner h ∨ st'.owner h = none := by
    intro h hne
    rw [he.old h hne]
    split
    · exact .inr rfl
    · exact .inl rfl
  have hnew := he.new
  rw [if_neg hnil] at hnew
  cases hp : vs.findSome? (st.shards i).valueOf with
  | none =>
      -- no evicted handle had a slot, so the new one has none either
      refine hx.drop fun h => ?_
      by_cases hne : h = (i, (st.shards i).fresh)
      · right
        rw [hne, hnew, hp]
      · exact hother h hne
  | some p =>
      obtain ⟨o, hmem, ho⟩ := List.exists_of_findSome?_eq_some hp
      refine hx.takeOver (e := (i, (st.shards i).fresh)) (o := (i, o)) hother ?_ (.inl ?_)
      · rw [hnew, hp]
        exact ho.symm
      · rw [he.old, if_pos ⟨rfl, hmem⟩]
        intro heq
        have hbefore := he.before
        rw [← heq] at hbefore
        have ho' : st.owner (i, o) = some p := ho
        rw [hbefore] at ho'
        cases ho'

lemma owner_shrinks (hs : Shrinks s (st.shards i)) (h : Fin kNumShards × ℕ) :
    (st.set i s freelist held).owner h = st.owner h ∨
      (st.set i s freelist held).owner h = none := by
  rw [owner_set]
  split
  next hi =>
    rw [← hi] at hs
    exact valueOf_shrinks hs h.2
  next => exact .inl rfl

/-- **A call keeps slots exclusive.** -/
lemma exclusive_call (hok : st.Ok) (hx : Exclusive st.owner st.freelist)
    (hs : st.call a = some st') : Exclusive st'.owner st'.freelist := by
  rcases hok.call_cases hs with
    ⟨_, _, _, s, fl, held, -, -, hins, -, rfl⟩ | ⟨i, s, held, rfl, -, hshrinks, -⟩
  · exact (hok.enters hins).exclusive hx
  · exact hx.drop (owner_shrinks hshrinks)

/-- **Page slots are never shared.**  From a free list of distinct slots, in every state of every
run no two live handles have the same slot and no slot of a live handle is free. -/
theorem slots_not_shared (capacity : Fin kNumShards → UInt64)
    {freelist : List ℕ} (hnodup : freelist.Nodup) {tr : List PoolCall} {st : PoolRun}
    (hrun : Run Step (start capacity freelist) tr st) :
    (∀ h h' p, st.owner h = some p → st.owner h' = some p → h = h') ∧
      ∀ h p, st.owner h = some p → p ∉ st.freelist := by
  have hinv : st.Ok ∧ Exclusive st.owner st.freelist := by
    refine hrun.invariant (I := fun st => st.Ok ∧ Exclusive st.owner st.freelist) ?_ ?_
    · refine ⟨ok_start capacity freelist, ?_, ?_, hnodup⟩
      · intro h h' p hp
        cases hp
      · intro h p hp
        cases hp
    · rintro st a st' ⟨hok, hx⟩ hs
      exact ⟨hok.call hs, exclusive_call hok hx hs⟩
  exact ⟨hinv.2.inj, hinv.2.notFree⟩

/-- Two pages are entered into a shard of capacity 1 with the slots 4 and 5 free. -/
theorem slots_not_shared_two :
    ∃ st, Run Step (start (fun _ => 1) [4, 5])
        [.lookupInsert ⟨1, 1, 1, 0, 1⟩ 0 1, .lookupInsert ⟨1, 1, 1, 0, 2⟩ 0 1] st ∧
      (∀ h h' p, st.owner h = some p → st.owner h' = some p → h = h') ∧
      ∀ h p, st.owner h = some p → p ∉ st.freelist := by
  have hrun : ∃ st, Run Step (start (fun _ => 1) [4, 5])
      [.lookupInsert ⟨1, 1, 1, 0, 1⟩ 0 1, .lookupInsert ⟨1, 1, 1, 0, 2⟩ 0 1] st :=
    ⟨_, .cons rfl (.cons rfl .nil)⟩
  obtain ⟨st, hst⟩ := hrun
  exact ⟨st, hst, slots_not_shared (fun _ => 1) (by decide) hst⟩

end PoolRun

end GroundDB
