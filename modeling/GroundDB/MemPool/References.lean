import GroundDB.MemPool.Slots

/-!
# Handles and references while nothing is erased

The handlers of the memory pool call `LookupInsert`, `Lookup` and `Release` only.  Then a live
handle is in the cache wherever the shard has capacity, so a page has one handle there and a lookup
finds it with the hash it was entered with; and every reference was given out by one of the first
two calls.
-/

namespace GroundDB

open PtrHeap Lts Tokens Function LruShard

namespace PoolRun

/-- The page is in the cache. -/
def IsCached (st : PoolRun) (key : KeyType) : Prop :=
  ∃ i, ∃ h ∈ (st.shards i).cached, ((st.shards i).entries h).map HandleData.pageId = some key

instance (st : PoolRun) (key : KeyType) : Decidable (st.IsCached key) :=
  inferInstanceAs (Decidable (∃ i, ∃ h ∈ (st.shards i).cached,
    ((st.shards i).entries h).map HandleData.pageId = some key))

/-- The page is in the cache, entered with this hash. -/
def IsCachedAs (st : PoolRun) (key : KeyType) (hash : UInt32) : Prop :=
  ∃ i, ∃ h ∈ (st.shards i).cached,
    ((st.shards i).entries h).map (fun d => (d.pageId, d.hash)) = some (key, hash)

instance (st : PoolRun) (key : KeyType) (hash : UInt32) : Decidable (st.IsCachedAs key hash) :=
  inferInstanceAs (Decidable (∃ i, ∃ h ∈ (st.shards i).cached,
    ((st.shards i).entries h).map (fun d => (d.pageId, d.hash)) = some (key, hash)))

variable {st st' : PoolRun} {a : PoolCall}

lemma IsCachedAs.isCached {key : KeyType} {hash : UInt32} (h : st.IsCachedAs key hash) :
    st.IsCached key := by
  obtain ⟨i, x, hc, hmap⟩ := h
  obtain ⟨d, hd, heq⟩ := Option.map_eq_some_iff.mp hmap
  exact ⟨i, x, hc, by rw [hd, Option.map_some, (Prod.mk.inj heq).1]⟩

/-- A lookup finds the page exactly if it is in the cache, entered with the hash of the call. -/
lemma Ok.find_iff (hok : st.Ok) {key : KeyType} {hash : UInt32} :
    (∃ h, (st.shards (shardOf hash)).find key hash = some h) ↔ st.IsCachedAs key hash := by
  constructor
  · rintro ⟨h, hf⟩
    obtain ⟨hc, d, hd, hk, hh⟩ := find_spec hf
    exact ⟨_, h, hc, by rw [hd, Option.map_some, hk, hh]⟩
  · rintro ⟨i, h, hc, hmap⟩
    obtain ⟨d, hd, heq⟩ := Option.map_eq_some_iff.mp hmap
    obtain ⟨rfl, rfl⟩ := Prod.mk.inj heq
    obtain ⟨d', hd', hin⟩ := (hok.shard i).inv.mem_cached_iff.mp hc
    obtain rfl : d = d' := Option.some.inj (hd.symm.trans hd')
    rw [hok.home i h d hd]
    exact ⟨h, (find_eq_some_iff (hok.shard i).inv (hok.shard i).unique).mpr
      ⟨d, hd, hin, rfl, rfl⟩⟩

lemma found_eq (st : PoolRun) (key : KeyType) (hash : UInt32) : st.found key hash
    = ((st.shards (shardOf hash)).find key hash).map (shardOf hash, ·) := by
  rw [found, LruShard.lookup]
  split
  next hf => rw [hf]
  next h hf => rw [hf]

/-- `Lookup` returns a handle exactly if the page is in the cache, entered with its hash. -/
lemma Ok.found_isSome_iff (hok : st.Ok) {key : KeyType} {hash : UInt32} :
    (st.found key hash).isSome = true ↔ st.IsCachedAs key hash := by
  rw [found_eq, Option.isSome_map, Option.isSome_iff_exists]
  exact hok.find_iff

/-! ## Resident handles -/

/-- Handles have the hash that `hashOf` gives their page and, where there is capacity, are in the
cache: which they are as long as nothing is erased or pruned. -/
structure Settled (hashOf : KeyType → UInt32) (st : PoolRun) : Prop where
  hashed : ∀ i h d, (st.shards i).entries h = some d → d.hash = hashOf d.pageId
  resident : ∀ i h d, (st.shards i).entries h = some d → 0 < (st.shards i).capacity →
    d.inCache = true

/-- The live handles of the page have this hash. -/
def SameHash (st : PoolRun) (key : KeyType) (hash : UInt32) : Prop :=
  ∀ i h d, (st.shards i).entries h = some d → d.pageId = key → d.hash = hash

variable {hashOf : KeyType → UInt32}

lemma settled_start (hashOf : KeyType → UInt32) (n : UInt64) :
    Settled hashOf (allocatePageArray n) := by
  constructor
  · intro i h d hd
    cases hd
  · intro i h d hd
    cases hd

/-- The hash of a page without handles, or with handles of this hash, is free to be this one. -/
lemma Settled.update (hst : Settled hashOf st) {key : KeyType} {hash : UInt32}
    (hsame : st.SameHash key hash) : Settled (update hashOf key hash) st := by
  refine ⟨fun i h d hd => ?_, hst.resident⟩
  by_cases hk : d.pageId = key
  · rw [hk, update_self]
    exact hsame i h d hd hk
  · rw [update_of_ne hk]
    exact hst.hashed i h d hd

lemma capacity_call (hok : st.Ok) (ha : a.removes = false) (hs : st.call a = some st')
    (j : Fin kNumShards) : (st'.shards j).capacity = (st.shards j).capacity := by
  rcases hok.call_cases hs with
    ⟨_, hash, _, s, fl, held, rfl, -, hins, -, rfl⟩ | ⟨i, s, held, rfl, -, -, hrecounts⟩
  · by_cases hj : j = shardOf hash
    · rw [hj, set_shards_self]
      exact hins.capacity
    · rw [set_shards_of_ne hj]
  · by_cases hj : j = i
    · rw [hj, set_shards_self]
      exact (hrecounts ha).capacity
    · rw [set_shards_of_ne hj]

/-- **The handles after a call** other than `Erase` and `Prune`: an old one, or the new one of a
`LookupInsert`. -/
lemma entry_call (hok : st.Ok) (ha : a.removes = false) (hs : st.call a = some st')
    {j : Fin kNumShards} {x : ℕ} {d' : HandleData ℕ} (hd' : (st'.shards j).entries x = some d') :
    (∃ d, (st.shards j).entries x = some d ∧ SameHandle d' d ∧ d'.inCache = d.inCache) ∨
      ∃ key hash charge, a = .lookupInsert key hash charge ∧ d'.pageId = key ∧ d'.hash = hash ∧
        d'.inCache = decide (0 < (st.shards j).capacity) := by
  rcases hok.call_cases hs with
    ⟨key, hash, charge, s, fl, held, rfl, -, hins, -, rfl⟩ | ⟨i, s, held, rfl, -, -, hrecounts⟩
  · by_cases hj : j = shardOf hash
    · subst hj
      rw [set_shards_self] at hd'
      by_cases hx : x = (st.shards (shardOf hash)).fresh
      · rw [hx, hins.new] at hd'
        cases hd'
        exact .inr ⟨key, hash, charge, rfl, rfl, rfl, rfl⟩
      · rw [hins.entries x hx] at hd'
        split at hd'
        · cases hd'
        · exact .inl ⟨d', hd', SameHandle.refl d', rfl⟩
    · rw [set_shards_of_ne hj] at hd'
      exact .inl ⟨d', hd', SameHandle.refl d', rfl⟩
  · left
    by_cases hj : j = i
    · subst hj
      rw [set_shards_self] at hd'
      exact (hrecounts ha).back x d' hd'
    · rw [set_shards_of_ne hj] at hd'
      exact ⟨d', hd', SameHandle.refl d', rfl⟩

/-- Calls other than `Erase` and `Prune` keep handles settled. -/
lemma Settled.call (hst : Settled hashOf st) (hok : st.Ok) (ha : a.removes = false)
    (hhash : ∀ key hash charge, a = .lookupInsert key hash charge → hashOf key = hash)
    (hs : st.call a = some st') : Settled hashOf st' := by
  constructor
  · intro i h d' hd'
    rcases entry_call hok ha hs hd' with ⟨d, hd, hsame, -⟩ | ⟨key, hash, charge, rfl, rfl, rfl, -⟩
    · rw [hsame.hash, hsame.pageId]
      exact hst.hashed i h d hd
    · exact (hhash _ _ _ rfl).symm
  · intro i h d' hd' hcap
    rw [capacity_call hok ha hs] at hcap
    rcases entry_call hok ha hs hd' with ⟨d, hd, -, hin⟩ | ⟨key, hash, charge, -, -, -, hin⟩
    · rw [hin]
      exact hst.resident i h d hd hcap
    · rw [hin]
      exact decide_eq_true hcap

lemma Settled.eq_of_pageId (hst : Settled hashOf st) (hok : st.Ok) {i j : Fin kNumShards}
    {h x : ℕ} {d dx : HandleData ℕ} (hd : (st.shards i).entries h = some d)
    (hc : d.inCache = true) (hx : (st.shards j).entries x = some dx)
    (hkey : d.pageId = dx.pageId) : (i, h) = (j, x) := by
  have hhash : d.hash = dx.hash := by
    rw [hst.hashed i h d hd, hst.hashed j x dx hx, hkey]
  obtain rfl : i = j := by
    rw [← hok.home i h d hd, ← hok.home j x dx hx, hhash]
  have hcap := (hok.shard i).room h d hd hc
  have hcx := hst.resident i x dx hx hcap
  rw [(hok.shard i).unique h x d dx hd hx hc hcx hkey hhash]

/-! ## References -/

lemma update_held (held : Fin kNumShards → ℕ → ℕ) (e : Fin kNumShards × ℕ) (f : ℕ → ℕ)
    (j : Fin kNumShards) (x : ℕ) :
    update held e.1 (update (held e.1) e.2 (f (held e.1 e.2))) j x =
      if e = (j, x) then f (held j x) else held j x := by
  obtain ⟨i, h⟩ := e
  by_cases hj : j = i
  · subst hj
    by_cases hx : x = h
    · simp [hx]
    · simp [hx, Ne.symm hx]
  · simp [hj, Ne.symm hj]

lemma held_lookupInsert {key : KeyType} {hash : UInt32} {charge : UInt64}
    (hs : st.call (.lookupInsert key hash charge) = some st') (j : Fin kNumShards) (x : ℕ) :
    st'.held j x = st.held j x + if st.returned key hash charge = (j, x) then 1 else 0 := by
  obtain rfl := Option.some.inj hs
  refine (update_held st.held (st.returned key hash charge) (· + 1) j x).trans ?_
  split_ifs <;> rfl

lemma held_lookup {key : KeyType} {hash : UInt32} (hs : st.call (.lookup key hash) = some st')
    (j : Fin kNumShards) (x : ℕ) :
    st'.held j x = st.held j x + if st.found key hash = some (j, x) then 1 else 0 := by
  obtain rfl := Option.some.inj hs
  cases hl : ((st.shards (shardOf hash)).lookup key hash).1 with
  | none => simp [found, hl, PoolRun.set, takeResult]
  | some h =>
      simp only [found, hl, Option.map_some, Option.some.injEq]
      refine (update_held st.held (shardOf hash, h) (· + 1) j x).trans ?_
      split_ifs <;> rfl

lemma held_release (hok : st.Ok) {e : Fin kNumShards × ℕ}
    (hs : st.call (.release e.1 e.2) = some st') (j : Fin kNumShards) (x : ℕ) :
    st'.held j x = st.held j x - if e = (j, x) then 1 else 0 := by
  rw [PoolRun.call] at hs
  split at hs
  next hheld =>
    obtain ⟨d, hd, rfl⟩ := Option.map_eq_some_iff.mp hs
    rw [hok.home e.1 e.2 d hd]
    refine (update_held st.held e (· - 1) j x).trans ?_
    split_ifs <;> rfl
  next => cases hs

lemma pageId_call (hok : st.Ok) (hs : st.call a = some st') {j : Fin kNumShards} {x : ℕ}
    {d : HandleData ℕ} (hd : (st.shards j).entries x = some d) (hheld : 0 < st'.held j x) :
    ∃ d', (st'.shards j).entries x = some d' ∧ d'.pageId = d.pageId := by
  obtain ⟨d', hd'⟩ := (((hok.call hs).shard j).inv.handle x).live hheld
  refine ⟨d', hd', ?_⟩
  rcases hok.call_cases hs with
    ⟨_, hash, _, s, fl, held, -, -, hins, -, rfl⟩ | ⟨i, s, held, rfl, -, hshrinks, -⟩
  · by_cases hj : j = shardOf hash
    · subst hj
      have hx : x ≠ (st.shards (shardOf hash)).fresh := by
        rintro rfl
        rw [(hok.shard _).inv.entries_fresh] at hd
        cases hd
      rw [set_shards_self, hins.entries x hx] at hd'
      split at hd'
      · cases hd'
      · rw [hd] at hd'
        cases hd'
        rfl
    · rw [set_shards_of_ne hj, hd] at hd'
      cases hd'
      rfl
  · by_cases hj : j = i
    · subst hj
      rw [set_shards_self] at hd'
      obtain ⟨d₀, hd₀, hsame, -⟩ := hshrinks x d' hd'
      rw [hd] at hd₀
      cases hd₀
      exact hsame.pageId
    · rw [set_shards_of_ne hj, hd] at hd'
      cases hd'
      rfl

/-- Unless a page enters, the handles of every shard are old ones. -/
lemma shrinks_call (hok : st.Ok) (hs : st.call a = some st')
    (hhit : ∀ key hash charge, a = .lookupInsert key hash charge →
      (st.shards (shardOf hash)).find key hash ≠ none) (j : Fin kNumShards) :
    Shrinks (st'.shards j) (st.shards j) := by
  rcases hok.call_cases hs with
    ⟨key, hash, charge, -, -, -, ha, hf, -⟩ | ⟨i, s, held, rfl, -, hshrinks, -⟩
  · exact absurd hf (hhit key hash charge ha)
  · by_cases hj : j = i
    · rw [hj, set_shards_self]
      exact hshrinks
    · rw [set_shards_of_ne hj]
      exact Shrinks.refl _

lemma returned_pageId (hok : st.Ok) {key : KeyType} {hash : UInt32} {charge : UInt64}
    (hs : st.call (.lookupInsert key hash charge) = some st') :
    ∃ d, (st'.shards (st.returned key hash charge).1).entries
      (st.returned key hash charge).2 = some d ∧ d.pageId = key := by
  cases hf : (st.shards (shardOf hash)).find key hash with
  | none =>
      obtain ⟨hfresh, hins⟩ := lookupInsert_spec st.freelist
        (insertArgs key hash charge) (hok.shard _) hf rfl
      obtain rfl := Option.some.inj hs
      rw [returned, hfresh, set_shards_self]
      exact ⟨_, hins.new, rfl⟩
  | some h =>
      obtain ⟨-, d, hd, hk, -⟩ := find_spec hf
      have hret : st.returned key hash charge = (shardOf hash, h) := by
        simp only [returned, LruShard.lookupInsert, insertArgs, hf]
      have hheld : 0 < st'.held (shardOf hash) h := by
        rw [held_lookupInsert hs, if_pos hret]
        exact Nat.succ_pos _
      obtain ⟨d', hd', hk'⟩ := pageId_call hok hs hd hheld
      rw [hret]
      exact ⟨d', hd', hk'.trans hk⟩

end PoolRun

end GroundDB
