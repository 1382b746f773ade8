import GroundDB.Lib.Family
import GroundDB.MemPool.Slots

/-!
# The pool does not run dry

The capacities of the shards share the pool size `n` out.  The `s`-th of them is
`(n + s) / kNumShards` in machine words, so they add up to `n` as long as `n + 127` is one; never
to more.  A flush request enters its page with charge 1, so a shard never holds more pages than its
capacity if fewer than that are pinned when a page enters: either there is room and a free slot,
or the page that was unused for longest gives up its slot.
-/

namespace GroundDB

open PtrHeap Lts Tokens

namespace PoolRun

/-! ## Shares -/

lemma sum_shares {m : ℕ} (hm : 0 < m) (n : ℕ) : ∑ i ∈ Finset.range m, (n + i) / m = n := by
  induction n with
  | zero =>
      refine Finset.sum_eq_zero fun i hi => ?_
      rw [Nat.zero_add]
      exact Nat.div_eq_of_lt (Finset.mem_range.mp hi)
  | succ n ih =>
      -- the shares of `n + 1` are those of `n`, moved on by one place
      have hshift : ∑ i ∈ Finset.range m, (n + 1 + i) / m
          = ∑ i ∈ Finset.range m, (n + (i + 1)) / m := by
        refine Finset.sum_congr rfl fun i _ => ?_
        congr 1
        omega
      have hends : ∑ i ∈ Finset.range m, (n + (i + 1)) / m + (n + 0) / m
          = ∑ i ∈ Finset.range m, (n + i) / m + (n + m) / m := by
        rw [← Finset.sum_range_succ' (fun i => (n + i) / m), Finset.sum_range_succ]
      have hlast : (n + m) / m = n / m + 1 := Nat.add_div_right n hm
      rw [Nat.add_zero, ih, hlast] at hends
      rw [hshift]
      omega

lemma shardCapacity_toNat (n : UInt64) (i : Fin kNumShards) :
    (shardCapacity n i).toNat = (n.toNat + i) % 2 ^ 64 / 128 := by
  have hi : (i : ℕ) < 2 ^ 64 := lt_trans i.isLt (by decide)
  rw [shardCapacity, UInt64.toNat_div, UInt64.toNat_add, UInt64.toNat_ofNat_of_lt' hi]
  rfl

lemma shardCapacity_le (n : UInt64) (i : Fin kNumShards) :
    (shardCapacity n i).toNat ≤ (n.toNat + i) / 128 := by
  rw [shardCapacity_toNat]
  exact Nat.div_le_div_right (Nat.mod_le _ _)

lemma sum_share_fin (n : UInt64) : ∑ i : Fin kNumShards, (n.toNat + i) / 128 = n.toNat := by
  rw [Fin.sum_univ_eq_sum_range (fun i => (n.toNat + i) / 128) kNumShards]
  exact sum_shares (by decide) n.toNat

lemma sum_shardCapacity_le (n : UInt64) : ∑ i, (shardCapacity n i).toNat ≤ n.toNat := by
  calc ∑ i, (shardCapacity n i).toNat
      ≤ ∑ i : Fin kNumShards, (n.toNat + i) / 128 :=
        Finset.sum_le_sum fun i _ => shardCapacity_le n i
    _ = n.toNat := sum_share_fin n

/-- **The capacities add up to the pool size** exactly if no addition wraps. -/
theorem sum_shardCapacity_iff (n : UInt64) :
    ∑ i, (shardCapacity n i).toNat = n.toNat ↔ n.toNat + 127 < 2 ^ 64 := by
  constructor
  · intro hsum
    by_contra hwrap
    -- the last shard gets nothing instead of its share
    have hlast : (shardCapacity n ⟨127, by decide⟩).toNat < (n.toNat + 127) / 128 := by
      rw [shardCapacity_toNat]
      have := n.toNat_lt
      simp only
      omega
    have hlt : ∑ i, (shardCapacity n i).toNat < ∑ i : Fin kNumShards, (n.toNat + i) / 128 :=
      Finset.sum_lt_sum (fun i _ => shardCapacity_le n i) ⟨_, Finset.mem_univ _, hlast⟩
    rw [hsum, sum_share_fin] at hlt
    exact lt_irrefl _ hlt
  · intro hroom
    rw [← sum_share_fin n]
    refine Finset.sum_congr rfl fun i _ => ?_
    have hi : (i : ℕ) < 128 := i.isLt
    rw [shardCapacity_toNat, Nat.mod_eq_of_lt (by omega)]

/-! ## Flush requests -/

/-- The call is one of a flush or access request, and a page only enters a shard in which fewer
pages are pinned than it has room for. -/
def Flushing (st : PoolRun) : PoolCall → Prop
  | .lookupInsert key hash charge =>
      let s := st.shards (shardOf hash)
      charge = 1 ∧ (s.find key hash = none → s.inUse.length < s.capacity.toNat)
  | .lookup _ _ => True
  | .release _ _ => True
  | .erase _ _ => False
  | .prune _ => False

/-- Every handle is cached, has a slot and charge 1; no shard is overfull; and a slot is free for
every page that is not cached. -/
structure Stocked (n : UInt64) (st : PoolRun) : Prop where
  ok : st.Ok
  capacity : ∀ i, (st.shards i).capacity = shardCapacity n i
  entry : ∀ i h d, (st.shards i).entries h = some d →
    d.inCache = true ∧ d.value ≠ none ∧ d.charge = 1
  room : ∀ i, (st.shards i).cached.length ≤ (st.shards i).capacity.toNat
  count : st.freelist.length + ∑ i, (st.shards i).cached.length = n.toNat

variable {st st' : PoolRun} {i : Fin kNumShards} {s s' : LruShard}
  {freelist : List ℕ} {held held' : ℕ → ℕ} {a : PoolCall} {n : UInt64}

lemma stocked_start (n : UInt64) : Stocked n (allocatePageArray n) := by
  refine ⟨ok_start _ _, fun _ => rfl, ?_, ?_, ?_⟩
  · intro i h d hd
    cases hd
  · intro i
    exact Nat.zero_le _
  · simp [allocatePageArray, start, LruShard.init, LruShard.cached]

lemma Stocked.set (hst : Stocked n st) (hok : (st.set i s freelist held).Ok)
    (hcap : s.capacity = (st.shards i).capacity)
    (hentry : ∀ h d, s.entries h = some d → d.inCache = true ∧ d.value ≠ none ∧ d.charge = 1)
    (hroom : s.cached.length ≤ s.capacity.toNat) (hcount : freelist.length + s.cached.length
      = st.freelist.length + (st.shards i).cached.length) :
    Stocked n (st.set i s freelist held) := by
  refine ⟨hok, ?_, ?_, ?_, ?_⟩
  · intro j
    by_cases hj : j = i
    · rw [hj, set_shards_self, hcap]
      exact hst.capacity i
    · rw [set_shards_of_ne hj]
      exact hst.capacity j
  · intro j h d hd
    by_cases hj : j = i
    · rw [hj, set_shards_self] at hd
      exact hentry h d hd
    · rw [set_shards_of_ne hj] at hd
      exact hst.entry j h d hd
  · intro j
    by_cases hj : j = i
    · rw [hj, set_shards_self]
      exact hroom
    · rw [set_shards_of_ne hj]
      exact hst.room j
  · have hsum := Family.sum_update_add (fun s : LruShard => s.cached.length) st.shards i s
    have hset : ∀ j, (st.set i s freelist held).shards j = Function.update st.shards i s j :=
      fun _ => rfl
    have htotal := hst.count
    simp only [set_freelist, hset]
    omega

/-! ## An insertion -/

lemma Stocked.usage (hst : Stocked n st) (i : Fin kNumShards) :
    (st.shards i).usage.toNat = (st.shards i).cached.length := by
  have hone : ∀ h ∈ (st.shards i).cached, (st.shards i).chargeOf h = 1 := by
    intro h hh
    obtain ⟨d, hd, -⟩ := (hst.ok.shard i).inv.mem_cached_iff.mp hh
    rw [LruShard.chargeOf_eq hd, (hst.entry i h d hd).2.2]
    rfl
  have hsum : (st.shards i).chargeSum = (st.shards i).cached.length := by
    rw [LruShard.chargeSum, List.map_congr_left hone]
    simp
  have hroom := hst.room i
  have hcap := (st.shards i).capacity.toNat_lt
  rw [(hst.ok.shard i).inv.usage, hsum]
  omega

lemma Stocked.evicted_of_lt (hst : Stocked n st)
    (hlt : (st.shards i).cached.length < (st.shards i).capacity.toNat) :
    (st.shards i).evicted 1 = [] := by
  have hcap := (st.shards i).capacity.toNat_lt
  have husage : ¬(st.shards i).capacity < (st.shards i).usage + 1 := by
    rw [UInt64.lt_iff_toNat_lt, UInt64.toNat_add, hst.usage i]
    simp only [UInt64.reduceToNat]
    omega
  rw [LruShard.evicted]
  cases (st.shards i).lru with
  | nil => rfl
  | cons h rest => rw [LruShard.victims, if_neg husage]

lemma Stocked.evicted_of_full (hst : Stocked n st) {h : ℕ} {rest : List ℕ}
    (hfull : (st.shards i).cached.length = (st.shards i).capacity.toNat)
    (hl : (st.shards i).lru = h :: rest) : (st.shards i).evicted 1 = [h] := by
  have hsmall : (st.shards i).capacity.toNat + 1 < 2 ^ 64 := by
    have := shardCapacity_le n i
    have := n.toNat_lt
    rw [hst.capacity i]
    have hi : (i : ℕ) < 128 := i.isLt
    omega
  have hmore : (st.shards i).capacity < (st.shards i).usage + 1 := by
    rw [UInt64.lt_iff_toNat_lt, UInt64.toNat_add, hst.usage i]
    simp only [UInt64.reduceToNat]
    omega
  have hmem : h ∈ (st.shards i).lru := hl ▸ List.mem_cons_self
  obtain ⟨d, hd, -⟩ := ((hst.ok.shard i).inv.handle h).mem_lru.mp hmem
  have hcharge : (st.shards i).chargeWord h = 1 := by
    rw [LruShard.chargeWord, hd]
    exact (hst.entry i h d hd).2.2
  have hback : (st.shards i).usage + 1 - 1 = (st.shards i).usage := by
    rw [UInt64.add_sub_cancel]
  have hdone : ¬(st.shards i).capacity < (st.shards i).usage := by
    rw [UInt64.lt_iff_toNat_lt, hst.usage i]
    omega
  rw [LruShard.evicted, hl, LruShard.victims, if_pos hmore, hcharge, hback]
  cases rest with
  | nil => rfl
  | cons x rest => rw [LruShard.victims, if_neg hdone]

lemma Stocked.free_of_lt (hst : Stocked n st)
    (hlt : (st.shards i).cached.length < (st.shards i).capacity.toNat) : st.freelist ≠ [] := by
  intro hnil
  have hless : ∑ j, (st.shards j).cached.length < ∑ j, (st.shards j).capacity.toNat :=
    Finset.sum_lt_sum (fun j _ => hst.room j) ⟨i, Finset.mem_univ i, hlt⟩
  have hcap : ∑ j, (st.shards j).capacity.toNat = ∑ j, (shardCapacity n j).toNat :=
    Finset.sum_congr rfl fun j _ => by rw [hst.capacity j]
  have htotal := hst.count
  have hle := sum_shardCapacity_le n
  rw [hnil, List.length_nil] at htotal
  omega

/-- **A page that enters** finds a slot, and the shard is not overfull afterwards. -/
lemma Stocked.enter (hst : Stocked n st)
    (hpin : (st.shards i).inUse.length < (st.shards i).capacity.toNat) {a : InsertArgs}
    (hins : LruShard.Inserted (st.shards i) st.freelist a ((st.shards i).evicted 1) s freelist) :
    s.valueOf (st.shards i).fresh ≠ none ∧ s.cached.length ≤ (st.shards i).capacity.toNat ∧
      freelist.length + s.cached.length
        = st.freelist.length + (st.shards i).cached.length := by
  have hpos : 0 < (st.shards i).capacity := by
    rw [UInt64.lt_iff_toNat_lt]
    exact lt_of_le_of_lt (Nat.zero_le _) hpin
  have hvalue : s.valueOf (st.shards i).fresh
      = if (st.shards i).evicted 1 = [] then st.freelist.head?
        else ((st.shards i).evicted 1).findSome? (st.shards i).valueOf := by
    rw [LruShard.valueOf, hins.new]
    rfl
  have huse : s.inUse.length = (st.shards i).inUse.length + 1 := by
    rw [hins.inUse, if_pos hpos, List.length_append]
    rfl
  have hlru : (st.shards i).lru.length = ((st.shards i).evicted 1).length + s.lru.length := by
    rw [← List.length_append, ← hins.lru]
  have hfree := hins.free
  have hlen : ∀ t : LruShard, t.cached.length = t.lru.length + t.inUse.length :=
    fun t => List.length_append
  have hroom := hst.room i
  rcases Nat.lt_or_ge (st.shards i).cached.length (st.shards i).capacity.toNat with hlt | hge
  · have hvs := hst.evicted_of_lt hlt
    obtain ⟨p, rest, hl⟩ := List.exists_cons_of_ne_nil (hst.free_of_lt hlt)
    rw [hvs, if_pos rfl, hl] at hvalue hfree
    rw [hvs] at hlru
    have hnew := hlen s
    have hold := hlen (st.shards i)
    refine ⟨?_, ?_, ?_⟩
    · rw [hvalue]
      exact Option.some_ne_none p
    · rw [List.length_nil] at hlru
      omega
    · rw [hfree, hl, List.tail_cons, List.length_cons]
      rw [List.length_nil] at hlru
      omega
  · have hfull : (st.shards i).cached.length = (st.shards i).capacity.toNat := le_antisymm hroom hge
    have hnew := hlen s
    have hold := hlen (st.shards i)
    obtain ⟨h, rest, hl⟩ : ∃ h rest, (st.shards i).lru = h :: rest := by
      refine List.exists_cons_of_ne_nil fun hnil => ?_
      rw [hnil, List.length_nil] at hold
      omega
    have hvs := hst.evicted_of_full hfull hl
    obtain ⟨d, hd, -⟩ := ((hst.ok.shard i).inv.handle h).mem_lru.mp (hl ▸ List.mem_cons_self)
    rw [hvs, if_neg (List.cons_ne_nil h [])] at hvalue hfree
    rw [hvs, List.length_singleton] at hlru
    refine ⟨?_, ?_, ?_⟩
    · have hslot := (hst.entry i h d hd).2.1
      rw [hvalue, List.findSome?_cons, LruShard.valueOf, hd]
      cases hv : d.value with
      | none => exact absurd hv hslot
      | some p => simp [hv]
    · omega
    · rw [hfree]
      omega

/-! ## Runs of flush requests -/

lemma Stocked.entry_inserted (hst : Stocked n st) {a : InsertArgs} {vs : List ℕ}
    (hins : LruShard.Inserted (st.shards i) st.freelist a vs s freelist) (hcharge : a.charge = 1)
    (hcap : 0 < (st.shards i).capacity) (hslot : s.valueOf (st.shards i).fresh ≠ none) :
    ∀ h d, s.entries h = some d → d.inCache = true ∧ d.value ≠ none ∧ d.charge = 1 := by
  intro h d hd
  by_cases hh : h = (st.shards i).fresh
  · rw [hh] at hd
    rw [valueOf_eq hd] at hslot
    rw [hins.new] at hd
    cases hd
    exact ⟨decide_eq_true hcap, hslot, hcharge⟩
  · rw [hins.entries h hh] at hd
    split at hd
    · cases hd
    · exact hst.entry i h d hd

/-- **Every call of a flush request** keeps the pool stocked. -/
lemma Stocked.call (hst : Stocked n st) (ha : st.Flushing a)
    (hs : st.call a = some st') : Stocked n st' := by
  have hok' := hst.ok.call hs
  rcases hst.ok.call_cases hs with
    ⟨key, hash, charge, s, fl, held, rfl, hf, hins, -, rfl⟩ | ⟨i, s, held, rfl, hsok, -, hrecounts⟩
  · obtain ⟨rfl, hpin⟩ := ha
    obtain ⟨hslot, hroom, hcount⟩ := hst.enter (hpin hf) hins
    have hpos : 0 < (st.shards (shardOf hash)).capacity := by
      rw [UInt64.lt_iff_toNat_lt]
      exact lt_of_le_of_lt (Nat.zero_le _) (hpin hf)
    refine hst.set hok' hins.capacity (hst.entry_inserted hins rfl hpos hslot) ?_ hcount
    rw [hins.capacity]
    exact hroom
  · have hr : LruShard.Recounts (st.shards i) s := by
      refine hrecounts ?_
      cases a with
      | erase key hash => exact ha.elim
      | prune j => exact ha.elim
      | lookup key hash => rfl
      | lookupInsert key hash charge => rfl
      | release j h => rfl
    have hlen := (hr.cached_perm (hst.ok.shard i).inv hsok.inv).length_eq
    refine hst.set hok' hr.capacity ?_ ?_ ?_
    · intro h d' hd'
      obtain ⟨d, hd, hsame, hc⟩ := hr.back h d' hd'
      rw [hc, hsame.value, hsame.charge]
      exact hst.entry i h d hd
    · rw [hlen, hr.capacity]
      exact hst.room i
    · rw [hlen]

lemma Stocked.returned_slot (hst : Stocked n st) {key : KeyType} {hash : UInt32}
    (ha : st.Flushing (.lookupInsert key hash 1))
    (hs : st.call (.lookupInsert key hash 1) = some st') :
    st'.owner (st.returned key hash 1) ≠ none := by
  have hst' := hst.call ha hs
  have hheld : ∃ d, (st'.shards (shardOf hash)).entries
      (st.returned key hash 1).2 = some d := by
    -- the caller holds a reference, so the handle is live
    obtain rfl := Option.some.inj hs
    refine ((hst'.ok.shard (shardOf hash)).inv.handle _).live ?_
    simp only [PoolRun.set, Function.update_self]
    exact takeRef_pos _ _
  obtain ⟨d, hd⟩ := hheld
  have hslot : st'.owner (st.returned key hash 1) = d.value := valueOf_eq hd
  rw [hslot]
  exact (hst'.entry _ _ d hd).2.1

/-- **`LookupInsert` never returns a handle without a slot** in a run of flush requests that leave
a shard a page to evict. -/
theorem lookupInsert_slot (n : UInt64) {tr : List PoolCall} {st st' : PoolRun}
    (hrun : Run (Guarded Step Flushing) (allocatePageArray n) tr st)
    {key : KeyType} {hash : UInt32} (ha : st.Flushing (.lookupInsert key hash 1))
    (hs : st.call (.lookupInsert key hash 1) = some st') :
    st'.owner (st.returned key hash 1) ≠ none := by
  have hst : Stocked n st := by
    refine hrun.invariant (stocked_start n) ?_
    rintro st a st' hst ⟨ha, hs⟩
    exact hst.call ha hs
  exact hst.returned_slot ha hs

/-- **The pool never runs dry**, for exactly the sizes whose shares are computed without wrapping:
the capacities add up to the pool size, and in runs of flush requests every handle that
`LookupInsert` returns has a slot. -/
theorem never_runs_dry (n : UInt64) :
    (∑ i, (shardCapacity n i).toNat = n.toNat ∧
      (128 ≤ n → ∀ tr st,
        Run (Guarded Step Flushing) (allocatePageArray n) tr st →
        ∀ key hash st', st.Flushing (.lookupInsert key hash 1) →
          st.call (.lookupInsert key hash 1) = some st' →
            st'.owner (st.returned key hash 1) ≠ none)) ↔
      n.toNat + 127 < 2 ^ 64 := by
  rw [sum_shardCapacity_iff]
  constructor
  · rintro ⟨hsmall, -⟩
    exact hsmall
  · intro hsmall
    refine ⟨hsmall, ?_⟩
    intro _ tr st hrun key hash st' ha hs
    exact lookupInsert_slot n hrun ha hs

/-- With `2^64 - 1` pages the last shard gets no capacity, and the capacities do not add up. -/
theorem shares_wrap :
    ∑ i, (shardCapacity (UInt64.ofNat (2 ^ 64 - 1)) i).toNat ≠ 2 ^ 64 - 1 := by
  intro hsum
  have hiff := sum_shardCapacity_iff (UInt64.ofNat (2 ^ 64 - 1))
  exact absurd (hiff.mp hsum) (by decide)

end PoolRun

end GroundDB
