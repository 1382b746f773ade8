import GroundDB.MemPool.Pool

/-!
# Page slots that are lost

`allocate_page_array` makes the page slots and puts all of them on the free list.  From then on a
slot should be free or the value of a live handle.  Nothing ever puts a slot back on the free list,
though: when a handle is deleted, its slot goes to the handle that is being inserted, or nowhere.

`Loses st a` says, of the state before the call `a`, that a slot goes nowhere: the last reference
to a handle outside the cache is released, a handle that nobody uses is erased or pruned, or an
insertion evicts two handles with slots.  A run without such calls keeps all slots, and the first
such call loses one for good.
-/

namespace GroundDB

open PtrHeap Lts Tokens Function LruShard

namespace PoolRun

/-- The capacity that `ShardedLRUCache` gives the shard `i`: `(capacity + s) / kNumShards`. -/
def shardCapacity (n : UInt64) (i : Fin kNumShards) : UInt64 := (n + UInt64.ofNat i) / 128

/-- `allocate_page_array`: a cache for `n` pages, and `n` free slots. -/
def allocatePageArray (n : UInt64) : PoolRun := start (shardCapacity n) (List.range n.toNat)

/-- The handle is the value of a page slot that is deleted with its last reference. -/
def LastWithSlot (s : LruShard) (h : ℕ) : Prop :=
  ∃ d, s.entries h = some d ∧ d.refs = 1 ∧ d.value ≠ none

/-- A slot goes nowhere in the call. -/
def Loses (st : PoolRun) : PoolCall → Prop
  | .lookup _ _ => False
  | .lookupInsert key hash charge =>
      let s := st.shards (shardOf hash)
      s.find key hash = none ∧ 1 < ((s.evicted charge).filterMap s.valueOf).length
  | .release i h => LastWithSlot (st.shards i) h
  | .erase key hash =>
      let s := st.shards (shardOf hash)
      ∃ h, s.find key hash = some h ∧ LastWithSlot s h
  | .prune i => ∃ h ∈ (st.shards i).lru, (st.shards i).valueOf h ≠ none

/-! ## Shards that keep their slots -/

/-- Every handle with a slot keeps it. -/
def KeepsSlots (s s' : LruShard) : Prop := ∀ x p, s.valueOf x = some p → s'.valueOf x = some p

variable {st st' : PoolRun} {i : Fin kNumShards} {s s' : LruShard}
  {freelist : List ℕ} {held : ℕ → ℕ} {a : PoolCall} {h p : ℕ}

lemma KeepsSlots.refl (s : LruShard) : KeepsSlots s s := fun _ _ => id

lemma valueOf_eq {d : HandleData ℕ} (hd : s.entries h = some d) : s.valueOf h = d.value := by
  rw [LruShard.valueOf, hd]
  rfl

/-- Only the contents of one handle change, and it keeps its slot if it has one. -/
lemma keeps_update {d : HandleData ℕ} {o : Option (HandleData ℕ)} (hd : s.entries h = some d)
    (hent : s'.entries = update s.entries h o)
    (ho : d.value ≠ none → ∃ d', o = some d' ∧ d'.value = d.value) : KeepsSlots s s' := by
  intro x p hp
  by_cases hx : x = h
  · subst hx
    rw [valueOf_eq hd] at hp
    obtain ⟨d', rfl, hv⟩ := ho (by rw [hp]; exact Option.some_ne_none p)
    rw [LruShard.valueOf, hent, update_self]
    exact hv.trans hp
  · rw [LruShard.valueOf, hent, update_of_ne hx]
    exact hp

lemma keeps_ref (s : LruShard) (h : ℕ) : KeepsSlots s (s.ref h) := by
  cases hd : s.entries h with
  | none =>
      have hsame : s.ref h = s := by simp [LruShard.ref, hd]
      rw [hsame]
      exact KeepsSlots.refl s
  | some d => exact keeps_update hd (ref_entries hd) fun _ => ⟨_, rfl, rfl⟩

/-- Dropping a reference that is not the last of a handle with a slot, whatever the handle is
left as. -/
lemma keeps_drop (hi : ShardInv s held) (hl : ¬LastWithSlot s h) {d d' : HandleData ℕ}
    (hd : s.entries h = some d)
    (hent : s'.entries = update s.entries h (if d.refs - 1 = 0 then none else some d'))
    (hv : d'.value = d.value) : KeepsSlots s s' := by
  refine keeps_update hd hent fun hslot => ?_
  have hpos := (hi.handle h).pos d hd
  have hne : d.refs - 1 ≠ 0 := by
    intro hz
    exact hl ⟨d, hd, by omega, hslot⟩
  rw [if_neg hne]
  exact ⟨d', rfl, hv⟩

lemma keeps_unref (hi : ShardInv s held) (hl : ¬LastWithSlot s h) :
    KeepsSlots s (s.unref h) := by
  cases hd : s.entries h with
  | none =>
      have hsame : s.unref h = s := by simp [LruShard.unref, hd]
      rw [hsame]
      exact KeepsSlots.refl s
  | some d => exact keeps_drop hi hl hd (unref_entries hd) rfl

lemma keeps_finishErase (hi : ShardInv s held) (hl : ¬LastWithSlot s h) :
    KeepsSlots s (s.finishErase h) := by
  cases hd : s.entries h with
  | none =>
      have hsame : s.finishErase h = s := by simp [LruShard.finishErase, hd]
      rw [hsame]
      exact KeepsSlots.refl s
  | some d => exact keeps_drop hi hl hd (finishErase_entries hd) rfl

lemma keeps_prune (hok : ShardOk s held) (hl : ∀ h ∈ s.lru, s.valueOf h = none) :
    KeepsSlots s s.prune := by
  have hloop : ShardOk s.prune held ∧ KeepsSlots s s.prune ∧
      ∀ h ∈ s.prune.lru, s.prune.valueOf h = none := by
    refine pruneLoop_rule (P := fun s' => ShardOk s' held ∧ KeepsSlots s s' ∧
      ∀ h ∈ s'.lru, s'.valueOf h = none) ?_ _ ⟨hok, KeepsSlots.refl s, hl⟩
    rintro s' h rest ⟨hok', hkeep, hnone⟩ hlru
    have hmem : h ∈ s'.lru := hlru ▸ List.mem_cons_self
    have hlast : ¬LastWithSlot s' h := by
      rintro ⟨d, hd, -, hv⟩
      exact hv ((valueOf_eq hd).symm.trans (hnone h hmem))
    refine ⟨ok_finishErase hok' (mem_cached.mpr (.inl hmem)), ?_, ?_⟩
    · exact fun x p hp => keeps_finishErase hok'.inv hlast x p (hkeep x p hp)
    · intro x hx
      rcases valueOf_shrinks (shrinks_finishErase s' h) x with hsame | hgone
      · rw [hsame]
        exact hnone x ((finishErase_lru_sublist s' h).subset hx)
      · exact hgone
  exact hloop.2.1

/-! ## Calls that keep all slots -/

lemma covers_set (hk : KeepsSlots (st.shards i) s) (hc : Covers st.owner st.freelist p) :
    Covers (st.set i s st.freelist held).owner st.freelist p := by
  refine hc.keep fun x hx => ?_
  rw [owner_set]
  split
  next hi =>
    subst hi
    exact hk x.2 p hx
  next => exact hx

/-- An insertion keeps all slots if at most one evicted handle has one. -/
lemma Enters.covers {vs : List ℕ} (he : Enters st st' i vs)
    (hone : (vs.filterMap (st.shards i).valueOf).length ≤ 1)
    (hc : Covers st.owner st.freelist p) : Covers st'.owner st'.freelist p := by
  rw [he.free]
  by_cases hnil : vs = []
  · rw [if_pos hnil]
    refine hc.take he.before ?_ ?_
    · intro x hx
      simpa [hnil] using he.old x hx
    · simpa [hnil] using he.new
  rw [if_neg hnil]
  rcases hc with hfree | ⟨x, hx⟩
  · exact .inl hfree
  have hxne : x ≠ (i, (st.shards i).fresh) := by
    rintro rfl
    rw [he.before] at hx
    cases hx
  by_cases hv : x.1 = i ∧ x.2 ∈ vs
  · -- the only slot of an evicted handle goes to the new one
    refine .inr ⟨(i, (st.shards i).fresh), ?_⟩
    obtain ⟨rfl, hmem⟩ := hv
    have hp : p ∈ vs.filterMap (st.shards x.1).valueOf := List.mem_filterMap.mpr ⟨x.2, hmem, hx⟩
    obtain ⟨q, hq⟩ := List.length_eq_one_iff.mp
      (le_antisymm hone (List.length_pos_of_mem hp))
    rw [hq, List.mem_singleton] at hp
    rw [he.new, if_neg hnil, ← List.head?_filterMap, hq, hp]
    rfl
  · refine .inr ⟨x, ?_⟩
    rw [he.old x hxne, if_neg hv]
    exact hx

lemma Enters.covers_back {vs : List ℕ} (he : Enters st st' i vs)
    (hc : Covers st'.owner st'.freelist p) : Covers st.owner st.freelist p := by
  rcases hc with hfree | ⟨x, hx⟩
  · left
    rw [he.free] at hfree
    split at hfree
    · exact List.mem_of_mem_tail hfree
    · exact hfree
  by_cases hnew : x = (i, (st.shards i).fresh)
  · rw [hnew, he.new] at hx
    split at hx
    · exact .inl (List.mem_of_mem_head? hx)
    · obtain ⟨o, -, ho⟩ := List.exists_of_findSome?_eq_some hx
      exact .inr ⟨(i, o), ho⟩
  · rw [he.old x hnew] at hx
    split at hx
    · cases hx
    · exact .inr ⟨x, hx⟩

/-- An insertion that evicts two handles with slots keeps only the first slot. -/
lemma Enters.lost {vs : List ℕ} (he : Enters st st' i vs) (hnd : vs.Nodup)
    (hx : Exclusive st.owner st.freelist) (htwo : 1 < (vs.filterMap (st.shards i).valueOf).length) :
    ∃ p, Covers st.owner st.freelist p ∧ ¬Covers st'.owner st'.freelist p := by
  have hslots : (vs.filterMap (st.shards i).valueOf).Nodup := by
    refine hnd.filterMap fun o o' p ho ho' => ?_
    exact congrArg Prod.snd (hx.inj (i, o) (i, o') p ho ho')
  obtain ⟨q, p, rest, hsplit⟩ :
      ∃ q p rest, vs.filterMap (st.shards i).valueOf = q :: p :: rest := by
    cases hl : vs.filterMap (st.shards i).valueOf with
    | nil => simp [hl] at htwo
    | cons q l =>
        cases l with
        | nil => simp [hl] at htwo
        | cons p rest => exact ⟨q, p, rest, rfl⟩
  have hne : q ≠ p := by
    rintro rfl
    simp [hsplit] at hslots
  obtain ⟨o, hmem, ho⟩ : ∃ o ∈ vs, (st.shards i).valueOf o = some p := by
    rw [← List.mem_filterMap, hsplit]
    simp
  have hnil : vs ≠ [] := List.ne_nil_of_mem hmem
  refine ⟨p, .inr ⟨(i, o), ho⟩, ?_⟩
  rintro (hfree | ⟨x, hp⟩)
  · rw [he.free, if_neg hnil] at hfree
    exact hx.notFree (i, o) p ho hfree
  by_cases hnew : x = (i, (st.shards i).fresh)
  · rw [hnew, he.new, if_neg hnil, ← List.head?_filterMap, hsplit] at hp
    exact hne (Option.some.inj hp)
  · rw [he.old x hnew] at hp
    split at hp
    · cases hp
    next hkept =>
      have hxo := hx.inj x (i, o) p hp ho
      exact hkept (hxo ▸ ⟨rfl, hmem⟩)

/-- **A call that loses no slot keeps all of them.** -/
lemma covers_call (hok : st.Ok) (hl : ¬st.Loses a) (hs : st.call a = some st')
    (hc : Covers st.owner st.freelist p) : Covers st'.owner st'.freelist p := by
  cases a with
  | lookup key hash =>
      obtain rfl := Option.some.inj hs
      refine covers_set ?_ hc
      rw [LruShard.lookup]
      split
      · exact KeepsSlots.refl _
      · exact keeps_ref _ _
  | lookupInsert key hash charge =>
      set i := shardOf hash with hi
      cases hf : (st.shards i).find key hash with
      | none =>
          obtain rfl := Option.some.inj hs
          obtain ⟨-, hins⟩ := lookupInsert_spec st.freelist
            (insertArgs key hash charge) (hok.shard i) hf rfl
          refine (hok.enters hins).covers ?_ hc
          by_contra hlt
          exact hl ⟨hf, Nat.not_le.mp hlt⟩
      | some h =>
          obtain rfl := Option.some.inj hs
          have hres : (st.shards i).lookupInsert st.freelist (insertArgs key hash charge)
              = (h, (st.shards i).ref h, st.freelist) := by
            simp only [LruShard.lookupInsert, insertArgs, hf]
          simp only [← hi, hres]
          exact covers_set (keeps_ref _ h) hc
  | release j h =>
      rw [call] at hs
      split at hs
      next =>
        obtain ⟨d, hd, rfl⟩ := Option.map_eq_some_iff.mp hs
        rw [hok.home j h d hd]
        exact covers_set (keeps_unref (hok.shard j).inv hl) hc
      next => cases hs
  | erase key hash =>
      obtain rfl := Option.some.inj hs
      refine covers_set ?_ hc
      rw [LruShard.erase]
      split
      next h hf => exact keeps_finishErase (hok.shard _).inv fun hlast => hl ⟨h, hf, hlast⟩
      next => exact KeepsSlots.refl _
  | prune i =>
      obtain rfl := Option.some.inj hs
      refine covers_set (keeps_prune (hok.shard i) fun h hh => ?_) hc
      by_contra hne
      exact hl ⟨h, hh, hne⟩

/-! ## Calls that lose a slot -/

/-- Slots come from nowhere else: what is somewhere after a call was somewhere before it. -/
lemma covers_of_call (hok : st.Ok) (hs : st.call a = some st')
    (hc : Covers st'.owner st'.freelist p) : Covers st.owner st.freelist p := by
  rcases hok.call_cases hs with
    ⟨_, _, _, s, fl, held, -, -, hins, -, rfl⟩ | ⟨i, s, held, rfl, -, hshrinks, -⟩
  · exact (hok.enters hins).covers_back hc
  · refine hc.imp id ?_
    rintro ⟨x, hx⟩
    rcases owner_shrinks hshrinks x with hsame | hnone
    · exact ⟨x, hsame.symm.trans hx⟩
    · rw [hnone] at hx
      cases hx

lemma lost_set (hx : Exclusive st.owner st.freelist) (hs : Shrinks s (st.shards i))
    (hslot : (st.shards i).valueOf h ≠ none) (hgone : s.entries h = none) :
    ∃ p, Covers st.owner st.freelist p ∧
      ¬Covers (st.set i s st.freelist held).owner st.freelist p := by
  obtain ⟨p, hp⟩ := Option.ne_none_iff_exists'.mp hslot
  have hown : st.owner (i, h) = some p := hp
  have hnone : (st.set i s st.freelist held).owner (i, h) = none := by
    rw [owner_set, if_pos rfl, LruShard.valueOf, hgone]
    rfl
  exact ⟨p, .inr ⟨(i, h), hown⟩, hx.lost (owner_shrinks hs) hown hnone⟩

lemma LastWithSlot.slot (hl : LastWithSlot s h) : s.valueOf h ≠ none := by
  obtain ⟨d, hd, -, hv⟩ := hl
  rw [valueOf_eq hd]
  exact hv

/-- What is gone stays gone while a shard is pruned, and every unused handle goes. -/
lemma pruneLoop_gone (hok : ShardOk s held) {fuel : ℕ} (hf : s.lru.length ≤ fuel)
    (hh : h ∈ s.lru) : (s.pruneLoop fuel).entries h = none := by
  induction fuel generalizing s with
  | zero =>
      rw [List.length_eq_zero_iff.mp (Nat.le_zero.mp hf)] at hh
      exact absurd hh List.not_mem_nil
  | succ n ih =>
      cases hl : s.lru with
      | nil =>
          rw [hl] at hh
          exact absurd hh List.not_mem_nil
      | cons x rest =>
          have hmem : x ∈ s.lru := hl ▸ List.mem_cons_self
          obtain ⟨d, hd, -, hone⟩ := (hok.inv.handle x).mem_lru.mp hmem
          have hlru : (s.finishErase x).lru = rest := by
            rw [finishErase_lru, hd, hl]
            simp
          simp only [LruShard.pruneLoop, hl]
          by_cases hx : h = x
          · subst hx
            refine pruneLoop_rule (P := fun s => s.entries h = none) ?_ n ?_
            · intro s' y rest' hnone _
              by_contra hsome
              obtain ⟨d', hd'⟩ := Option.ne_none_iff_exists'.mp hsome
              obtain ⟨d₀, hd₀, -⟩ := shrinks_finishErase s' y h d' hd'
              rw [hnone] at hd₀
              cases hd₀
            · rw [finishErase_last hd hone]
              exact update_self ..
          · refine ih (ok_finishErase hok (mem_cached.mpr (.inl hmem))) ?_ ?_
            · rw [hlru]
              rw [hl, List.length_cons] at hf
              omega
            · rw [hlru]
              rw [hl] at hh
              exact (List.mem_cons.mp hh).resolve_left hx

/-- **A losing call loses a slot.** -/
theorem lost_call (hok : st.Ok) (hx : Exclusive st.owner st.freelist) (hl : st.Loses a)
    (hs : st.call a = some st') :
    ∃ p, Covers st.owner st.freelist p ∧ ¬Covers st'.owner st'.freelist p := by
  cases a with
  | lookup key hash => exact hl.elim
  | lookupInsert key hash charge =>
      obtain rfl := Option.some.inj hs
      obtain ⟨hf, htwo⟩ := hl
      obtain ⟨-, hins⟩ := lookupInsert_spec st.freelist
        (insertArgs key hash charge) (hok.shard _) hf rfl
      refine (hok.enters hins).lost ?_ hx htwo
      exact (hok.shard _).inv.nodup_lru.sublist (victims_front _ _ _ _).sublist
  | release j h =>
      rw [call] at hs
      split at hs
      next =>
        obtain ⟨d, hd, rfl⟩ := Option.map_eq_some_iff.mp hs
        rw [hok.home j h d hd]
        refine lost_set hx (shrinks_unref _ h) hl.slot ?_
        obtain ⟨d', hd', hone, -⟩ := hl
        rw [unref_last hd' hone]
        exact update_self ..
      next => cases hs
  | erase key hash =>
      obtain rfl := Option.some.inj hs
      obtain ⟨h, hf, hlast⟩ := hl
      have herase : (st.shards (shardOf hash)).erase key hash
          = (st.shards (shardOf hash)).finishErase h := by
        simp only [LruShard.erase, hf]
      simp only [herase]
      refine lost_set hx (shrinks_finishErase _ h) hlast.slot ?_
      obtain ⟨d, hd, hone, -⟩ := hlast
      rw [finishErase_last hd hone]
      exact update_self ..
  | prune i =>
      obtain rfl := Option.some.inj hs
      obtain ⟨h, hh, hslot⟩ := hl
      exact lost_set hx (shrinks_prune _) hslot (pruneLoop_gone (hok.shard i) le_rfl hh)

/-! ## Runs -/

/-- What holds of the slots in every run: none is shared, and there are no others. -/
structure SlotsOf (n : UInt64) (st : PoolRun) : Prop where
  ok : st.Ok
  exclusive : Exclusive st.owner st.freelist
  all : ∀ p, Covers st.owner st.freelist p → p < n.toNat

lemma slotsOf_start (n : UInt64) : SlotsOf n (allocatePageArray n) := by
  refine ⟨ok_start _ _, ⟨?_, ?_, List.nodup_range⟩, ?_⟩
  · intro h h' p hp
    cases hp
  · intro h p hp
    cases hp
  · rintro p (hp | ⟨h, hp⟩)
    · exact List.mem_range.mp hp
    · cases hp

lemma SlotsOf.call {n : UInt64} (h : SlotsOf n st) (hs : st.call a = some st') :
    SlotsOf n st' :=
  ⟨h.ok.call hs, exclusive_call h.ok h.exclusive hs,
    fun p hp => h.all p (covers_of_call h.ok hs hp)⟩

/-- A call keeps all slots exactly if it is not a losing one. -/
lemma SlotsOf.covers_call_iff {n : UInt64} (h : SlotsOf n st) (hs : st.call a = some st') :
    (∀ p < n.toNat, Covers st'.owner st'.freelist p) ↔
      (∀ p < n.toNat, Covers st.owner st.freelist p) ∧ ¬st.Loses a := by
  constructor
  · intro hc
    refine ⟨fun p hp => covers_of_call h.ok hs (hc p hp), fun hl => ?_⟩
    obtain ⟨p, hp, hlost⟩ := lost_call h.ok h.exclusive hl hs
    exact hlost (hc p (h.all p hp))
  · rintro ⟨hc, hl⟩ p hp
    exact covers_call h.ok hl hs (hc p hp)

/-- **No slot is lost** in a run exactly if none of its calls is a losing one: then every slot of
the page array is free or the slot of a live handle. -/
theorem slots_kept (n : UInt64) {tr : List PoolCall} {st : PoolRun}
    (hrun : Run Step (allocatePageArray n) tr st) :
    (∀ p < n.toNat, p ∈ st.freelist ∨ ∃ h, st.owner h = some p) ↔
      Run (Guarded Step fun st a => ¬st.Loses a) (allocatePageArray n) tr st := by
  refine hrun.guarded_iff (I := SlotsOf n)
    (J := fun st => ∀ p < n.toNat, Covers st.owner st.freelist p) (slotsOf_start n) ?_ ?_ ?_
  · intro st a st' h hs
    exact h.call hs
  · intro p hp
    exact .inl (List.mem_range.mpr hp)
  · intro st a st' h hs
    exact h.covers_call_iff hs

/-- A page is entered into a pool of 1024 slots and released, which keeps all slots. -/
theorem slots_kept_one : ∃ st,
    Run Step (allocatePageArray 1024)
      [.lookupInsert ⟨1, 1, 1, 0, 1⟩ 0 1, .release (shardOf 0) 2] st ∧
    ∀ p < (1024 : UInt64).toNat, p ∈ st.freelist ∨ ∃ h, st.owner h = some p := by
  have hrun : ∃ st, Run (Guarded Step fun st a => ¬st.Loses a)
      (allocatePageArray 1024) [.lookupInsert ⟨1, 1, 1, 0, 1⟩ 0 1, .release (shardOf 0) 2] st := by
    refine ⟨_, .cons ⟨?_, rfl⟩ (.cons ⟨?_, rfl⟩ .nil)⟩
    · rintro ⟨-, htwo⟩
      exact absurd htwo (by decide)
    · rintro ⟨d, hd, hone, -⟩
      have htwo : 2 = d.refs := congrArg HandleData.refs (Option.some.inj hd)
      omega
  obtain ⟨st, hst⟩ := hrun
  exact ⟨st, hst.of_guarded, (slots_kept 1024 hst.of_guarded).mpr hst⟩

section LostSlot

-- the free list of 1024 slots is evaluated
set_option maxRecDepth 8000

/-- A page is entered into a pool of 1024 slots, released and erased: a slot is lost. -/
theorem slot_lost_by_erase : ∃ st,
    Run Step (allocatePageArray 1024)
      [.lookupInsert ⟨1, 1, 1, 0, 1⟩ 0 1, .release (shardOf 0) 2, .erase ⟨1, 1, 1, 0, 1⟩ 0] st ∧
    ∃ p < (1024 : UInt64).toNat, ¬(p ∈ st.freelist ∨ ∃ h, st.owner h = some p) := by
  have hrun : ∃ st, Run Step (allocatePageArray 1024)
      [.lookupInsert ⟨1, 1, 1, 0, 1⟩ 0 1, .release (shardOf 0) 2] st ∧
      st.Loses (.erase ⟨1, 1, 1, 0, 1⟩ 0) := by
    refine ⟨_, .cons rfl (.cons rfl .nil), 2, rfl, ?_⟩
    exact ⟨_, rfl, rfl, by decide⟩
  obtain ⟨st, hst, hl⟩ := hrun
  have hslots : SlotsOf 1024 st := hst.invariant (slotsOf_start 1024) fun _ _ _ h hs => h.call hs
  obtain ⟨p, hp, hlost⟩ := lost_call hslots.ok hslots.exclusive hl rfl
  exact ⟨_, hst.snoc rfl, p, hslots.all p hp, hlost⟩

end LostSlot

end PoolRun

end GroundDB
