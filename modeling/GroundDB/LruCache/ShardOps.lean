import GroundDB.LruCache.ShardInvariant

/-!
# The operations of a shard keep its invariant

`ShardOk` puts the invariant and the distinctness of keys together.  Lookup, the two insertions,
erasing, pruning and releasing keep it, where an operation that returns a handle hands one
reference to its caller (`takeRef`) and a release gives one back (`dropRef`).  All of them but the
release only take handles off the front or the middle of `lru`; the release may put one at its
end, which keeps the list in the order of the last releases.
-/

namespace GroundDB

open PtrHeap Function

/-- A client gets one more reference to `h`. -/
def takeRef (held : ℕ → ℕ) (h : ℕ) : ℕ → ℕ := update held h (held h + 1)

/-- The references after a call that returned the handle `r`, or null. -/
def takeResult (held : ℕ → ℕ) : Ptr → ℕ → ℕ
  | none => held
  | some h => takeRef held h

/-- A client gives one reference to `h` back. -/
def dropRef (held : ℕ → ℕ) (h : ℕ) : ℕ → ℕ := update held h (held h - 1)

lemma takeRef_pos (held : ℕ → ℕ) (h : ℕ) : 0 < takeRef held h h := by
  rw [takeRef, update_self]
  exact Nat.succ_pos _

namespace LruShard

/-- The invariant, the distinctness of keys, and that nothing is cached without capacity. -/
structure ShardOk (s : LruShard) (held : ℕ → ℕ) : Prop where
  inv : ShardInv s held
  unique : UniqueKeys s
  room : ∀ x d, s.entries x = some d → d.inCache = true → 0 < s.capacity

variable {s s' : LruShard} {held held' : ℕ → ℕ} {h : ℕ} {d : HandleData ℕ} {freelist : List ℕ}

lemma ok_init (capacity : UInt64) : ShardOk (init capacity) fun _ => 0 := by
  refine ⟨inv_init capacity, ?_, ?_⟩
  · intro a b da db ha
    cases ha
  · intro x d hd
    cases hd

lemma ShardOk.shrinks (hok : ShardOk s held) (hinv : ShardInv s' held') (hs : Shrinks s' s)
    (hcap : s'.capacity = s.capacity) : ShardOk s' held' := by
  refine ⟨hinv, hok.unique.shrinks hs, ?_⟩
  intro x d' hd' hc'
  obtain ⟨d, hd, -, hc⟩ := hs x d' hd'
  rw [hcap]
  exact hok.room x d hd (hc hc')

lemma ok_setValue (hok : ShardOk s held) (h : ℕ) (v : Ptr) :
    ShardOk (s.setEntry h fun d => { d with value := v }) held := by
  refine ⟨inv_setValue hok.inv h v, hok.unique.setValue h v, ?_⟩
  intro x d hd hc
  rw [setEntry_entries] at hd
  split at hd
  · obtain ⟨d₀, hd₀, rfl⟩ := Option.map_eq_some_iff.mp hd
    exact hok.room h d₀ hd₀ hc
  · exact hok.room x d hd hc

/-! ## References -/

lemma ok_ref (hok : ShardOk s held) (hc : h ∈ s.cached) : ShardOk (s.ref h) (takeRef held h) :=
  hok.shrinks (inv_ref hok.inv hc) (shrinks_ref s h) (ref_frame s h).1

/-- **`Release`** by a client that holds a reference. -/
theorem ok_unref (hok : ShardOk s held) (hheld : 0 < held h) :
    ShardOk (s.unref h) (dropRef held h) :=
  hok.shrinks (inv_unref hok.inv hheld) (shrinks_unref s h) (unref_capacity s h)

lemma ok_finishErase (hok : ShardOk s held) (hc : h ∈ s.cached) :
    ShardOk (s.finishErase h) held :=
  hok.shrinks (inv_finishErase hok.inv hc) (shrinks_finishErase s h) (finishErase_capacity s h)

/-- **`Lookup`**: the caller holds a reference to what it got. -/
theorem ok_lookup (hok : ShardOk s held) (key : KeyType) (hash : UInt32) :
    ShardOk (s.lookup key hash).2 (takeResult held (s.lookup key hash).1) := by
  simp only [lookup]
  cases hf : s.find key hash with
  | none => exact hok
  | some h => exact ok_ref hok (find_spec hf).1

/-! ## Insertions -/

variable {handOver : Bool → Ptr → Ptr → Ptr × Bool} {e : ℕ} {value : Ptr} {a : InsertArgs}

lemma ok_evictLoop (hok : ShardOk s held) (fuel : ℕ) (reused : Bool) :
    ShardOk (s.evictLoop handOver e fuel reused).2 held := by
  refine evictLoop_rule (P := fun _ s => ShardOk s held) ?_ fuel hok
  intro reused s old rest hok hl _
  refine ok_finishErase (ok_setValue hok e _) ?_
  rw [setEntry_cached, mem_cached, hl]
  exact .inl List.mem_cons_self

lemma ok_makeRoom (hok : ShardOk s held) :
    ShardOk (s.makeRoom handOver freelist e value).1 held := by
  have hloop : ShardOk (s.evictLoop handOver e s.lru.length false).2 held :=
    ok_evictLoop hok s.lru.length false
  simp only [makeRoom, takeSlot]
  split
  · exact ok_setValue hloop e _
  · exact hloop

lemma add_entries_of_ne {x : ℕ} (hx : x ≠ s.fresh) : (s.add a).entries x = s.entries x :=
  update_of_ne hx _ _

lemma add_entries_fresh : (s.add a).entries s.fresh = some (s.newData a) :=
  update_self ..

lemma addReplacing_of_find_none (hf : s.find a.key a.hash = none) :
    s.addReplacing a = s.add a := by
  rw [addReplacing, hf, ite_self]

/-- The handles in the cache after a new one was put in the place its key had: the new one, and
those with another key. -/
lemma addReplacing_cached (hok : ShardOk s held) {x : ℕ}
    (hd : (s.addReplacing a).entries x = some d) (hc : d.inCache = true) :
    (x = s.fresh ∧ d = s.newData a ∧ 0 < s.capacity) ∨
      (s.entries x = some d ∧ ¬(d.pageId = a.key ∧ d.hash = a.hash)) := by
  by_cases hpos : 0 < s.capacity
  rotate_left
  · -- nothing is cached without capacity, the new handle included
    rw [addReplacing, if_neg hpos] at hd
    by_cases hx : x = s.fresh
    · rw [hx, add_entries_fresh] at hd
      cases hd
      exact absurd (of_decide_eq_true hc) hpos
    · rw [add_entries_of_ne hx] at hd
      exact absurd (hok.room x d hd hc) hpos
  rw [addReplacing, if_pos hpos] at hd
  cases hf : s.find a.key a.hash with
  | none =>
      rw [hf] at hd
      by_cases hx : x = s.fresh
      · rw [hx, add_entries_fresh] at hd
        cases hd
        exact .inl ⟨hx, rfl, hpos⟩
      · rw [add_entries_of_ne hx] at hd
        exact .inr ⟨hd, find_eq_none hf (hok.inv.mem_cached_iff.mpr ⟨d, hd, hc⟩) hd⟩
  | some old =>
      rw [hf] at hd
      obtain ⟨d₀, hd₀, hin, hk, hh⟩ := (find_eq_some_iff hok.inv hok.unique).mp hf
      have hne : old ≠ s.fresh := by
        rintro rfl
        exact hok.inv.fresh_not_mem (find_spec hf).1
      rw [finishErase_entries ((add_entries_of_ne hne).trans hd₀)] at hd
      have hxold : x ≠ old := by
        rintro rfl
        rw [update_self] at hd
        split at hd
        · cases hd
        · cases hd
          exact absurd hc Bool.false_ne_true
      rw [update_of_ne hxold] at hd
      by_cases hx : x = s.fresh
      · rw [hx, add_entries_fresh] at hd
        cases hd
        exact .inl ⟨hx, rfl, hpos⟩
      · rw [add_entries_of_ne hx] at hd
        refine .inr ⟨hd, fun hkey => hxold ?_⟩
        exact hok.unique x old d d₀ hd hd₀ hc hin (hkey.1.trans hk.symm) (hkey.2.trans hh.symm)

lemma inv_addReplacing (hok : ShardOk s held) (a : InsertArgs) :
    ShardInv (s.addReplacing a) (takeRef held s.fresh) := by
  have hadd : ShardInv (s.add a) (takeRef held s.fresh) := by
    rw [takeRef, hok.inv.held_fresh]
    exact inv_add hok.inv a
  by_cases hpos : 0 < s.capacity
  · rw [addReplacing, if_pos hpos]
    cases hf : s.find a.key a.hash with
    | none => exact hadd
    | some old =>
        obtain ⟨d, hd, hin, -⟩ := (find_eq_some_iff hok.inv hok.unique).mp hf
        have hne : old ≠ s.fresh := by
          rintro rfl
          exact hok.inv.fresh_not_mem (find_spec hf).1
        exact inv_finishErase hadd
          (hadd.mem_cached_iff.mpr ⟨d, (add_entries_of_ne hne).trans hd, hin⟩)
  · rw [addReplacing, if_neg hpos]
    exact hadd

lemma addReplacing_capacity (s : LruShard) (a : InsertArgs) :
    (s.addReplacing a).capacity = s.capacity := by
  rw [addReplacing]
  split
  · exact finishErase_capacity (s.add a) _
  · rfl

lemma ok_addReplacing (hok : ShardOk s held) (a : InsertArgs) :
    ShardOk (s.addReplacing a) (takeRef held s.fresh) := by
  refine ⟨inv_addReplacing hok a, ?_, ?_⟩
  · intro x y dx dy hx hy hcx hcy hkey hhash
    rcases addReplacing_cached hok hx hcx with ⟨rfl, rfl, -⟩ | ⟨hx, hnx⟩
    · rcases addReplacing_cached hok hy hcy with ⟨rfl, -⟩ | ⟨-, hny⟩
      · rfl
      · exact absurd ⟨hkey.symm, hhash.symm⟩ hny
    · rcases addReplacing_cached hok hy hcy with ⟨rfl, rfl, -⟩ | ⟨hy, -⟩
      · exact absurd ⟨hkey, hhash⟩ hnx
      · exact hok.unique x y dx dy hx hy hcx hcy hkey hhash
  · intro x d hd hc
    rw [addReplacing_capacity]
    rcases addReplacing_cached hok hd hc with ⟨-, -, hpos⟩ | ⟨hd, -⟩
    · exact hpos
    · exact hok.room x d hd hc

/-- **`LookupInsert`** keeps the invariant. -/
theorem ok_lookupInsert (hok : ShardOk s held) (freelist : List ℕ) (a : InsertArgs) :
    ShardOk (s.lookupInsert freelist a).2.1 (takeRef held (s.lookupInsert freelist a).1) := by
  simp only [lookupInsert]
  cases hf : s.find a.key a.hash with
  | some h => exact ok_ref hok (find_spec hf).1
  | none =>
      have hadd := ok_addReplacing hok a
      rw [addReplacing_of_find_none hf] at hadd
      exact ok_makeRoom hadd

/-- **`Insert`** keeps the invariant. -/
theorem ok_insert (hok : ShardOk s held) (freelist : List ℕ) (a : InsertArgs) :
    ShardOk (s.insert freelist a).2.1 (takeRef held (s.insert freelist a).1) :=
  ok_makeRoom (ok_addReplacing hok a)

/-! ## Erasing and pruning -/

/-- **`Erase`** keeps the invariant. -/
theorem ok_erase (hok : ShardOk s held) (key : KeyType) (hash : UInt32) :
    ShardOk (s.erase key hash) held := by
  simp only [erase]
  cases hf : s.find key hash with
  | none => exact hok
  | some h => exact ok_finishErase hok (find_spec hf).1

/-- **`Prune`** keeps the invariant. -/
theorem ok_prune (hok : ShardOk s held) : ShardOk s.prune held := by
  refine pruneLoop_rule (P := fun s => ShardOk s held) ?_ _ hok
  intro s h rest hok hl
  exact ok_finishErase hok (mem_cached.mpr (.inl (hl ▸ List.mem_cons_self)))

/-! ## Operations that make no handle -/

lemma shrinks_lookup (s : LruShard) (key : KeyType) (hash : UInt32) :
    Shrinks (s.lookup key hash).2 s := by
  rw [lookup]
  split
  · exact Shrinks.refl s
  · exact shrinks_ref s _

lemma shrinks_erase (s : LruShard) (key : KeyType) (hash : UInt32) :
    Shrinks (s.erase key hash) s := by
  rw [erase]
  split
  · exact shrinks_finishErase s _
  · exact Shrinks.refl s

lemma shrinks_prune (s : LruShard) : Shrinks s.prune s := by
  refine pruneLoop_rule (P := fun s' => Shrinks s' s) ?_ _ (Shrinks.refl s)
  intro s' h rest hs _
  exact (shrinks_finishErase s' h).trans hs

/-! ## Operations that only count references -/

/-- From `s` to `s'` nothing but reference counts and the order of the lists changes: no cached
handle goes, and a handle that goes was not cached. -/
structure Recounts (s s' : LruShard) : Prop where
  back : ∀ x d', s'.entries x = some d' →
    ∃ d, s.entries x = some d ∧ SameHandle d' d ∧ d'.inCache = d.inCache
  kept : ∀ x d, s.entries x = some d → d.inCache = true → ∃ d', s'.entries x = some d'
  capacity : s'.capacity = s.capacity

lemma Recounts.refl (s : LruShard) : Recounts s s :=
  ⟨fun _ d hd => ⟨d, hd, SameHandle.refl d, rfl⟩, fun _ d hd _ => ⟨d, hd⟩, rfl⟩

/-- One handle changes in its counter only, or goes without having been cached. -/
lemma recounts_of_update {o : Option (HandleData ℕ)} (hd : s.entries h = some d)
    (hent : s'.entries = update s.entries h o) (hcap : s'.capacity = s.capacity)
    (ho : ∀ d', o = some d' → SameHandle d' d ∧ d'.inCache = d.inCache)
    (hgone : o = none → d.inCache = false) : Recounts s s' := by
  refine ⟨?_, ?_, hcap⟩
  · intro x d' hx
    rw [hent] at hx
    by_cases hxh : x = h
    · subst hxh
      rw [update_self] at hx
      exact ⟨d, hd, ho d' hx⟩
    · rw [update_of_ne hxh] at hx
      exact ⟨d', hx, SameHandle.refl d', rfl⟩
  · intro x dx hx hc
    rw [hent]
    by_cases hxh : x = h
    · subst hxh
      rw [update_self]
      obtain rfl : dx = d := Option.some.inj (hx.symm.trans hd)
      refine Option.ne_none_iff_exists'.mp fun hnone => ?_
      rw [hgone hnone] at hc
      cases hc
    · rw [update_of_ne hxh]
      exact ⟨dx, hx⟩

lemma recounts_ref (s : LruShard) (h : ℕ) : Recounts s (s.ref h) := by
  cases hd : s.entries h with
  | none =>
      have hsame : s.ref h = s := by simp [ref, hd]
      rw [hsame]
      exact Recounts.refl s
  | some d =>
      refine recounts_of_update hd (ref_entries hd) (ref_frame s h).1 ?_ ?_
      · rintro d' hd'
        cases hd'
        exact ⟨⟨rfl, rfl, rfl, rfl⟩, rfl⟩
      · intro hnone
        cases hnone

/-- A client gives up a reference; the one of the cache remains if there is one. -/
lemma recounts_unref (hi : ShardInv s held) (hheld : 0 < held h) : Recounts s (s.unref h) := by
  obtain ⟨d, hd⟩ := (hi.handle h).live hheld
  refine recounts_of_update hd (unref_entries hd) (unref_capacity s h) ?_ ?_
  · intro d' hd'
    split at hd'
    · cases hd'
    · cases hd'
      exact ⟨⟨rfl, rfl, rfl, rfl⟩, rfl⟩
  · intro hnone
    have hrefs := (hi.handle h).refs d hd
    split at hnone
    next hlast =>
      by_contra hc
      rw [if_pos (by simpa using hc)] at hrefs
      omega
    next => cases hnone

lemma recounts_lookup (s : LruShard) (key : KeyType) (hash : UInt32) :
    Recounts s (s.lookup key hash).2 := by
  rw [lookup]
  split
  · exact Recounts.refl s
  · exact recounts_ref s _

lemma Recounts.cached_perm (hr : Recounts s s') (hi : ShardInv s held) (hi' : ShardInv s' held') :
    s'.cached.Perm s.cached := by
  refine (List.perm_ext_iff_of_nodup hi'.nodup hi.nodup).mpr fun x => ?_
  rw [hi.mem_cached_iff, hi'.mem_cached_iff]
  constructor
  · rintro ⟨d', hd', hc'⟩
    obtain ⟨d, hd, -, hc⟩ := hr.back x d' hd'
    exact ⟨d, hd, hc ▸ hc'⟩
  · rintro ⟨d, hd, hc⟩
    obtain ⟨d', hd'⟩ := hr.kept x d hd hc
    obtain ⟨d₀, hd₀, -, hc'⟩ := hr.back x d' hd'
    obtain rfl : d₀ = d := Option.some.inj (hd₀.symm.trans hd)
    exact ⟨d', hd', hc'.trans hc⟩

/-! ## The sum of the charges -/

/-- Handles that only leave take their charges along. -/
lemma chargeSum_shrinks (hi : ShardInv s held) (hi' : ShardInv s' held') (hs : Shrinks s' s) :
    s'.chargeSum ≤ s.chargeSum := by
  have hmem : ∀ x ∈ s'.cached, x ∈ s.cached ∧ s'.chargeOf x = s.chargeOf x := by
    intro x hx
    obtain ⟨d', hd', hc'⟩ := hi'.mem_cached_iff.mp hx
    obtain ⟨d, hd, hsame, hc⟩ := hs x d' hd'
    refine ⟨hi.mem_cached_iff.mpr ⟨d, hd, hc hc'⟩, ?_⟩
    rw [chargeOf_eq hd', chargeOf_eq hd, hsame.charge]
  rw [chargeSum, List.map_congr_left fun x hx => (hmem x hx).2]
  obtain ⟨l, hperm, hsub⟩ := hi'.nodup.subperm fun x hx => (hmem x hx).1
  rw [← (hperm.map s.chargeOf).sum_eq]
  exact (hsub.map s.chargeOf).sum_le_sum fun _ _ => Nat.zero_le _

lemma chargeSum_setValue (s : LruShard) (h : ℕ) (v : Ptr) :
    (s.setEntry h fun d => { d with value := v }).chargeSum = s.chargeSum := by
  rw [chargeSum, chargeSum, setEntry_cached]
  refine congrArg List.sum (List.map_congr_left fun x _ => ?_)
  rw [chargeOf, chargeOf, setEntry_entries]
  split
  next hx => simp [hx, Function.comp_def]
  next => rfl

/-- The charges of the handles in the cache that have another key. -/
def chargeOther (s : LruShard) (key : KeyType) : ℕ :=
  ((s.cached.filter fun h => decide ((s.entries h).map HandleData.pageId ≠ some key)).map
    s.chargeOf).sum

/-- A new handle adds its charge to those of the handles with another key. -/
lemma chargeSum_addReplacing_le (hok : ShardOk s held)
    (hkey : ∀ x d, s.entries x = some d → d.inCache = true → d.pageId = a.key → d.hash = a.hash) :
    (s.addReplacing a).chargeSum ≤ s.chargeOther a.key + a.charge.toNat := by
  set s' := s.addReplacing a with hs'
  have hinv := inv_addReplacing hok a
  have hmem : ∀ x ∈ s'.cached, x ∈ s.fresh :: s.cached.filter
      (fun h => decide ((s.entries h).map HandleData.pageId ≠ some a.key)) ∧
      s'.chargeOf x = update s.chargeOf s.fresh a.charge.toNat x := by
    intro x hx
    obtain ⟨d, hd, hc⟩ := hinv.mem_cached_iff.mp hx
    rcases addReplacing_cached hok hd hc with ⟨rfl, rfl, -⟩ | ⟨hd₀, hne⟩
    · rw [update_self, chargeOf_eq hd]
      exact ⟨List.mem_cons_self, rfl⟩
    · have hxc : x ∈ s.cached := hok.inv.mem_cached_iff.mpr ⟨d, hd₀, hc⟩
      have hxf : x ≠ s.fresh := by
        rintro rfl
        exact hok.inv.fresh_not_mem hxc
      rw [update_of_ne hxf, chargeOf_eq hd, chargeOf_eq hd₀]
      refine ⟨List.mem_cons_of_mem _ (List.mem_filter.mpr ⟨hxc, ?_⟩), rfl⟩
      rw [decide_eq_true_eq, hd₀, Option.map_some, ne_eq, Option.some.injEq]
      intro hk
      exact hne ⟨hk, hkey x d hd₀ hc hk⟩
  obtain ⟨l, hperm, hsub⟩ := hinv.nodup.subperm fun x hx => (hmem x hx).1
  have hrest : ∀ x ∈ s.cached.filter
      (fun h => decide ((s.entries h).map HandleData.pageId ≠ some a.key)),
      update s.chargeOf s.fresh a.charge.toNat x = s.chargeOf x := by
    intro x hx
    refine update_of_ne ?_ _ _
    rintro rfl
    exact hok.inv.fresh_not_mem (List.mem_filter.mp hx).1
  rw [chargeSum, List.map_congr_left fun x hx => (hmem x hx).2, ← (hperm.map _).sum_eq]
  refine ((hsub.map _).sum_le_sum fun _ _ => Nat.zero_le _).trans ?_
  rw [List.map_cons, List.sum_cons, update_self, List.map_congr_left hrest, chargeOther,
    add_comm]

lemma chargeSum_makeRoom_le (hok : ShardOk s held) :
    (s.makeRoom handOver freelist e value).1.chargeSum ≤ s.chargeSum := by
  have hloop : ShardOk (s.evictLoop handOver e s.lru.length false).2 held ∧
      (s.evictLoop handOver e s.lru.length false).2.chargeSum ≤ s.chargeSum := by
    refine evictLoop_rule (P := fun _ s' => ShardOk s' held ∧ s'.chargeSum ≤ s.chargeSum) ?_ _
      ⟨hok, le_refl _⟩
    rintro reused s' old rest ⟨hok', hle⟩ hl _
    have hset := ok_setValue hok' e (handOver reused (s'.valueOf e) (s'.valueOf old)).1
    have hc : old ∈ (s'.setEntry e fun d => { d with
        value := (handOver reused (s'.valueOf e) (s'.valueOf old)).1 }).cached := by
      rw [setEntry_cached, mem_cached, hl]
      exact .inl List.mem_cons_self
    have herase := ok_finishErase hset hc
    refine ⟨herase, (chargeSum_shrinks hset.inv herase.inv (shrinks_finishErase _ old)).trans ?_⟩
    rw [chargeSum_setValue]
    exact hle
  simp only [makeRoom, takeSlot]
  split
  · rw [chargeSum_setValue]
    exact hloop.2
  · exact hloop.2

/-! ## The order of the unused handles -/

lemma Recent.sublist {last : ℕ → ℕ} (hr : Recent s last) (hsub : s'.lru.Sublist s.lru) :
    Recent s' last :=
  List.Pairwise.sublist hsub hr

lemma ref_lru_sublist (s : LruShard) (h : ℕ) : (s.ref h).lru.Sublist s.lru := by
  unfold ref
  split
  · exact List.Sublist.refl _
  · split
    · exact List.erase_sublist
    · exact List.Sublist.refl _

lemma lookup_lru_sublist (s : LruShard) (key : KeyType) (hash : UInt32) :
    (s.lookup key hash).2.lru.Sublist s.lru := by
  unfold lookup
  split
  · exact List.Sublist.refl _
  · exact ref_lru_sublist s _

lemma evictLoop_lru_sublist (s : LruShard) (fuel : ℕ) (reused : Bool) :
    (s.evictLoop handOver e fuel reused).2.lru.Sublist s.lru := by
  refine evictLoop_rule (P := fun _ s' => s'.lru.Sublist s.lru) ?_ fuel (List.Sublist.refl _)
  intro reused s' old rest hsub _ _
  exact (finishErase_lru_sublist _ old).trans hsub

lemma makeRoom_lru_sublist (s : LruShard) :
    (s.makeRoom handOver freelist e value).1.lru.Sublist s.lru := by
  have hloop : (s.evictLoop handOver e s.lru.length false).2.lru.Sublist s.lru :=
    evictLoop_lru_sublist s s.lru.length false
  simp only [makeRoom, takeSlot]
  split
  · exact hloop
  · exact hloop

lemma lookupInsert_lru_sublist (s : LruShard) (freelist : List ℕ) (a : InsertArgs) :
    (s.lookupInsert freelist a).2.1.lru.Sublist s.lru := by
  unfold lookupInsert
  split
  · exact ref_lru_sublist s _
  · exact makeRoom_lru_sublist (s.add a)

lemma insert_lru_sublist (s : LruShard) (freelist : List ℕ) (a : InsertArgs) :
    (s.insert freelist a).2.1.lru.Sublist s.lru := by
  refine (makeRoom_lru_sublist _).trans ?_
  rw [addReplacing]
  split
  · exact finishErase_lru_sublist (s.add a) _
  · exact List.Sublist.refl _

lemma erase_lru_sublist (s : LruShard) (key : KeyType) (hash : UInt32) :
    (s.erase key hash).lru.Sublist s.lru := by
  unfold erase
  split
  · exact finishErase_lru_sublist s _
  · exact List.Sublist.refl _

lemma prune_lru_sublist (s : LruShard) : s.prune.lru.Sublist s.lru := by
  refine pruneLoop_rule (P := fun s' => s'.lru.Sublist s.lru) ?_ _ (List.Sublist.refl _)
  intro s' h rest hsub _
  exact (finishErase_lru_sublist s' h).trans hsub

lemma ShardInv.not_mem_lru (hi : ShardInv s held) (hheld : 0 < held h) : h ∉ s.lru := by
  rw [(hi.handle h).mem_lru]
  rintro ⟨d, hd, hc, hr⟩
  have := (hi.handle h).refs d hd
  rw [hc, if_pos rfl] at this
  omega

/-- What a release does to the list: the handle goes to its end, or the list stays. -/
lemma unref_lru (hi : ShardInv s held) (hheld : 0 < held h) :
    (s.unref h).lru = s.lru ∨ (s.unref h).lru = s.lru ++ [h] := by
  have hnot := hi.not_mem_lru hheld
  unfold unref
  split
  · exact .inl rfl
  · simp only
    split
    · exact .inl rfl
    · split
      · right
        simp [moveToLru, List.erase_of_not_mem hnot]
      · exact .inl rfl

/-- **A release at the time `clock`** keeps the order, when all earlier releases were earlier. -/
theorem Recent.unref {last : ℕ → ℕ} {clock : ℕ} (hr : Recent s last) (hi : ShardInv s held)
    (hheld : 0 < held h) (hclock : ∀ x ∈ s.lru, last x < clock) :
    Recent (s.unref h) (update last h clock) := by
  have hne : ∀ x ∈ s.lru, x ≠ h := by
    rintro x hx rfl
    exact hi.not_mem_lru hheld hx
  have hlast : ∀ x ∈ s.lru, update last h clock x = last x :=
    fun x hx => update_of_ne (hne x hx) _ _
  have hold : s.lru.Pairwise fun a b =>
      update last h clock a < update last h clock b := by
    refine List.Pairwise.imp_of_mem ?_ hr
    intro x y hx hy hxy
    rwa [hlast x hx, hlast y hy]
  unfold Recent
  rcases unref_lru hi hheld with heq | heq
  · rw [heq]
    exact hold
  · rw [heq]
    refine List.pairwise_append.mpr ⟨hold, List.pairwise_singleton _ _, ?_⟩
    intro x hx y hy
    rw [List.mem_singleton.mp hy, hlast x hx, update_self]
    exact hclock x hx

end LruShard

end GroundDB
