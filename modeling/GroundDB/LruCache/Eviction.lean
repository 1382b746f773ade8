import GroundDB.LruCache.ShardOps

/-!
# What an insertion evicts

`LookupInsert` with a null value, seen from outside.  The eviction loop takes handles off the front
of `lru` until `usage_` is within the capacity; which ones is known before it starts (`evicted`).
They are deleted, since nobody refers to them, and the new handle gets the first page slot among
theirs.  Only if nothing was evicted it gets the front of the free list.
-/

namespace GroundDB

open PtrHeap

namespace LruShard

/-- The charge of a handle as a machine word. -/
def chargeWord (s : LruShard) (h : ℕ) : UInt64 := ((s.entries h).map HandleData.charge).getD 0

/-- The handles at the front of a list that are evicted while the usage exceeds the capacity. -/
def victims (capacity usage : UInt64) (charge : ℕ → UInt64) : List ℕ → List ℕ
  | [] => []
  | h :: l => if capacity < usage then h :: victims capacity (usage - charge h) charge l else []

/-- The handles that the insertion of a handle with this charge evicts. -/
def evicted (s : LruShard) (charge : UInt64) : List ℕ :=
  victims s.capacity (s.usage + charge) s.chargeWord s.lru

/-- `s'` is `s` after the handles `vs` were evicted in favour of the handle `e`. -/
structure Evicts (s s' : LruShard) (e : ℕ) (vs : List ℕ) : Prop where
  entries : ∀ x, x ≠ e → s'.entries x = if x ∈ vs then none else s.entries x
  value : s'.entries e = (s.entries e).map fun d =>
    { d with value := d.value.or (vs.findSome? s.valueOf) }
  lru : s.lru = vs ++ s'.lru
  inUse : s'.inUse = s.inUse
  fresh : s'.fresh = s.fresh
  capacity : s'.capacity = s.capacity

variable {s s' : LruShard} {held : ℕ → ℕ} {e old : ℕ} {rest vs : List ℕ} {reused : Bool}

lemma victims_congr {capacity usage : UInt64} {charge charge' : ℕ → UInt64} {l : List ℕ}
    (h : ∀ x ∈ l, charge' x = charge x) :
    victims capacity usage charge' l = victims capacity usage charge l := by
  induction l generalizing usage with
  | nil => rfl
  | cons x l ih =>
      rw [victims, victims, h x List.mem_cons_self,
        ih fun y hy => h y (List.mem_cons_of_mem x hy)]

lemma victims_front (capacity usage : UInt64) (charge : ℕ → UInt64) (l : List ℕ) :
    victims capacity usage charge l <+: l := by
  induction l generalizing usage with
  | nil => exact List.nil_prefix
  | cons x l ih =>
      rw [victims]
      split
      · exact List.cons_prefix_cons.mpr ⟨rfl, ih _⟩
      · exact List.nil_prefix

lemma firstSlot_congr {f g : ℕ → Ptr} {l : List ℕ} (h : ∀ x ∈ l, f x = g x) :
    l.findSome? f = l.findSome? g := by
  induction l with
  | nil => rfl
  | cons x l ih =>
      rw [List.findSome?_cons, List.findSome?_cons, h x List.mem_cons_self,
        ih fun y hy => h y (List.mem_cons_of_mem x hy)]

lemma Evicts.refl (s : LruShard) (e : ℕ) : Evicts s s e [] := by
  refine ⟨?_, ?_, rfl, rfl, rfl, rfl⟩
  · intro x _
    simp
  · cases s.entries e <;> simp

/-- With a null value the new handle takes an evicted slot whenever it has none yet. -/
lemma handOverLookupInsert_none {cur old : Ptr} (h : reused = true ∨ cur = none) :
    handOverLookupInsert none reused cur old = (cur.or old, true) := by
  cases reused with
  | true => cases cur <;> simp [handOverLookupInsert]
  | false =>
      obtain rfl : cur = none := by simpa using h
      simp [handOverLookupInsert]

lemma evictOne_spec (hi : ShardInv s held) (he : 0 < held e) (hl : s.lru = old :: rest)
    (hr : reused = true ∨ s.valueOf e = none) :
    (s.evictOne (handOverLookupInsert none) e reused old).1 = true ∧
      Evicts s (s.evictOne (handOverLookupInsert none) e reused old).2 e [old] ∧
      (s.evictOne (handOverLookupInsert none) e reused old).2.usage
        = s.usage - s.chargeWord old := by
  obtain ⟨d, hd, -, hone⟩ := (hi.handle old).mem_lru.mp (hl ▸ List.mem_cons_self)
  have hne : old ≠ e := by
    rintro rfl
    exact hi.not_mem_lru he (hl ▸ List.mem_cons_self)
  have hnot : old ∉ s.inUse := hi.not_mem_inUse (hl ▸ List.mem_cons_self)
  rw [evictOne, handOverLookupInsert_none hr]
  set s₁ := s.setEntry e fun d => { d with value := (s.valueOf e).or (s.valueOf old) } with hs₁
  have hd₁ : s₁.entries old = some d := by
    rw [hs₁, setEntry_entries, if_neg hne, hd]
  refine ⟨rfl, ?_, ?_⟩
  · rw [finishErase_last hd₁ hone]
    refine ⟨?_, ?_, ?_, ?_, rfl, rfl⟩
    · intro x hx
      by_cases hxo : x = old
      · simp [hxo]
      · simp only [Function.update_of_ne hxo, List.mem_singleton, hxo, if_false]
        rw [hs₁, setEntry_entries, if_neg hx]
    · simp only [Function.update_of_ne hne.symm]
      rw [hs₁, setEntry_entries, if_pos rfl]
      cases hde : s.entries e with
      | none => rfl
      | some de => simp [valueOf, hde]
    · simp [unlink, hs₁, hl]
    · simp [unlink, hs₁, List.erase_of_not_mem hnot]
  · rw [finishErase_last hd₁ hone]
    simp [chargeWord, hd, hs₁]

lemma Evicts.cons (h₁ : Evicts s s' e [old]) {s'' : LruShard} (h₂ : Evicts s' s'' e vs)
    (he : e ∉ vs) (hold : old ∉ vs) : Evicts s s'' e (old :: vs) := by
  refine ⟨?_, ?_, ?_, h₂.inUse.trans h₁.inUse, h₂.fresh.trans h₁.fresh,
    h₂.capacity.trans h₁.capacity⟩
  · intro x hx
    rw [h₂.entries x hx, h₁.entries x hx]
    by_cases hxv : x ∈ vs
    · simp [hxv]
    · simp [hxv]
  · have hvalue : ∀ x ∈ vs, s'.valueOf x = s.valueOf x := by
      intro x hx
      have hxe : x ≠ e := by
        rintro rfl
        exact he hx
      have hxo : x ∉ [old] := by
        rintro hmem
        rw [List.mem_singleton.mp hmem] at hx
        exact hold hx
      rw [valueOf, valueOf, h₁.entries x hxe, if_neg hxo]
    rw [h₂.value, h₁.value, firstSlot_congr hvalue, Option.map_map]
    congr 1
    funext d
    simp only [Function.comp_apply, List.findSome?_cons, List.findSome?_nil]
    cases d.value <;> cases s.valueOf old <;> simp
  · rw [h₁.lru, h₂.lru]
    rfl

/-- **The eviction loop** evicts the handles known beforehand. -/
lemma evictLoop_spec (hi : ShardInv s held) (he : 0 < held e) (reused : Bool)
    (hr : reused = true ∨ s.valueOf e = none) {fuel : ℕ} (hf : s.lru.length ≤ fuel) :
    ((s.evictLoop (handOverLookupInsert none) e fuel reused).1 = true ↔
      reused = true ∨ victims s.capacity s.usage s.chargeWord s.lru ≠ []) ∧
    Evicts s (s.evictLoop (handOverLookupInsert none) e fuel reused).2 e
      (victims s.capacity s.usage s.chargeWord s.lru) := by
  induction fuel generalizing s reused with
  | zero =>
      have hnil : s.lru = [] := List.length_eq_zero_iff.mp (Nat.le_zero.mp hf)
      rw [hnil]
      simpa [evictLoop, victims] using Evicts.refl s e
  | succ n ih =>
      cases hl : s.lru with
      | nil => simpa [evictLoop, hl, victims] using Evicts.refl s e
      | cons old rest =>
          by_cases hover : s.capacity < s.usage
          rotate_left
          · simpa [evictLoop, hl, hover, victims] using Evicts.refl s e
          obtain ⟨hflag, hone, husage⟩ := evictOne_spec hi he hl hr
          have hinv : ShardInv (s.evictOne (handOverLookupInsert none) e reused old).2 held :=
            inv_evictOne hi hl
          set s₁ := (s.evictOne (handOverLookupInsert none) e reused old).2 with hs₁
          have hlru₁ : s₁.lru = rest := by
            have := hone.lru
            rw [hl] at this
            simpa using this.symm
          have hnd : (old :: rest).Nodup := hl ▸ hi.nodup_lru
          have hrest : ∀ x ∈ rest, s₁.chargeWord x = s.chargeWord x := by
            intro x hx
            have hxe : x ≠ e := by
              rintro rfl
              exact hi.not_mem_lru he (hl ▸ List.mem_cons_of_mem old hx)
            have hxo : x ∉ [old] := by
              intro hmem
              rw [List.mem_singleton.mp hmem] at hx
              exact (List.nodup_cons.mp hnd).1 hx
            rw [chargeWord, chargeWord, hone.entries x hxe, if_neg hxo]
          have hvs : victims s₁.capacity s₁.usage s₁.chargeWord s₁.lru
              = victims s.capacity (s.usage - s.chargeWord old) s.chargeWord rest := by
            rw [hone.capacity, husage, hlru₁, victims_congr hrest]
          have hsub : ∀ x ∈ victims s₁.capacity s₁.usage s₁.chargeWord s₁.lru, x ∈ rest :=
            fun x hx => hlru₁ ▸ (victims_front _ _ _ _).subset hx
          have hstep : s.evictLoop (handOverLookupInsert none) e (n + 1) reused
              = s₁.evictLoop (handOverLookupInsert none) e n true := by
            simp only [evictLoop, hl, hover, if_true]
            rw [hflag]
          obtain ⟨hret, hev⟩ := ih hinv true (.inl rfl) (by
            rw [hlru₁]
            rw [hl, List.length_cons] at hf
            omega)
          rw [hstep, victims, if_pos hover, ← hvs]
          refine ⟨by simpa using hret, hone.cons hev ?_ ?_⟩
          · intro hmem
            exact hi.not_mem_lru he (hl ▸ List.mem_cons_of_mem old (hsub e hmem))
          · intro hmem
            exact (List.nodup_cons.mp hnd).1 (hsub old hmem)

/-- `s'` and `freelist'` are what `LookupInsert` with a null value leaves of `s` and `freelist`
when it makes a new handle and evicts `vs`. -/
structure Inserted (s : LruShard) (freelist : List ℕ) (a : InsertArgs) (vs : List ℕ)
    (s' : LruShard) (freelist' : List ℕ) : Prop where
  entries : ∀ x, x ≠ s.fresh → s'.entries x = if x ∈ vs then none else s.entries x
  new : s'.entries s.fresh = some { s.newData a with
    value := if vs = [] then freelist.head? else vs.findSome? s.valueOf }
  lru : s.lru = vs ++ s'.lru
  inUse : s'.inUse = if 0 < s.capacity then s.inUse ++ [s.fresh] else s.inUse
  fresh : s'.fresh = s.fresh + 1
  capacity : s'.capacity = s.capacity
  free : freelist' = if vs = [] then freelist.tail else freelist

/-- **`LookupInsert` of a key that is not cached.** -/
theorem lookupInsert_spec (freelist : List ℕ) (a : InsertArgs) (hok : ShardOk s held)
    (hf : s.find a.key a.hash = none) (hv : a.value = none) :
    (s.lookupInsert freelist a).1 = s.fresh ∧
      Inserted s freelist a (s.evicted a.charge) (s.lookupInsert freelist a).2.1
        (s.lookupInsert freelist a).2.2 := by
  have hadd := ok_addReplacing hok a
  rw [addReplacing_of_find_none hf] at hadd
  have hnew : (s.add a).valueOf s.fresh = none := by
    rw [valueOf, add_entries_fresh]
    exact hv
  obtain ⟨hflag, hev⟩ := evictLoop_spec hadd.inv (takeRef_pos held s.fresh) false (.inr hnew)
    (le_refl (s.add a).lru.length)
  -- without capacity there is nothing to evict, so the usage does not matter
  have hvs : victims (s.add a).capacity (s.add a).usage (s.add a).chargeWord (s.add a).lru
      = s.evicted a.charge := by
    have hcharge : ∀ x ∈ s.lru, (s.add a).chargeWord x = s.chargeWord x := by
      intro x hx
      rw [chargeWord, chargeWord, add_entries_of_ne]
      rintro rfl
      exact hok.inv.fresh_not_mem (mem_cached.mpr (.inl hx))
    by_cases hcap : 0 < s.capacity
    · have husage : (s.add a).usage = s.usage + a.charge := if_pos hcap
      rw [husage]
      exact victims_congr hcharge
    · have hnil : s.lru = [] := by
        refine List.eq_nil_iff_forall_not_mem.mpr fun x hx => hcap ?_
        obtain ⟨d, hd, hc, -⟩ := (hok.inv.handle x).mem_lru.mp hx
        exact hok.room x d hd hc
      have hnil' : (s.add a).lru = [] := hnil
      rw [hnil', evicted, hnil]
      rfl
  rw [hvs] at hflag hev
  set t := (s.add a).evictLoop (handOverLookupInsert none) s.fresh (s.add a).lru.length false
    with ht
  have hres : s.lookupInsert freelist a
      = (s.fresh, t.2.takeSlot freelist s.fresh none t.1) := by
    simp only [lookupInsert, hf, makeRoom, hv, ht]
  rw [hres]
  refine ⟨rfl, ?_⟩
  have hold : ∀ x, x ≠ s.fresh →
      t.2.entries x = if x ∈ s.evicted a.charge then none else s.entries x := by
    intro x hx
    rw [hev.entries x hx, add_entries_of_ne hx]
  have hvalue : (s.newData a).value = none := hv
  have hnewt := hev.value
  rw [add_entries_fresh, Option.map_some, hvalue, Option.none_or] at hnewt
  by_cases hnil : s.evicted a.charge = []
  · have hfalse : t.1 = false := by
      rw [← Bool.not_eq_true, hflag]
      simp [hnil]
    rw [takeSlot, if_pos ⟨rfl, hfalse⟩]
    refine ⟨?_, ?_, hev.lru, hev.inUse, hev.fresh, hev.capacity, by rw [if_pos hnil]⟩
    · intro x hx
      rw [setEntry_entries, if_neg hx]
      exact hold x hx
    · rw [setEntry_entries, if_pos rfl, hnewt, if_pos hnil]
      rfl
  · have htrue : t.1 = true := hflag.mpr (.inr hnil)
    rw [takeSlot, if_neg (by simp [htrue])]
    refine ⟨hold, ?_, hev.lru, hev.inUse, hev.fresh, hev.capacity, by rw [if_neg hnil]⟩
    have hslots : ∀ x ∈ s.evicted a.charge, (s.add a).valueOf x = s.valueOf x := by
      intro x hx
      rw [valueOf, valueOf, add_entries_of_ne]
      rintro rfl
      exact hok.inv.fresh_not_mem (mem_cached.mpr (.inl ((victims_front _ _ _ _).subset hx)))
    rw [hnewt, if_neg hnil, firstSlot_congr hslots]

end LruShard

end GroundDB
