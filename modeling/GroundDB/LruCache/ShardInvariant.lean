import GroundDB.LruCache.Shard

/-!
# The invariant of a shard

`ShardInv s held` says of a shard, and of the number `held h` of references that clients hold to
each handle `h`: the handles in the cache are on exactly one of the two lists, on `lru` when their
reference count is 1 and on `inUse` when it is larger; a handle's count is the number of
references clients hold, plus one while it is in the cache; and `usage` is the sum of the charges
of the cached handles as a machine word can hold it.  `UniqueKeys` says that no two cached handles
answer the same lookup, and `Recent` that `lru` is ordered by the time of the last release.

Each elementary change concerns one handle (`ShardInv.change`), and each operation is a sequence
of such changes; the loops go through `evictLoop_rule` and `pruneLoop_rule`.
-/

namespace GroundDB

open PtrHeap Function

namespace LruShard

/-- What the invariant says about one handle. -/
structure HandleInv (s : LruShard) (held : ℕ → ℕ) (h : ℕ) : Prop where
  mem_lru : h ∈ s.lru ↔ ∃ d, s.entries h = some d ∧ d.inCache = true ∧ d.refs = 1
  mem_inUse : h ∈ s.inUse ↔ ∃ d, s.entries h = some d ∧ d.inCache = true ∧ 2 ≤ d.refs
  refs : ∀ d, s.entries h = some d → d.refs = held h + (if d.inCache then 1 else 0)
  pos : ∀ d, s.entries h = some d → 0 < d.refs
  live : 0 < held h → ∃ d, s.entries h = some d
  fresh : ∀ d, s.entries h = some d → h < s.fresh

/-- The charge of a handle. -/
def chargeOf (s : LruShard) (h : ℕ) : ℕ := ((s.entries h).map fun d => d.charge.toNat).getD 0

/-- The sum of the charges of the cached handles. -/
def chargeSum (s : LruShard) : ℕ := (s.cached.map s.chargeOf).sum

/-- The invariant of a shard whose clients hold `held h` references to the handle `h`. -/
structure ShardInv (s : LruShard) (held : ℕ → ℕ) : Prop where
  nodup : s.cached.Nodup
  handle : ∀ h, HandleInv s held h
  usage : s.usage.toNat = s.chargeSum % 2 ^ 64

/-- No two cached handles have the same key and hash. -/
def UniqueKeys (s : LruShard) : Prop :=
  ∀ a b da db, s.entries a = some da → s.entries b = some db → da.inCache = true →
    db.inCache = true → da.pageId = db.pageId → da.hash = db.hash → a = b

/-- Two contents of a handle that differ in the counter and the flag only. -/
structure SameHandle (d' d : HandleData ℕ) : Prop where
  value : d'.value = d.value
  pageId : d'.pageId = d.pageId
  hash : d'.hash = d.hash
  charge : d'.charge = d.charge

/-- The handles of `s'` are handles of `s`, with the same key, charge and value; none of them is
in the cache of `s'` only. -/
def Shrinks (s' s : LruShard) : Prop :=
  ∀ x d', s'.entries x = some d' → ∃ d, s.entries x = some d ∧ SameHandle d' d ∧
    (d'.inCache = true → d.inCache = true)

/-- `lru` is in the order of the times `last` of the last releases. -/
def Recent (s : LruShard) (last : ℕ → ℕ) : Prop := s.lru.Pairwise fun a b => last a < last b

variable {s s' : LruShard} {held held' : ℕ → ℕ} {h : ℕ} {d : HandleData ℕ}

/-! ## First consequences -/

lemma mem_cached : h ∈ s.cached ↔ h ∈ s.lru ∨ h ∈ s.inUse := List.mem_append

lemma HandleInv.mem_cached_iff (hx : HandleInv s held h) :
    h ∈ s.cached ↔ ∃ d, s.entries h = some d ∧ d.inCache = true := by
  rw [mem_cached, hx.mem_lru, hx.mem_inUse]
  constructor
  · rintro (⟨d, hd, hc, -⟩ | ⟨d, hd, hc, -⟩)
    · exact ⟨d, hd, hc⟩
    · exact ⟨d, hd, hc⟩
  · rintro ⟨d, hd, hc⟩
    have hpos := hx.pos d hd
    by_cases h1 : d.refs = 1
    · exact .inl ⟨d, hd, hc, h1⟩
    · exact .inr ⟨d, hd, hc, by omega⟩

lemma ShardInv.mem_cached_iff (hi : ShardInv s held) :
    h ∈ s.cached ↔ ∃ d, s.entries h = some d ∧ d.inCache = true :=
  (hi.handle h).mem_cached_iff

lemma ShardInv.not_mem_inUse (hi : ShardInv s held) (hl : h ∈ s.lru) : h ∉ s.inUse := by
  intro hu
  exact (List.nodup_append.mp hi.nodup).2.2 h hl h hu rfl

lemma ShardInv.nodup_lru (hi : ShardInv s held) : s.lru.Nodup := (List.nodup_append.mp hi.nodup).1

lemma ShardInv.nodup_inUse (hi : ShardInv s held) : s.inUse.Nodup :=
  (List.nodup_append.mp hi.nodup).2.1

lemma ShardInv.entries_fresh (hi : ShardInv s held) : s.entries s.fresh = none := by
  cases hd : s.entries s.fresh with
  | none => rfl
  | some d => exact absurd ((hi.handle s.fresh).fresh d hd) (lt_irrefl _)

lemma ShardInv.held_fresh (hi : ShardInv s held) : held s.fresh = 0 := by
  by_contra hne
  obtain ⟨d, hd⟩ := (hi.handle s.fresh).live (Nat.pos_of_ne_zero hne)
  rw [hi.entries_fresh] at hd
  cases hd

lemma ShardInv.fresh_not_mem (hi : ShardInv s held) : s.fresh ∉ s.cached := by
  rw [hi.mem_cached_iff, hi.entries_fresh]
  rintro ⟨d, hd, -⟩
  cases hd

lemma HandleInv.congr (hx : HandleInv s held h) (hent : s'.entries h = s.entries h)
    (hheld : held' h = held h) (hlru : h ∈ s'.lru ↔ h ∈ s.lru)
    (hinUse : h ∈ s'.inUse ↔ h ∈ s.inUse) (hfresh : s.fresh ≤ s'.fresh) :
    HandleInv s' held' h := by
  refine ⟨?_, ?_, ?_, ?_, ?_, ?_⟩
  · rw [hlru, hent, hx.mem_lru]
  · rw [hinUse, hent, hx.mem_inUse]
  · rw [hent, hheld]
    exact hx.refs
  · rw [hent]
    exact hx.pos
  · rw [hent, hheld]
    exact hx.live
  · rw [hent]
    intro d hd
    exact (hx.fresh d hd).trans_le hfresh

lemma HandleInv.mem_lru_iff (hx : HandleInv s held h) (hd : s.entries h = some d) :
    h ∈ s.lru ↔ d.inCache = true ∧ d.refs = 1 := by
  rw [hx.mem_lru, hd]
  simp

lemma HandleInv.mem_inUse_iff (hx : HandleInv s held h) (hd : s.entries h = some d) :
    h ∈ s.inUse ↔ d.inCache = true ∧ 2 ≤ d.refs := by
  rw [hx.mem_inUse, hd]
  simp

lemma chargeOf_eq (hd : s.entries h = some d) : s.chargeOf h = d.charge.toNat := by
  simp [chargeOf, hd]

/-! ## A change of one handle -/

/-- From `l` to `l'` at most the handle `h` moves, and it is on `l'` exactly if `b`. -/
structure Moves (h : ℕ) (b : Prop) (l l' : List ℕ) : Prop where
  nodup : l'.Nodup
  other : ∀ x, x ≠ h → (x ∈ l' ↔ x ∈ l)
  self : h ∈ l' ↔ b

section Moves

variable {l : List ℕ} {b : Prop} (hnd : l.Nodup)
include hnd

lemma Moves.stay (hb : h ∈ l ↔ b) : Moves h b l l := ⟨hnd, fun _ _ => Iff.rfl, hb⟩

lemma Moves.erase (hb : ¬b) : Moves h b l (l.erase h) :=
  ⟨hnd.erase h, fun _ hx => List.mem_erase_of_ne hx, iff_of_false hnd.not_mem_erase hb⟩

lemma Moves.append (hb : b) : Moves h b l (l.erase h ++ [h]) := by
  refine ⟨List.nodup_append.mpr ⟨hnd.erase h, List.nodup_singleton h, ?_⟩, fun x hx => ?_, ?_⟩
  · rintro x hx y hy rfl
    exact hnd.not_mem_erase (List.mem_singleton.mp hy ▸ hx)
  · simp [List.mem_erase_of_ne hx, hx]
  · simp [hb]

end Moves

/-- Contents that put a handle on `lru`. -/
def Idle : Option (HandleData ℕ) → Prop
  | none => False
  | some d => d.inCache = true ∧ d.refs = 1

/-- Contents that put a handle on `inUse`. -/
def Busy : Option (HandleData ℕ) → Prop
  | none => False
  | some d => d.inCache = true ∧ 2 ≤ d.refs

/-- The counter of a handle to which clients hold `n` references. -/
def Counted (n : ℕ) : Option (HandleData ℕ) → Prop
  | none => n = 0
  | some d => d.refs = n + (if d.inCache then 1 else 0) ∧ 0 < d.refs

/-- What a handle with these contents adds to the usage. -/
def chargeIn : Option (HandleData ℕ) → UInt64
  | none => 0
  | some d => if d.inCache then d.charge else 0

/-- The sum of the charges, with one address taken apart. -/
lemma chargeSum_eq (hx : HandleInv s held h) :
    s.chargeSum = ((s.cached.erase h).map s.chargeOf).sum + (chargeIn (s.entries h)).toNat := by
  by_cases hc : h ∈ s.cached
  · obtain ⟨d, hd, hin⟩ := hx.mem_cached_iff.mp hc
    rw [chargeSum, ((List.perm_cons_erase hc).map s.chargeOf).sum_eq, List.map_cons, List.sum_cons,
      chargeOf_eq hd, hd, chargeIn, if_pos hin, add_comm]
  · have hzero : chargeIn (s.entries h) = 0 := by
      cases hd : s.entries h with
      | none => rfl
      | some d => exact if_neg fun hin => hc (hx.mem_cached_iff.mpr ⟨d, hd, hin⟩)
    rw [chargeSum, List.erase_of_not_mem hc, hzero]
    rfl

/-- **A change of one handle** keeps the invariant if the handle moves to the list that its new
contents `o` ask for, and the usage changes by its charge. -/
lemma ShardInv.change {o : Option (HandleData ℕ)} (hi : ShardInv s held)
    (hent : s'.entries = update s.entries h o) (hheld : ∀ x, x ≠ h → held' x = held x)
    (hlru : Moves h (Idle o) s.lru s'.lru) (hinUse : Moves h (Busy o) s.inUse s'.inUse)
    (hfresh : s.fresh ≤ s'.fresh) (hlt : h < s'.fresh) (hcount : Counted (held' h) o)
    (husage : s'.usage + chargeIn (s.entries h) = s.usage + chargeIn o) : ShardInv s' held' := by
  have hself : s'.entries h = o := by rw [hent, update_self]
  have hother : ∀ x, x ≠ h → s'.entries x = s.entries x := by
    intro x hx
    rw [hent, update_of_ne hx]
  have hat : HandleInv s' held' h := by
    refine ⟨?_, ?_, ?_, ?_, ?_, fun _ _ => hlt⟩
    all_goals rw [hself]
    · rw [hlru.self]
      cases o <;> simp [Idle]
    · rw [hinUse.self]
      cases o <;> simp [Busy]
    · rintro d rfl
      exact hcount.1
    · rintro d rfl
      exact hcount.2
    · intro hpos
      cases o with
      | none => exact absurd hcount hpos.ne'
      | some d => exact ⟨d, rfl⟩
  have hhandle : ∀ x, HandleInv s' held' x := by
    intro x
    by_cases hx : x = h
    · exact hx ▸ hat
    · exact (hi.handle x).congr (hother x hx) (hheld x hx) (hlru.other x hx) (hinUse.other x hx)
        hfresh
  have hnd : s'.cached.Nodup := by
    refine List.nodup_append.mpr ⟨hlru.nodup, hinUse.nodup, ?_⟩
    rintro x hl _ hu rfl
    obtain ⟨d, hd, -, hone⟩ := (hhandle x).mem_lru.mp hl
    have htwo := (((hhandle x).mem_inUse_iff hd).mp hu).2
    omega
  refine ⟨hnd, hhandle, ?_⟩
  -- the other handles are cached as before, with the charges they had
  have hrest : ((s'.cached.erase h).map s'.chargeOf).sum
      = ((s.cached.erase h).map s.chargeOf).sum := by
    have hperm : (s'.cached.erase h).Perm (s.cached.erase h) := by
      refine (List.perm_ext_iff_of_nodup (hnd.erase h) (hi.nodup.erase h)).mpr fun x => ?_
      rw [hnd.mem_erase_iff, hi.nodup.mem_erase_iff, mem_cached, mem_cached]
      exact and_congr_right fun hx => or_congr (hlru.other x hx) (hinUse.other x hx)
    rw [(hperm.map s'.chargeOf).sum_eq]
    refine congrArg List.sum (List.map_congr_left fun x hx => ?_)
    rw [chargeOf, chargeOf, hother x (hi.nodup.mem_erase_iff.mp hx).1]
  have hsum := chargeSum_eq (hi.handle h)
  have hword := congrArg UInt64.toNat husage
  rw [UInt64.toNat_add, UInt64.toNat_add, hi.usage, hsum] at hword
  have hlt' := s'.usage.toNat_lt
  rw [chargeSum_eq hat, hrest, hself]
  omega

/-! ## The elementary changes keep the invariant -/

lemma inv_init (capacity : UInt64) : ShardInv (init capacity) fun _ => 0 := by
  refine ⟨List.nodup_nil, fun h => ⟨?_, ?_, ?_, ?_, ?_, ?_⟩, rfl⟩
  all_goals simp [init]

lemma inv_setValue (hi : ShardInv s held) (h : ℕ) (v : Ptr) :
    ShardInv (s.setEntry h fun d => { d with value := v }) held := by
  have hx := hi.handle h
  cases hd : s.entries h with
  | none =>
      have hsame : s.setEntry h (fun d => { d with value := v }) = s := by
        rw [setEntry, hd, Option.map_none, ← hd, update_eq_self]
      rwa [hsame]
  | some d =>
      exact hi.change (o := some { d with value := v }) (by simp [setEntry, hd]) (fun _ _ => rfl)
        (.stay hi.nodup_lru (hx.mem_lru_iff (d := d) hd))
        (.stay hi.nodup_inUse (hx.mem_inUse_iff (d := d) hd)) le_rfl (hx.fresh d hd)
        ⟨hx.refs d hd, hx.pos d hd⟩ (by rw [hd]; rfl)

/-- **A reference is taken** to a cached handle. -/
theorem inv_ref (hi : ShardInv s held) (hc : h ∈ s.cached) :
    ShardInv (s.ref h) (update held h (held h + 1)) := by
  obtain ⟨d, hd, hin⟩ := hi.mem_cached_iff.mp hc
  have hx := hi.handle h
  have hpos := hx.pos d hd
  have hidle : ¬Idle (some { d with refs := d.refs + 1 }) := by
    rintro ⟨-, h1 : d.refs + 1 = 1⟩
    omega
  have hbusy : Busy (some { d with refs := d.refs + 1 }) := ⟨hin, Nat.succ_le_succ hpos⟩
  have hcount : Counted (update held h (held h + 1) h)
      (some { d with refs := d.refs + 1 }) := by
    refine ⟨?_, Nat.succ_pos _⟩
    rw [update_self, hx.refs d hd]
    exact Nat.add_right_comm _ _ _
  refine hi.change (ref_entries hd) (fun x hne => update_of_ne hne _ _) ?_ ?_
    (ref_frame s h).2.1.ge ((ref_frame s h).2.1 ▸ hx.fresh d hd) hcount
    (by rw [(ref_frame s h).2.2, hd]; rfl)
  all_goals
    by_cases h1 : d.refs = 1
  · rw [(ref_unpinned hd h1 hin).1]
    exact .erase hi.nodup_lru hidle
  · rw [(ref_pinned hd h1).1]
    exact .stay hi.nodup_lru (iff_of_false (fun hl => h1 ((hx.mem_lru_iff hd).mp hl).2) hidle)
  · rw [(ref_unpinned hd h1 hin).2]
    exact .append hi.nodup_inUse hbusy
  · rw [(ref_pinned hd h1).2]
    exact .stay hi.nodup_inUse (iff_of_true ((hx.mem_inUse_iff hd).mpr ⟨hin, by omega⟩) hbusy)

/-- **A reference is dropped** by a client that holds one. -/
theorem inv_unref (hi : ShardInv s held) (hheld : 0 < held h) :
    ShardInv (s.unref h) (update held h (held h - 1)) := by
  obtain ⟨d, hd⟩ := (hi.handle h).live hheld
  have hx := hi.handle h
  have hrefs := hx.refs d hd
  have hother : ∀ x, x ≠ h → update held h (held h - 1) x = held x :=
    fun x hne => update_of_ne hne _ _
  by_cases h1 : d.refs = 1
  · -- the last reference was the client's, so the handle is not in the cache
    have hin : d.inCache = false := by
      by_contra hc
      rw [Bool.not_eq_false] at hc
      rw [hc, if_pos rfl] at hrefs
      omega
    rw [unref_last hd h1]
    refine hi.change rfl hother (.stay hi.nodup_lru ?_) (.stay hi.nodup_inUse ?_) le_rfl
      (hx.fresh d hd) ?_ (by simp [hd, chargeIn, hin, destroy])
    · simp [hx.mem_lru_iff hd, hin, Idle]
    · simp [hx.mem_inUse_iff hd, hin, Busy]
    · rw [hin, if_neg Bool.false_ne_true] at hrefs
      rw [update_self, Counted]
      omega
  have hpos := hx.pos d hd
  have hcount : Counted (update held h (held h - 1) h)
      (some { d with refs := d.refs - 1 }) := by
    refine ⟨?_, Nat.sub_pos_of_lt (by omega)⟩
    rw [update_self, hrefs]
    exact Nat.sub_add_comm hheld
  by_cases h2 : d.refs = 2 ∧ d.inCache = true
  · rw [unref_to_lru hd h2.1 h2.2]
    refine hi.change (by simp [moveToLru, setEntry, hd]) hother (.append hi.nodup_lru ?_)
      (.erase hi.nodup_inUse ?_) le_rfl (hx.fresh d hd) hcount (by rw [hd]; rfl)
    · exact ⟨h2.2, by simp [h2.1]⟩
    · simp [Busy, h2.1]
  · have hcase : d.inCache = false ∨ d.refs ≠ 2 := by
      by_cases hin : d.inCache = true
      · exact .inr fun hr => h2 ⟨hr, hin⟩
      · exact .inl (by simpa using hin)
    rw [unref_other hd (by omega) hcase]
    refine hi.change (by simp [setEntry, hd]) hother (.stay hi.nodup_lru ?_)
      (.stay hi.nodup_inUse ?_) le_rfl (hx.fresh d hd) hcount (by rw [hd]; rfl)
    · rw [hx.mem_lru_iff hd]
      exact and_congr_right fun hin => ⟨fun hr => absurd hr h1,
        fun hr : d.refs - 1 = 1 => absurd ⟨by omega, hin⟩ h2⟩
    · rw [hx.mem_inUse_iff hd]
      refine and_congr_right fun hin => ?_
      have hne : d.refs ≠ 2 := fun hr => h2 ⟨hr, hin⟩
      exact ⟨fun hr => show 2 ≤ d.refs - 1 by omega, fun hr : 2 ≤ d.refs - 1 => by omega⟩

/-- **A cached handle is erased** from the cache. -/
theorem inv_finishErase (hi : ShardInv s held) (hc : h ∈ s.cached) :
    ShardInv (s.finishErase h) held := by
  obtain ⟨d, hd, hin⟩ := hi.mem_cached_iff.mp hc
  have hx := hi.handle h
  have hrefs := hx.refs d hd
  rw [hin, if_pos rfl] at hrefs
  have hcharge : chargeIn (s.entries h) = d.charge := by
    rw [hd]
    exact if_pos hin
  by_cases h1 : d.refs = 1
  · rw [finishErase_last hd h1]
    refine hi.change rfl (fun _ _ => rfl) (.erase hi.nodup_lru id) (.erase hi.nodup_inUse id) le_rfl
      (hx.fresh d hd) ?_ ?_
    · rw [Counted]
      omega
    · rw [hcharge]
      simp [chargeIn]
  · rw [finishErase_pinned hd (by omega)]
    refine hi.change rfl (fun _ _ => rfl) (.erase hi.nodup_lru ?_) (.erase hi.nodup_inUse ?_) le_rfl
      (hx.fresh d hd) ?_ ?_
    · simp [Idle]
    · simp [Busy]
    · simp only [Counted, Bool.false_eq_true, if_false]
      omega
    · rw [hcharge]
      simp [chargeIn]

/-- **A new handle is added**, with one reference for the client who asked for it. -/
theorem inv_add (hi : ShardInv s held) (a : InsertArgs) :
    ShardInv (s.add a) (update held s.fresh 1) := by
  have hnot := hi.fresh_not_mem
  rw [mem_cached, not_or] at hnot
  refine hi.change rfl (fun x hne => update_of_ne hne _ _) (.stay hi.nodup_lru ?_) ?_
    (Nat.le_succ _) (Nat.lt_succ_self _) ?_ ?_
  all_goals
    by_cases hcap : 0 < s.capacity
  · simp [hnot.1, Idle, newData, hcap]
  · simp [hnot.1, Idle, newData, hcap]
  · have happ := Moves.append (h := s.fresh) (b := Busy (some (s.newData a))) hi.nodup_inUse
      (by simp [Busy, newData, hcap])
    rw [List.erase_of_not_mem hnot.2] at happ
    simpa [add, hcap] using happ
  · have hstay := Moves.stay (h := s.fresh) (b := Busy (some (s.newData a))) hi.nodup_inUse
      (by simp [hnot.2, Busy, newData, hcap])
    simpa [add, hcap] using hstay
  · simp [Counted, newData, hcap]
  · simp [Counted, newData, hcap]
  · simp [hi.entries_fresh, chargeIn, add, newData, hcap]
  · simp [hi.entries_fresh, chargeIn, add, newData, hcap]

/-! ## Handles that stay -/

lemma SameHandle.refl (d : HandleData ℕ) : SameHandle d d := ⟨rfl, rfl, rfl, rfl⟩

lemma Shrinks.refl (s : LruShard) : Shrinks s s :=
  fun _ d hd => ⟨d, hd, SameHandle.refl d, id⟩

lemma Shrinks.trans {s₁ s₂ s₃ : LruShard} (h₁ : Shrinks s₁ s₂) (h₂ : Shrinks s₂ s₃) :
    Shrinks s₁ s₃ := by
  intro x d₁ hd₁
  obtain ⟨d₂, hd₂, hs, hc⟩ := h₁ x d₁ hd₁
  obtain ⟨d₃, hd₃, hs', hc'⟩ := h₂ x d₂ hd₂
  exact ⟨d₃, hd₃, ⟨hs.value.trans hs'.value, hs.pageId.trans hs'.pageId, hs.hash.trans hs'.hash,
    hs.charge.trans hs'.charge⟩, hc' ∘ hc⟩

/-- A handle whose contents change in nothing but the counter and, perhaps, by leaving the cache
or life altogether. -/
lemma shrinks_of_update {o : Option (HandleData ℕ)} (hd : s.entries h = some d)
    (hent : s'.entries = update s.entries h o)
    (ho : ∀ d', o = some d' → SameHandle d' d ∧ (d'.inCache = true → d.inCache = true)) :
    Shrinks s' s := by
  intro x d' hx
  rw [hent] at hx
  by_cases hxh : x = h
  · subst hxh
    rw [update_self] at hx
    exact ⟨d, hd, ho d' hx⟩
  · rw [update_of_ne hxh] at hx
    exact ⟨d', hx, SameHandle.refl d', id⟩

lemma shrinks_ref (s : LruShard) (h : ℕ) : Shrinks (s.ref h) s := by
  cases hd : s.entries h with
  | none =>
      have hsame : s.ref h = s := by simp [ref, hd]
      rw [hsame]
      exact Shrinks.refl s
  | some d =>
      refine shrinks_of_update hd (ref_entries hd) ?_
      rintro d' hd'
      cases hd'
      exact ⟨⟨rfl, rfl, rfl, rfl⟩, id⟩

lemma unref_entries (hd : s.entries h = some d) :
    (s.unref h).entries = update s.entries h
      (if d.refs - 1 = 0 then none else some { d with refs := d.refs - 1 }) := by
  simp only [unref, hd]
  split_ifs <;> simp [destroy, setEntry, moveToLru, hd]

lemma shrinks_unref (s : LruShard) (h : ℕ) : Shrinks (s.unref h) s := by
  cases hd : s.entries h with
  | none =>
      have hsame : s.unref h = s := by simp [unref, hd]
      rw [hsame]
      exact Shrinks.refl s
  | some d =>
      refine shrinks_of_update hd (unref_entries hd) ?_
      intro d' hd'
      split at hd'
      · cases hd'
      · cases hd'
        exact ⟨⟨rfl, rfl, rfl, rfl⟩, id⟩

lemma finishErase_entries (hd : s.entries h = some d) :
    (s.finishErase h).entries = update s.entries h
      (if d.refs - 1 = 0 then none
        else some { d with inCache := false, refs := d.refs - 1 }) := by
  simp only [finishErase, hd]
  rw [unref_entries (d := { d with inCache := false }) (by simp [setEntry, unlink, hd])]
  simp [setEntry, unlink]

lemma shrinks_finishErase (s : LruShard) (h : ℕ) : Shrinks (s.finishErase h) s := by
  cases hd : s.entries h with
  | none =>
      have hsame : s.finishErase h = s := by simp [finishErase, hd]
      rw [hsame]
      exact Shrinks.refl s
  | some d =>
      refine shrinks_of_update hd (finishErase_entries hd) ?_
      intro d' hd'
      split at hd'
      · cases hd'
      · cases hd'
        exact ⟨⟨rfl, rfl, rfl, rfl⟩, fun hc => absurd hc Bool.false_ne_true⟩

lemma UniqueKeys.shrinks (hu : UniqueKeys s) (hs : Shrinks s' s) : UniqueKeys s' := by
  intro a b da db ha hb hca hcb hkey hhash
  obtain ⟨da₀, ha₀, hsa, hca₀⟩ := hs a da ha
  obtain ⟨db₀, hb₀, hsb, hcb₀⟩ := hs b db hb
  refine hu a b da₀ db₀ ha₀ hb₀ (hca₀ hca) (hcb₀ hcb) ?_ ?_
  · rw [← hsa.pageId, ← hsb.pageId, hkey]
  · rw [← hsa.hash, ← hsb.hash, hhash]

lemma UniqueKeys.setValue (hu : UniqueKeys s) (h : ℕ) (v : Ptr) :
    UniqueKeys (s.setEntry h fun d => { d with value := v }) := by
  have hback : ∀ x d', (s.setEntry h fun d => { d with value := v }).entries x = some d' →
      ∃ d, s.entries x = some d ∧ d'.pageId = d.pageId ∧ d'.hash = d.hash ∧
        d'.inCache = d.inCache := by
    intro x d' hx
    rw [setEntry_entries] at hx
    split at hx
    next hxh =>
      obtain ⟨d, hd, rfl⟩ := Option.map_eq_some_iff.mp hx
      exact ⟨d, hxh ▸ hd, rfl, rfl, rfl⟩
    next => exact ⟨d', hx, rfl, rfl, rfl⟩
  intro a b da db ha hb hca hcb hkey hhash
  obtain ⟨da₀, ha₀, hka, hha, hca₀⟩ := hback a da ha
  obtain ⟨db₀, hb₀, hkb, hhb, hcb₀⟩ := hback b db hb
  refine hu a b da₀ db₀ ha₀ hb₀ (hca₀ ▸ hca) (hcb₀ ▸ hcb) ?_ ?_
  · rw [← hka, ← hkb, hkey]
  · rw [← hha, ← hhb, hhash]

/-! ## Lookups -/

lemma find_spec {key : KeyType} {hash : UInt32} (hf : s.find key hash = some h) :
    h ∈ s.cached ∧ ∃ d, s.entries h = some d ∧ d.pageId = key ∧ d.hash = hash := by
  have hkey := List.find?_some hf
  refine ⟨List.mem_of_find?_eq_some hf, ?_⟩
  rw [beq_iff_eq, keyOf, Option.map_eq_some_iff] at hkey
  obtain ⟨d, hd, heq⟩ := hkey
  rw [Prod.mk.injEq] at heq
  exact ⟨d, hd, heq.1, heq.2⟩

lemma find_eq_none {key : KeyType} {hash : UInt32} (hf : s.find key hash = none)
    (hc : h ∈ s.cached) (hd : s.entries h = some d) : ¬(d.pageId = key ∧ d.hash = hash) := by
  rintro ⟨rfl, rfl⟩
  have := List.find?_eq_none.mp hf h hc
  simp [keyOf, hd] at this

/-- With distinct keys, a lookup finds the one handle there is. -/
lemma find_eq_some_iff (hi : ShardInv s held) (hu : UniqueKeys s) {key : KeyType}
    {hash : UInt32} : s.find key hash = some h ↔
      ∃ d, s.entries h = some d ∧ d.inCache = true ∧ d.pageId = key ∧ d.hash = hash := by
  constructor
  · intro hf
    obtain ⟨hc, d, hd, hk, hh⟩ := find_spec hf
    obtain ⟨d', hd', hin⟩ := hi.mem_cached_iff.mp hc
    rw [hd] at hd'
    cases hd'
    exact ⟨d, hd, hin, hk, hh⟩
  · rintro ⟨d, hd, hin, hk, hh⟩
    have hc := hi.mem_cached_iff.mpr ⟨d, hd, hin⟩
    cases hf : s.find key hash with
    | none => exact absurd ⟨hk, hh⟩ (find_eq_none hf hc hd)
    | some x =>
        obtain ⟨hxc, dx, hdx, hkx, hhx⟩ := find_spec hf
        obtain ⟨dx', hdx', hinx⟩ := hi.mem_cached_iff.mp hxc
        rw [hdx] at hdx'
        cases hdx'
        rw [hu x h dx d hdx hd hinx hin (hkx.trans hk.symm) (hhx.trans hh.symm)]

/-! ## Eviction -/

section Evict

variable {handOver : Bool → Ptr → Ptr → Ptr × Bool} {e old : ℕ} {reused : Bool} {rest : List ℕ}

lemma evictLoop_rule {P : Bool → LruShard → Prop}
    (hstep : ∀ reused s old rest, P reused s → s.lru = old :: rest → s.capacity < s.usage →
      P (s.evictOne handOver e reused old).1 (s.evictOne handOver e reused old).2)
    (fuel : ℕ) (hP : P reused s) :
    P (s.evictLoop handOver e fuel reused).1 (s.evictLoop handOver e fuel reused).2 := by
  induction fuel generalizing reused s with
  | zero => exact hP
  | succ n ih =>
      simp only [evictLoop]
      cases hl : s.lru with
      | nil => exact hP
      | cons old rest =>
          by_cases hcap : s.capacity < s.usage
          · simp only [hcap, if_true]
            exact ih (hstep reused s old rest hP hl hcap)
          · simp only [hcap, if_false]
            exact hP

lemma inv_evictOne (hi : ShardInv s held) (hl : s.lru = old :: rest) :
    ShardInv (s.evictOne handOver e reused old).2 held := by
  refine inv_finishErase (inv_setValue hi e _) ?_
  rw [setEntry_cached, mem_cached, hl]
  exact .inl List.mem_cons_self

lemma finishErase_lru (s : LruShard) (h : ℕ) :
    (s.finishErase h).lru = if (s.entries h).isSome then s.lru.erase h else s.lru := by
  cases hd : s.entries h with
  | none => simp [finishErase, hd]
  | some d =>
      by_cases hr : d.refs - 1 = 0
      · simp [finishErase, unref, hd, setEntry, unlink, destroy, hr]
      · simp [finishErase, unref, hd, setEntry, unlink, hr]

lemma finishErase_lru_sublist (s : LruShard) (h : ℕ) : (s.finishErase h).lru.Sublist s.lru := by
  rw [finishErase_lru]
  split
  · exact List.erase_sublist
  · exact List.Sublist.refl _

lemma evictOne_lru (hi : ShardInv s held) (hl : s.lru = old :: rest) :
    (s.evictOne handOver e reused old).2.lru = rest := by
  obtain ⟨d, hd, -⟩ := (hi.handle old).mem_lru.mp (hl ▸ List.mem_cons_self)
  have hsome : ((s.setEntry e fun d => { d with
      value := (handOver reused (s.valueOf e) (s.valueOf old)).1 }).entries old).isSome := by
    rw [setEntry_entries]
    split
    next heq => simp [← heq, hd]
    next => simp [hd]
  simp only [evictOne]
  rw [finishErase_lru, if_pos hsome, setEntry_lru, hl, List.erase_cons_head]

lemma finishErase_capacity (s : LruShard) (h : ℕ) : (s.finishErase h).capacity = s.capacity := by
  cases hd : s.entries h with
  | none => simp [finishErase, hd]
  | some d =>
      by_cases hr : d.refs - 1 = 0
      · simp [finishErase, unref, hd, setEntry, unlink, destroy, hr]
      · simp [finishErase, unref, hd, setEntry, unlink, hr]

lemma unref_capacity (s : LruShard) (h : ℕ) : (s.unref h).capacity = s.capacity := by
  cases hd : s.entries h with
  | none => simp [unref, hd]
  | some d =>
      simp only [unref, hd]
      split_ifs <;> rfl

end Evict

/-! ## The operations keep the invariant -/

lemma pruneLoop_rule {P : LruShard → Prop}
    (hstep : ∀ s h rest, P s → s.lru = h :: rest → P (s.finishErase h)) (fuel : ℕ) (hP : P s) :
    P (s.pruneLoop fuel) := by
  induction fuel generalizing s with
  | zero => exact hP
  | succ n ih =>
      simp only [pruneLoop]
      cases hl : s.lru with
      | nil => exact hP
      | cons h rest => exact ih (hstep s h rest hP hl)

end LruShard

end GroundDB
