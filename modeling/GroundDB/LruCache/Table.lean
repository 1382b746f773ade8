import GroundDB.LruCache.Memory

/-!
# The pointer program of a shard: its hash table

`HandleTable` keeps the handles of the cache in chains along `next_hash`, one for each bucket of an
array that doubles when there are more handles than buckets.  `FindPointer` walks a chain and
returns the place that holds the pointer to the handle it looked for, which is either an entry of
the array or the field `next_hash` of a handle; insertion and removal then assign to that place.

`TableRep c cached bs` says that the table holds exactly the handles `cached`: the chain of the
bucket `i` goes through the handles `bs i`, which are those whose hash belongs to the bucket.
Lookup, insertion, removal and rehashing keep it, and none of them touches anything else in
memory.
-/

namespace GroundDB

open PtrHeap Links Function

/-- `KeyTypeCmp` compares the five fields. -/
def keyTypeCmp (a b : KeyType) : Bool :=
  a.spcID == b.spcID && a.dbID == b.dbID && a.relID == b.relID && a.forkNum == b.forkNum
    && a.blkNum == b.blkNum

@[simp] lemma keyTypeCmp_iff {a b : KeyType} : keyTypeCmp a b = true ↔ a = b := keyMatch_iff

/-- The bucket of a hash: `hash & (length_ - 1)`. -/
def HandleTable.bucketOf (t : HandleTable) (hash : UInt32) : ℕ := (hash &&& (t.length - 1)).toNat

/-- The result of `FindPointer`: where a pointer to a handle is kept. -/
inductive HandleSlot
  | bucket (i : ℕ)
  | nextHash (a : ℕ)

/-- The loop of `Resize` that looks for the new length.  After thirty doublings of 4 the length
has become zero, and the loop goes on forever. -/
def growLength (elems : UInt32) : ℕ → UInt32 → Option UInt32
  | 0, _ => none
  | fuel + 1, n => if n < elems then growLength elems fuel (n * 2) else some n

namespace LRUCache

/-! ## The functions of the table -/

/-- `*ptr`. -/
def readSlot : HandleSlot → ShardM Ptr
  | .bucket i => fun c => if i < c.table.length.toNat then some (c.table.list i, c) else none
  | .nextHash a => getNextHash (some a)

/-- The memory after `*ptr = v`. -/
def putSlot (c : LRUCache) (slot : HandleSlot) (v : Ptr) : LRUCache :=
  match slot with
  | .bucket i => { c with table := { c.table with list := update c.table.list i v } }
  | .nextHash a => { c with nextHash := update c.nextHash a v }

/-- `*ptr = v`. -/
def writeSlot (slot : HandleSlot) (v : Ptr) : ShardM Unit := do
  let _ ← readSlot slot
  modify fun c => c.putSlot slot v

/-- The loop of `FindPointer`. -/
def findPointerLoop (key : KeyType) (hash : UInt32) : ℕ → HandleSlot → ShardM HandleSlot
  | 0, _ => fun _ => none
  | fuel + 1, ptr => do
      match ← readSlot ptr with
      | none => return ptr
      | some a => do
          let d ← getData (some a)
          if d.hash ≠ hash ∨ keyTypeCmp key d.pageId = false then
            findPointerLoop key hash fuel (.nextHash a)
          else return ptr

/-- `FindPointer`. -/
def findPointer (key : KeyType) (hash : UInt32) : ShardM HandleSlot := do
  let c ← get
  findPointerLoop key hash (c.fresh + 1) (.bucket (c.table.bucketOf hash))

/-- `HandleTable::Lookup`. -/
def tableLookup (key : KeyType) (hash : UInt32) : ShardM Ptr := do
  readSlot (← findPointer key hash)

/-- The inner loop of `Resize`: the handles of a chain are put in front of their new chains. -/
def rehashChain (newLength : UInt32) : ℕ → Ptr → (ℕ → Ptr) → ShardM (ℕ → Ptr)
  | 0, _, _ => fun _ => none
  | _ + 1, none, newList => return newList
  | fuel + 1, some h, newList => do
      let next ← getNextHash (some h)
      let d ← getData (some h)
      let i := (d.hash &&& (newLength - 1)).toNat
      setNextHash (some h) (newList i)
      rehashChain newLength fuel next (update newList i (some h))

/-- The outer loop of `Resize`, over the old buckets. -/
def rehash (newLength : UInt32) : List ℕ → (ℕ → Ptr) → ShardM (ℕ → Ptr)
  | [], newList => return newList
  | i :: is, newList => do
      let c ← get
      let newList ← rehashChain newLength (c.fresh + 1) (c.table.list i) newList
      rehash newLength is newList

/-- `Resize`. -/
def resize : ShardM Unit := do
  let c ← get
  let newLength ← (growLength c.table.elems 30 4 : Option UInt32)
  let newList ← rehash newLength (List.range c.table.length.toNat) fun _ => none
  modify fun c => { c with table := { c.table with list := newList, length := newLength } }

/-- `elems_ = e`. -/
def setElems (c : LRUCache) (e : UInt32) : LRUCache :=
  { c with table := { c.table with elems := e } }

/-- `HandleTable::Insert`: returns the handle whose place the new one takes. -/
def tableInsert (h : ℕ) : ShardM Ptr := do
  let d ← getData (some h)
  let ptr ← findPointer d.pageId d.hash
  let old ← readSlot ptr
  let rest ← match old with
    | none => pure none
    | some o => getNextHash (some o)
  setNextHash (some h) rest
  writeSlot ptr (some h)
  if old = none then
    modify fun c => c.setElems (c.table.elems + 1)
    let c ← get
    if c.table.length < c.table.elems then
      resize
  return old

/-- `HandleTable::Remove`. -/
def tableRemove (key : KeyType) (hash : UInt32) : ShardM Ptr := do
  let ptr ← findPointer key hash
  let result ← readSlot ptr
  match result with
  | none => return none
  | some r => do
      writeSlot ptr (← getNextHash (some r))
      modify fun c => c.setElems (c.table.elems - 1)
      return some r

/-! ## The new length -/

lemma toNat_double {n : UInt32} {k : ℕ} (hn : n.toNat * 2 ^ (k + 1) = 2 ^ 31) :
    (n * 2).toNat * 2 ^ k = 2 ^ 31 := by
  have hle : n.toNat * 2 ≤ 2 ^ 31 := by
    calc n.toNat * 2 ≤ n.toNat * 2 * 2 ^ k := Nat.le_mul_of_pos_right _ (by positivity)
      _ = 2 ^ 31 := by rw [← hn]; ring
  have hmul : (n * 2).toNat = n.toNat * 2 := by
    rw [UInt32.toNat_mul]
    simp only [UInt32.reduceToNat]
    omega
  rw [hmul, ← hn]
  ring

/-- What the loop returns is large enough, not zero, and at most `2 ^ 31`. -/
lemma growLength_le {elems n m : UInt32} {k : ℕ} (hn : n.toNat * 2 ^ k = 2 ^ 31)
    (h : growLength elems (k + 1) n = some m) : elems ≤ m ∧ 0 < m ∧ m.toNat ≤ 2 ^ 31 := by
  induction k generalizing n with
  | zero =>
      simp only [growLength] at h
      split at h
      · cases h
      next hge =>
        cases h
        refine ⟨UInt32.not_lt.mp hge, ?_, by omega⟩
        rw [UInt32.lt_iff_toNat_lt]
        simp only [UInt32.reduceToNat]
        omega
  | succ k ih =>
      rw [growLength] at h
      split at h
      next hlt => exact ih (toNat_double hn) h
      next hge =>
        obtain rfl : n = m := by simpa using h
        have hpos : 0 < n.toNat := by
          rcases Nat.eq_zero_or_pos n.toNat with h0 | h0
          · rw [h0, zero_mul] at hn
            exact absurd hn (by norm_num)
          · exact h0
        refine ⟨UInt32.not_lt.mp hge, UInt32.lt_iff_toNat_lt.mpr hpos, ?_⟩
        calc n.toNat ≤ n.toNat * 2 ^ (k + 1) := Nat.le_mul_of_pos_right _ (by positivity)
          _ = 2 ^ 31 := hn

lemma growLength_isSome {elems n : UInt32} {k : ℕ} (hn : n.toNat * 2 ^ k = 2 ^ 31)
    (he : elems.toNat ≤ 2 ^ 31) : (growLength elems (k + 1) n).isSome := by
  induction k generalizing n with
  | zero =>
      have hge : ¬n < elems := by
        rw [UInt32.lt_iff_toNat_lt]
        omega
      simp [growLength, hge]
  | succ k ih =>
      rw [growLength]
      split
      · exact ih (toNat_double hn)
      · rfl

/-- The new length is enough for all handles, and is found for up to `2 ^ 31` of them. -/
lemma growLength_spec (elems : UInt32) :
    (∃ m, growLength elems 30 4 = some m ∧ elems ≤ m ∧ 0 < m ∧ m.toNat ≤ 2 ^ 31) ∨
      (growLength elems 30 4 = none ∧ 2 ^ 31 < elems.toNat) := by
  cases hg : growLength elems 30 4 with
  | none =>
      right
      refine ⟨rfl, ?_⟩
      by_contra hle
      have hsome : (growLength elems (29 + 1) 4).isSome := growLength_isSome rfl (by omega)
      rw [hg] at hsome
      exact absurd hsome (by simp)
  | some m => exact .inl ⟨m, rfl, growLength_le (k := 29) rfl hg⟩

/-! ## What the table holds -/

/-- The table holds the handles `cached`, those of the bucket `i` in the order `bs i`. -/
structure TableRep (c : LRUCache) (cached : List ℕ) (bs : ℕ → List ℕ) : Prop where
  pos : 0 < c.table.length
  small : c.table.length.toNat ≤ 2 ^ 31
  path : ∀ i < c.table.length.toNat, Seg c.nextHash (c.table.list i) (bs i) none
  mem : ∀ i < c.table.length.toNat, ∀ h,
    h ∈ bs i ↔ h ∈ cached ∧ c.table.bucketOf (c.data h).hash = i
  live : ∀ h ∈ cached, c.live h = true
  bound : ∀ h ∈ cached, h < c.fresh
  elems : c.table.elems.toNat = cached.length

/-- The handle at `a` has the key and hash of a lookup. -/
def Matches (c : LRUCache) (key : KeyType) (hash : UInt32) (a : ℕ) : Prop :=
  (c.data a).hash = hash ∧ (c.data a).pageId = key

lemma bucketOf_lt {t : HandleTable} (hpos : 0 < t.length) (hash : UInt32) :
    t.bucketOf hash < t.length.toNat := by
  have hlen : 0 < t.length.toNat := UInt32.lt_iff_toNat_lt.mp hpos
  have hsub : (t.length - 1).toNat = t.length.toNat - 1 := by
    have := t.length.toNat_lt
    rw [UInt32.toNat_sub]
    simp only [UInt32.reduceToNat]
    omega
  have hle : t.bucketOf hash ≤ (t.length - 1).toNat := by
    rw [HandleTable.bucketOf, UInt32.toNat_and]
    exact Nat.and_le_right
  omega

variable {c : LRUCache} {cached : List ℕ} {bs : ℕ → List ℕ} {key : KeyType} {hash : UInt32}

lemma TableRep.length_le (ht : TableRep c cached bs) {i : ℕ} (hi : i < c.table.length.toNat) :
    (bs i).length ≤ c.fresh := by
  have hsub : bs i ⊆ List.range c.fresh := by
    intro a ha
    exact List.mem_range.mpr (ht.bound a ((ht.mem i hi a).mp ha).1)
  have hlen := ((ht.path i hi).nodup.subperm hsub).length_le
  rwa [List.length_range] at hlen

/-! ## Finding a handle -/

/-- The place that holds the pointer behind the handles `l`. -/
def slotAfter (slot : HandleSlot) : List ℕ → HandleSlot
  | [] => slot
  | a :: l => slotAfter (.nextHash a) l

@[simp] lemma slotAfter_concat (slot : HandleSlot) (l : List ℕ) (a : ℕ) :
    slotAfter slot (l ++ [a]) = .nextHash a := by
  induction l generalizing slot with
  | nil => rfl
  | cons x xs ih => exact ih (.nextHash x)

/-- **`FindPointer`** stops behind the handles that do not match, in front of the first that does
or at the end of the chain. -/
lemma run_findPointerLoop {b : List ℕ} {p : Ptr} {slot : HandleSlot} {fuel : ℕ}
    (hseg : Seg c.nextHash p b none) (hlive : ∀ x ∈ b, c.live x = true)
    (hslot : (readSlot slot).run c = some (p, c)) (hfuel : b.length < fuel) :
    ∃ b₁ rest, b = b₁ ++ rest ∧ (∀ x ∈ b₁, ¬Matches c key hash x) ∧
      (∀ x ∈ rest.head?, Matches c key hash x) ∧
      (findPointerLoop key hash fuel slot).run c = some (slotAfter slot b₁, c) ∧
      (readSlot (slotAfter slot b₁)).run c = some (rest.head?, c) := by
  induction b generalizing p slot fuel with
  | nil =>
      obtain rfl : p = none := hseg
      obtain ⟨n, rfl⟩ : ∃ n, fuel = n + 1 := ⟨fuel - 1, by simp at hfuel; omega⟩
      refine ⟨[], [], rfl, by simp, by simp, ?_, hslot⟩
      simp [findPointerLoop, hslot, slotAfter]
  | cons a l ih =>
      obtain ⟨rfl, hrest⟩ := hseg
      obtain ⟨n, rfl⟩ : ∃ n, fuel = n + 1 := ⟨fuel - 1, by simp at hfuel; omega⟩
      have hla := hlive a List.mem_cons_self
      by_cases hm : Matches c key hash a
      · have hcond : ¬((c.data a).hash ≠ hash ∨ keyTypeCmp key (c.data a).pageId = false) := by
          rw [not_or, not_not, Bool.not_eq_false, keyTypeCmp_iff]
          exact ⟨hm.1, hm.2.symm⟩
        refine ⟨[], a :: l, rfl, by simp, by simpa using hm, ?_, hslot⟩
        simp only [findPointerLoop, StateT.run_bind, hslot, Option.bind_eq_bind, Option.bind_some,
          run_getData hla]
        rw [if_neg hcond]
        rfl
      · have hcond : (c.data a).hash ≠ hash ∨ keyTypeCmp key (c.data a).pageId = false := by
          by_contra hno
          rw [not_or, not_not, Bool.not_eq_false, keyTypeCmp_iff] at hno
          exact hm ⟨hno.1, hno.2.symm⟩
        have hnext : (readSlot (.nextHash a)).run c = some (c.nextHash a, c) := by
          simp [readSlot, hla]
        have hfuel' : l.length < n := by simpa using hfuel
        obtain ⟨b₁, rest, rfl, hno, hyes, hrun, hread⟩ :=
          ih hrest (fun x hx => hlive x (List.mem_cons_of_mem a hx)) hnext hfuel'
        refine ⟨a :: b₁, rest, rfl, ?_, hyes, ?_, hread⟩
        · intro x hx
          rcases List.mem_cons.mp hx with rfl | hx
          · exact hm
          · exact hno x hx
        · simp only [findPointerLoop, StateT.run_bind, hslot, Option.bind_eq_bind,
            Option.bind_some, run_getData hla]
          rw [if_pos hcond]
          exact hrun

lemma TableRep.findPointer (ht : TableRep c cached bs) (key : KeyType) (hash : UInt32) :
    ∃ b₁ rest, bs (c.table.bucketOf hash) = b₁ ++ rest ∧ (∀ x ∈ b₁, ¬Matches c key hash x) ∧
      (∀ x ∈ rest.head?, Matches c key hash x) ∧
      (LRUCache.findPointer key hash).run c =
        some (slotAfter (.bucket (c.table.bucketOf hash)) b₁, c) ∧
      (readSlot (slotAfter (.bucket (c.table.bucketOf hash)) b₁)).run c
        = some (rest.head?, c) := by
  have hi := bucketOf_lt ht.pos hash
  have hlive : ∀ x ∈ bs (c.table.bucketOf hash), c.live x = true :=
    fun x hx => ht.live x ((ht.mem _ hi x).mp hx).1
  have hfirst : (readSlot (.bucket (c.table.bucketOf hash))).run c
      = some (c.table.list (c.table.bucketOf hash), c) := by
    simp [readSlot, StateT.run, hi]
  obtain ⟨b₁, rest, hb, hno, hyes, hrun, hread⟩ := @run_findPointerLoop c key hash _ _ _ _
    (ht.path _ hi) hlive hfirst (Nat.lt_succ_of_le (ht.length_le hi))
  refine ⟨b₁, rest, hb, hno, hyes, ?_, hread⟩
  simp [LRUCache.findPointer, hrun]

lemma TableRep.not_matches (ht : TableRep c cached bs) {b : List ℕ}
    (hb : bs (c.table.bucketOf hash) = b) (hno : ∀ x ∈ b, ¬Matches c key hash x) :
    ∀ x ∈ cached, ¬Matches c key hash x := by
  intro x hx hm
  refine hno x ?_ hm
  rw [← hb]
  exact (ht.mem _ (bucketOf_lt ht.pos hash) x).mpr ⟨hx, by rw [hm.1]⟩

/-- **`HandleTable::Lookup`** finds the cached handle with the key and hash, if there is one. -/
theorem TableRep.tableLookup (ht : TableRep c cached bs) (key : KeyType) (hash : UInt32) :
    ∃ r : Ptr, (LRUCache.tableLookup key hash).run c = some (r, c) ∧
      (∀ o, r = some o → o ∈ cached ∧ Matches c key hash o) ∧
      (r = none → ∀ x ∈ cached, ¬Matches c key hash x) := by
  obtain ⟨b₁, rest, hb, hno, hyes, hrun, hread⟩ := ht.findPointer key hash
  have hi := bucketOf_lt ht.pos hash
  refine ⟨rest.head?, by simp [LRUCache.tableLookup, hrun, hread], ?_, ?_⟩
  · intro o ho
    have hmem : o ∈ bs (c.table.bucketOf hash) := by
      rw [hb]
      exact List.mem_append_right _ (List.mem_of_mem_head? ho)
    exact ⟨((ht.mem _ hi o).mp hmem).1, hyes o ho⟩
  · intro hnone
    rw [List.head?_eq_none_iff.mp hnone, List.append_nil] at hb
    exact ht.not_matches hb hno

/-! ## Assigning to the place found -/

/-- Two states that agree on all but the table and its chains. -/
def SameLists (c' c : LRUCache) : Prop :=
  c' = { c with table := c'.table, nextHash := c'.nextHash }

lemma SameLists.trans {c₁ c₂ c₃ : LRUCache} (h₁ : SameLists c₁ c₂) (h₂ : SameLists c₂ c₃) :
    SameLists c₁ c₃ := by
  rw [SameLists, h₁, h₂]

lemma SameLists.agree {c' : LRUCache} (hs : SameLists c' c) : c'.live = c.live ∧
    c'.fresh = c.fresh ∧ c'.data = c.data ∧ c'.freelist = c.freelist := by
  rw [hs]
  exact ⟨rfl, rfl, rfl, rfl⟩

lemma ListsRep.sameLists {c' : LRUCache} {s : LruShard} (hr : ListsRep c s)
    (hs : SameLists c' c) : ListsRep c' s := by
  rw [hs]
  exact ⟨hr.lru, hr.inUse, hr.disjoint, hr.live, hr.handle, hr.entries, hr.fresh, hr.capacity,
    hr.usage, hr.deleterCalls⟩

variable {i : ℕ} {b₁ l rest : List ℕ} {q : Ptr}

lemma putSlot_sameLists (c : LRUCache) (slot : HandleSlot) (q : Ptr) :
    SameLists (c.putSlot slot q) c := by
  cases slot <;> rfl

lemma SameLists.setElems {c' : LRUCache} (hs : SameLists c' c) (e : UInt32) :
    SameLists (c'.setElems e) c := by
  rw [SameLists, LRUCache.setElems, hs]

@[simp] lemma setElems_elems (c : LRUCache) (e : UInt32) : (c.setElems e).table.elems = e := rfl

@[simp] lemma setElems_length (c : LRUCache) (e : UInt32) :
    (c.setElems e).table.length = c.table.length := rfl

lemma putSlot_length (c : LRUCache) (slot : HandleSlot) (q : Ptr) :
    (c.putSlot slot q).table.length = c.table.length ∧
      (c.putSlot slot q).table.elems = c.table.elems := by
  cases slot <;> exact ⟨rfl, rfl⟩

/-- The place behind `b₁` is the entry of the bucket or belongs to a handle of `b₁`. -/
lemma slotAfter_cases (i : ℕ) (b₁ : List ℕ) :
    (b₁ = [] ∧ slotAfter (.bucket i) b₁ = .bucket i) ∨
      ∃ l a, b₁ = l ++ [a] ∧ slotAfter (.bucket i) b₁ = .nextHash a := by
  rcases List.eq_nil_or_concat b₁ with rfl | ⟨l, a, rfl⟩
  · exact .inl ⟨rfl, rfl⟩
  · rw [List.concat_eq_append]
    exact .inr ⟨l, a, rfl, slotAfter_concat _ l a⟩

lemma putSlot_list {j : ℕ} (hj : j ≠ i) :
    (c.putSlot (slotAfter (.bucket i) b₁) q).table.list j = c.table.list j := by
  rcases slotAfter_cases i b₁ with ⟨-, hs⟩ | ⟨l, a, -, hs⟩
  · rw [hs]
    exact update_of_ne hj _ _
  · rw [hs]
    rfl

lemma putSlot_nextHash {x : ℕ} (hx : x ∉ b₁) :
    (c.putSlot (slotAfter (.bucket i) b₁) q).nextHash x = c.nextHash x := by
  rcases slotAfter_cases i b₁ with ⟨-, hs⟩ | ⟨l, a, rfl, hs⟩
  · rw [hs]
    rfl
  · rw [hs]
    refine update_of_ne ?_ _ _
    rintro rfl
    exact hx (by simp)

/-- **The chain after an assignment**: the handles passed, and then what the new pointer leads
to. -/
lemma putSlot_chain (hseg : Seg c.nextHash (c.table.list i) (b₁ ++ rest) none)
    (hl : Seg c.nextHash q l none) (hdis : ∀ x ∈ b₁, x ∉ l) :
    Seg (c.putSlot (slotAfter (.bucket i) b₁) q).nextHash
      ((c.putSlot (slotAfter (.bucket i) b₁) q).table.list i) (b₁ ++ l) none := by
  have hnd : b₁.Nodup := (List.nodup_append.mp hseg.nodup).1
  have hl' : Seg (c.putSlot (slotAfter (.bucket i) b₁) q).nextHash q l none :=
    hl.congr fun x hx => putSlot_nextHash fun hx₁ => hdis x hx₁ hx
  refine seg_append.mpr ⟨q, ?_, hl'⟩
  obtain ⟨m, h₁, -⟩ := seg_append.mp hseg
  rcases slotAfter_cases i b₁ with ⟨rfl, hs⟩ | ⟨l₀, a, rfl, hs⟩
  · rw [hs]
    exact update_self ..
  · rw [hs]
    refine Seg.retarget h₁ ?_
    intro ha
    exact (List.nodup_append.mp hnd).2.2 a ha a List.mem_cons_self rfl

/-- A table changes the chain of one bucket: it then holds other handles of this bucket. -/
lemma TableRep.rebucket {c' : LRUCache} {cached' b : List ℕ} (ht : TableRep c cached bs)
    (hlen : c'.table.length = c.table.length) (hs : SameLists c' c)
    (hchain : Seg c'.nextHash (c'.table.list i) b none)
    (hlist : ∀ j, j ≠ i → c'.table.list j = c.table.list j)
    (hnext : ∀ x ∈ cached, c.table.bucketOf (c.data x).hash ≠ i → c'.nextHash x = c.nextHash x)
    (hmem : ∀ h, h ∈ b ↔ h ∈ cached' ∧ c.table.bucketOf (c.data h).hash = i)
    (hother : ∀ h, c.table.bucketOf (c.data h).hash ≠ i → (h ∈ cached' ↔ h ∈ cached))
    (hlive : ∀ h ∈ cached', c.live h = true) (hbound : ∀ h ∈ cached', h < c.fresh)
    (helems : c'.table.elems.toNat = cached'.length) :
    TableRep c' cached' (update bs i b) := by
  have hbucket : ∀ hash, c'.table.bucketOf hash = c.table.bucketOf hash := by
    intro hash
    rw [HandleTable.bucketOf, hlen]
    rfl
  refine ⟨hlen ▸ ht.pos, hlen ▸ ht.small, ?_, ?_, ?_, ?_, helems⟩
  · intro j hj
    rw [hlen] at hj
    by_cases hji : j = i
    · subst hji
      rw [update_self]
      exact hchain
    · rw [update_of_ne hji, hlist j hji]
      refine (ht.path j hj).congr ?_
      intro x hx
      obtain ⟨hc, hb⟩ := (ht.mem j hj x).mp hx
      exact hnext x hc (hb.trans_ne hji)
  · intro j hj h
    rw [hlen] at hj
    rw [hbucket, hs.agree.2.2.1]
    by_cases hji : j = i
    · subst hji
      rw [update_self]
      exact hmem h
    · rw [update_of_ne hji, ht.mem j hj]
      constructor
      · rintro ⟨hc, hb⟩
        exact ⟨(hother h (hb.trans_ne hji)).mpr hc, hb⟩
      · rintro ⟨hc, hb⟩
        exact ⟨(hother h (hb.trans_ne hji)).mp hc, hb⟩
  · rw [hs.agree.1]
    exact hlive
  · rw [hs.agree.2.1]
    exact hbound

lemma TableRep.not_mem_before (ht : TableRep c cached bs) (hi : i < c.table.length.toNat)
    (hb : bs i = b₁ ++ rest) {x : ℕ} (hx : c.table.bucketOf (c.data x).hash ≠ i) : x ∉ b₁ := by
  intro hx₁
  refine hx ((ht.mem i hi x).mp ?_).2
  rw [hb]
  exact List.mem_append_left rest hx₁

lemma TableRep.setNextHash {h : ℕ} (ht : TableRep c cached bs) (hh : h ∉ cached) (q : Ptr) :
    TableRep { c with nextHash := update c.nextHash h q } cached bs := by
  refine ⟨ht.pos, ht.small, ?_, ht.mem, ht.live, ht.bound, ht.elems⟩
  intro j hj
  refine (ht.path j hj).congr ?_
  intro x hx
  refine update_of_ne ?_ _ _
  rintro rfl
  exact hh ((ht.mem j hj x).mp hx).1

lemma run_writeSlot_after (hi : i < c.table.length.toNat) (hlive : ∀ x ∈ b₁, c.live x = true)
    (v : Ptr) : (writeSlot (slotAfter (.bucket i) b₁) v).run c
      = some ((), c.putSlot (slotAfter (.bucket i) b₁) v) := by
  rcases slotAfter_cases i b₁ with ⟨-, hs⟩ | ⟨l, a, rfl, hs⟩
  · rw [hs]
    simp [writeSlot, readSlot, StateT.run, hi, bind, StateT.bind, modify, modifyGet,
      MonadStateOf.modifyGet, StateT.modifyGet]
  · rw [hs]
    simp [writeSlot, readSlot, hlive a (by simp)]

lemma TableRep.mem_erase (ht : TableRep c cached bs) (hnd : cached.Nodup)
    (hi : i < c.table.length.toNat) {o : ℕ} (hb : bs i = b₁ ++ o :: rest) (x : ℕ) :
    x ∈ b₁ ++ rest ↔ x ∈ cached.erase o ∧ c.table.bucketOf (c.data x).hash = i := by
  have hmem := ht.mem i hi x
  have hnodup := (ht.path i hi).nodup
  rw [hb] at hmem hnodup
  have hob : o ∉ b₁ ++ rest := (List.nodup_cons.mp (hnodup.perm List.perm_middle)).1
  rw [hnd.mem_erase_iff, and_assoc, ← hmem]
  constructor
  · intro hx
    refine ⟨?_, ?_⟩
    · rintro rfl
      exact hob hx
    · rcases List.mem_append.mp hx with hx | hx <;> simp [hx]
  · rintro ⟨hne, hx⟩
    simpa [hne] using hx

lemma mem_erase_other (hnd : cached.Nodup) {o x : ℕ}
    (ho : c.table.bucketOf (c.data o).hash = i) (hx : c.table.bucketOf (c.data x).hash ≠ i) :
    x ∈ cached.erase o ↔ x ∈ cached := by
  rw [hnd.mem_erase_iff]
  refine ⟨fun hc => hc.2, fun hc => ⟨?_, hc⟩⟩
  rintro rfl
  exact hx ho

/-! ## Removal -/

/-- **`HandleTable::Remove`** takes the handle with the key and hash out of the table. -/
theorem TableRep.tableRemove (ht : TableRep c cached bs) (hnd : cached.Nodup) (key : KeyType)
    (hash : UInt32) :
    (∃ o c' bs', (LRUCache.tableRemove key hash).run c = some (some o, c') ∧ o ∈ cached ∧
      Matches c key hash o ∧ TableRep c' (cached.erase o) bs' ∧ SameLists c' c ∧
      c'.table.length = c.table.length) ∨
    ((LRUCache.tableRemove key hash).run c = some (none, c) ∧
      ∀ x ∈ cached, ¬Matches c key hash x) := by
  obtain ⟨b₁, rest, hb, hno, hyes, hrun, hread⟩ := ht.findPointer key hash
  have hi := bucketOf_lt ht.pos hash
  have hpath := ht.path _ hi
  rw [hb] at hpath
  cases rest with
  | nil =>
      right
      rw [List.append_nil] at hb
      exact ⟨by simp [LRUCache.tableRemove, hrun, hread], ht.not_matches hb hno⟩
  | cons o rest =>
      left
      have hmo : Matches c key hash o := hyes o rfl
      have ho : o ∈ cached := ((ht.mem _ hi o).mp (by rw [hb]; simp)).1
      have hlo := ht.live o ho
      have hbo : c.table.bucketOf (c.data o).hash = c.table.bucketOf hash := by rw [hmo.1]
      obtain ⟨m, -, -, hm⟩ := seg_append.mp hpath
      have hnodup := hpath.nodup
      have hdis : ∀ x ∈ b₁, x ∉ rest := by
        intro x hx hxr
        exact (List.nodup_append.mp hnodup).2.2 x hx x (List.mem_cons_of_mem o hxr) rfl
      set i := c.table.bucketOf hash with hidef
      set c₁ := c.putSlot (slotAfter (.bucket i) b₁) (c.nextHash o) with hc₁
      have hs : SameLists (c₁.setElems (c₁.table.elems - 1)) c :=
        (putSlot_sameLists c _ _).setElems _
      have hlen := putSlot_length c (slotAfter (.bucket i) b₁) (c.nextHash o)
      refine ⟨o, c₁.setElems (c₁.table.elems - 1), _, ?_, ho, hmo,
        ht.rebucket (b := b₁ ++ rest) hlen.1 hs (putSlot_chain hpath hm hdis)
          (fun j hj => putSlot_list hj) ?_ ?_ ?_ ?_ ?_ ?_, hs, hlen.1⟩
      · simp [LRUCache.tableRemove, hrun, hread, hlo, writeSlot, ← hc₁]
      · intro x _ hx
        exact putSlot_nextHash (ht.not_mem_before hi hb hx)
      · exact ht.mem_erase hnd hi hb
      · exact fun x => mem_erase_other hnd hbo
      · intro h hh
        exact ht.live h (List.mem_of_mem_erase hh)
      · intro h hh
        exact ht.bound h (List.mem_of_mem_erase hh)
      · have hpos : 0 < cached.length := List.length_pos_of_mem ho
        have hel := ht.elems
        have hlt := c.table.elems.toNat_lt
        rw [List.length_erase_of_mem ho, ← ht.elems]
        rw [setElems_elems, hlen.2, UInt32.toNat_sub]
        simp only [UInt32.reduceToNat]
        omega

/-! ## Rehashing -/

/-- The chains after the handles `l` were put in front of theirs, one after the other. -/
def pushAll (idx : ℕ → ℕ) (nb : ℕ → List ℕ) : List ℕ → ℕ → List ℕ
  | [] => nb
  | h :: l => pushAll idx (update nb (idx h) (h :: nb (idx h))) l

lemma mem_pushAll {idx : ℕ → ℕ} {nb : ℕ → List ℕ} {x j : ℕ} :
    x ∈ pushAll idx nb l j ↔ x ∈ nb j ∨ x ∈ l ∧ idx x = j := by
  induction l generalizing nb with
  | nil => simp [pushAll]
  | cons h l ih =>
      rw [pushAll, ih]
      by_cases hj : j = idx h
      · subst hj
        by_cases hx : x = h
        · simp [hx]
        · simp [hx]
      · have hne : x = h → idx x ≠ j := fun hx hi => hj (hx ▸ hi.symm)
        rw [update_of_ne hj, List.mem_cons]
        tauto

/-- The new bucket of a handle. -/
def newBucket (c : LRUCache) (newLength : UInt32) (h : ℕ) : ℕ :=
  ((c.data h).hash &&& (newLength - 1)).toNat

/-- **The inner loop of `Resize`** moves the handles of one old chain to the new ones, which do
not contain them yet, and changes nothing but their links. -/
lemma run_rehashChain (newLength : UInt32) {p : Ptr} {newList : ℕ → Ptr} {nb : ℕ → List ℕ}
    {fuel : ℕ} (hseg : Seg c.nextHash p l none) (hlive : ∀ x ∈ l, c.live x = true)
    (hnew : ∀ j, Seg c.nextHash (newList j) (nb j) none) (hdis : ∀ j, ∀ x ∈ nb j, x ∉ l)
    (hfuel : l.length < fuel) :
    ∃ nx newList', (rehashChain newLength fuel p newList).run c
        = some (newList', { c with nextHash := nx }) ∧
      (∀ j, Seg nx (newList' j) (pushAll (c.newBucket newLength) nb l j) none) ∧
      ∀ x ∉ l, nx x = c.nextHash x := by
  induction l generalizing c p newList nb fuel with
  | nil =>
      obtain rfl : p = none := hseg
      obtain ⟨n, rfl⟩ : ∃ n, fuel = n + 1 := ⟨fuel - 1, by simp at hfuel; omega⟩
      exact ⟨c.nextHash, newList, rfl, hnew, fun x _ => rfl⟩
  | cons a l ih =>
      have hal : a ∉ l := (List.nodup_cons.mp hseg.nodup).1
      obtain ⟨rfl, hrest⟩ := hseg
      obtain ⟨n, rfl⟩ : ∃ n, fuel = n + 1 := ⟨fuel - 1, by simp at hfuel; omega⟩
      have hla := hlive a List.mem_cons_self
      set i := c.newBucket newLength a with hidef
      set nx₁ := update c.nextHash a (newList i) with hnx₁
      have hne : ∀ x, x ≠ a → nx₁ x = c.nextHash x := fun x hx => update_of_ne hx _ _
      have hrest₁ : Seg nx₁ (c.nextHash a) l none := by
        refine hrest.congr fun x hx => hne x ?_
        rintro rfl
        exact hal hx
      -- the chain of the new bucket starts with `a` now, the others are as before
      have hold : ∀ j, Seg nx₁ (newList j) (nb j) none := by
        intro j
        refine (hnew j).congr fun x hx => hne x ?_
        rintro rfl
        exact hdis j x hx List.mem_cons_self
      have hnew₁ : ∀ j, Seg nx₁ (update newList i (some a) j)
          (update nb i (a :: nb i) j) none := by
        intro j
        by_cases hj : j = i
        · subst hj
          rw [update_self, update_self]
          refine ⟨rfl, ?_⟩
          rw [hnx₁, update_self]
          exact hold _
        · rw [update_of_ne hj, update_of_ne hj]
          exact hold j
      have hdis₁ : ∀ j, ∀ x ∈ update nb i (a :: nb i) j, x ∉ l := by
        intro j x hx hxl
        by_cases hj : j = i
        · subst hj
          rw [update_self] at hx
          rcases List.mem_cons.mp hx with rfl | hx
          · exact hal hxl
          · exact hdis _ x hx (List.mem_cons_of_mem a hxl)
        · rw [update_of_ne hj] at hx
          exact hdis j x hx (List.mem_cons_of_mem a hxl)
      have hfuel' : l.length < n := by simpa using hfuel
      have hlive' : ∀ x ∈ l, ({ c with nextHash := nx₁ } : LRUCache).live x = true :=
        fun x hx => hlive x (List.mem_cons_of_mem a hx)
      obtain ⟨nx, newList', hrun, hchains, hframe⟩ := ih hrest₁ hlive' hnew₁ hdis₁ hfuel'
      refine ⟨nx, newList', ?_, hchains, ?_⟩
      · simp only [rehashChain, StateT.run_bind, run_getNextHash hla, run_getData hla,
          run_setNextHash hla, Option.bind_eq_bind, Option.bind_some]
        exact hrun
      · intro x hx
        rw [List.mem_cons, not_or] at hx
        exact (hframe x hx.2).trans (hne x hx.1)

/-- **The outer loop of `Resize`** moves the handles of all old chains. -/
lemma run_rehash (newLength : UInt32) (newList : ℕ → Ptr) (nb : ℕ → List ℕ) {is : List ℕ}
    (hseg : ∀ i ∈ is, Seg c.nextHash (c.table.list i) (bs i) none)
    (hlive : ∀ i ∈ is, ∀ x ∈ bs i, c.live x = true) (hlen : ∀ i ∈ is, (bs i).length ≤ c.fresh)
    (hnew : ∀ j, Seg c.nextHash (newList j) (nb j) none)
    (hdis : ∀ j, ∀ x ∈ nb j, ∀ i ∈ is, x ∉ bs i)
    (hsep : is.Pairwise fun i j => ∀ x ∈ bs i, x ∉ bs j) :
    ∃ (nx newList' : ℕ → Ptr) (nb' : ℕ → List ℕ), (rehash newLength is newList).run c
        = some (newList', { c with nextHash := nx }) ∧
      (∀ j, Seg nx (newList' j) (nb' j) none) ∧
      ∀ j x, x ∈ nb' j ↔ x ∈ nb j ∨ (∃ i ∈ is, x ∈ bs i) ∧ c.newBucket newLength x = j := by
  induction is generalizing c newList nb with
  | nil => exact ⟨c.nextHash, newList, nb, rfl, hnew, by simp⟩
  | cons i is ih =>
      obtain ⟨hi, hsep⟩ := List.pairwise_cons.mp hsep
      obtain ⟨nx₁, newList₁, hrun₁, hnew₁, hframe⟩ :=
        run_rehashChain newLength (hseg i (by simp)) (hlive i (by simp)) hnew
          (fun j x hx => hdis j x hx i (by simp)) (Nat.lt_succ_of_le (hlen i (by simp)))
      have hdis₁ : ∀ j, ∀ x ∈ pushAll (c.newBucket newLength) nb (bs i) j, ∀ k ∈ is,
          x ∉ bs k := by
        intro j x hx k hk
        rcases mem_pushAll.mp hx with hx | ⟨hx, -⟩
        · exact hdis j x hx k (by simp [hk])
        · exact hi k hk x hx
      have hseg₁ : ∀ k ∈ is, Seg nx₁ (c.table.list k) (bs k) none := by
        intro k hk
        refine (hseg k (by simp [hk])).congr fun x hx => hframe x ?_
        intro hxi
        exact hi k hk x hxi hx
      obtain ⟨nx, newList', nb', hrun, hnew', hmem⟩ :=
        ih newList₁ _ (c := { c with nextHash := nx₁ }) hseg₁ (fun k hk => hlive k (by simp [hk]))
          (fun k hk => hlen k (by simp [hk])) hnew₁ hdis₁ hsep
      refine ⟨nx, newList', nb', ?_, hnew', ?_⟩
      · simp only [rehash, StateT.run_bind, StateT.run_get, hrun₁, Option.bind_eq_bind,
          Option.bind_some, Option.pure_def]
        exact hrun
      · intro j x
        rw [hmem, mem_pushAll, or_assoc]
        refine or_congr Iff.rfl ?_
        rw [List.exists_mem_cons_iff, or_and_right]
        rfl

/-- **`Resize`** keeps the handles of the table and makes room for all of them.  It does not
return when there are more than `2 ^ 31`. -/
lemma TableRep.resize (ht : TableRep c cached bs) :
    (∃ c' bs', LRUCache.resize.run c = some ((), c') ∧ TableRep c' cached bs' ∧
      SameLists c' c ∧ c'.table.elems ≤ c'.table.length) ∨
    (LRUCache.resize.run c = none ∧ 2 ^ 31 < cached.length) := by
  rcases growLength_spec c.table.elems with ⟨m, hm, hle, hpos, hsmall⟩ | ⟨hnone, hbig⟩
  · left
    have hsep : (List.range c.table.length.toNat).Pairwise fun i j => ∀ x ∈ bs i, x ∉ bs j := by
      refine List.nodup_range.pairwise_of_forall_ne ?_
      intro i hi j hj hij x hx hx'
      have h₁ := ((ht.mem i (List.mem_range.mp hi) x).mp hx).2
      have h₂ := ((ht.mem j (List.mem_range.mp hj) x).mp hx').2
      exact hij (h₁.symm.trans h₂)
    obtain ⟨nx, newList, nb, hrun, hnew, hmem⟩ := run_rehash m (fun _ => none) (fun _ => [])
      (fun i hi => ht.path i (List.mem_range.mp hi))
      (fun i hi x hx => ht.live x ((ht.mem i (List.mem_range.mp hi) x).mp hx).1)
      (fun i hi => ht.length_le (List.mem_range.mp hi)) (fun _ => rfl) (by simp) hsep
    refine ⟨{ c with nextHash := nx,
                     table := { c.table with list := newList, length := m } }, nb, ?_,
      ⟨hpos, hsmall, fun j _ => hnew j, ?_, ht.live, ht.bound, ht.elems⟩,
      rfl, hle⟩
    · simp [LRUCache.resize, hm, hrun]
    · intro j _ x
      rw [hmem]
      have hall : (∃ i ∈ List.range c.table.length.toNat, x ∈ bs i) ↔ x ∈ cached := by
        constructor
        · rintro ⟨i, hi, hx⟩
          exact ((ht.mem i (List.mem_range.mp hi) x).mp hx).1
        · intro hx
          have hi := bucketOf_lt ht.pos (c.data x).hash
          exact ⟨_, List.mem_range.mpr hi, (ht.mem _ hi x).mpr ⟨hx, rfl⟩⟩
      rw [hall, or_iff_right (by simp)]
      rfl
  · right
    rw [← ht.elems]
    exact ⟨by simp [LRUCache.resize, hnone], hbig⟩

/-! ## Insertion -/

/-- The memory after `Insert` has assigned to the place it found. -/
def linked (c : LRUCache) (h i : ℕ) (b₁ : List ℕ) (q : Ptr) : LRUCache :=
  ({ c with nextHash := update c.nextHash h q } : LRUCache).putSlot
    (slotAfter (.bucket i) b₁) (some h)

lemma linked_sameLists (c : LRUCache) (h i : ℕ) (b₁ : List ℕ) (q : Ptr) :
    SameLists (c.linked h i b₁ q) c :=
  (putSlot_sameLists { c with nextHash := update c.nextHash h q } _ _).trans rfl

lemma linked_length (c : LRUCache) (h i : ℕ) (b₁ : List ℕ) (q : Ptr) :
    (c.linked h i b₁ q).table.length = c.table.length ∧
      (c.linked h i b₁ q).table.elems = c.table.elems :=
  putSlot_length ..

/-- The chain into which `Insert` puts a handle: it follows the handles `b₁` that were passed, and
`rest` follows it. -/
lemma TableRep.linked {h : ℕ} {rest' cached' : List ℕ} {e : UInt32} (ht : TableRep c cached bs)
    (hh : h ∉ cached) (hlive : c.live h = true) (hbound : h < c.fresh)
    (hi : i < c.table.length.toNat) (hbh : c.table.bucketOf (c.data h).hash = i)
    (hb : bs i = b₁ ++ rest) (hq : Seg c.nextHash q rest' none) (hsub : rest' ⊆ rest)
    (hmem : ∀ x, x ∈ b₁ ++ rest' ↔ x ∈ cached' ∧ c.table.bucketOf (c.data x).hash = i)
    (hother : ∀ x, c.table.bucketOf (c.data x).hash ≠ i → (x ∈ cached' ↔ x ∈ cached))
    (hcached : cached' ⊆ cached) (he : e.toNat = cached'.length + 1) :
    TableRep ((c.linked h i b₁ q).setElems e) (h :: cached')
      (update bs i (b₁ ++ h :: rest')) := by
  have hmemb : ∀ x, x ∈ b₁ ++ rest → x ∈ cached := by
    intro x hx
    rw [← hb] at hx
    exact ((ht.mem i hi x).mp hx).1
  have ht₁ := ht.setNextHash hh q
  have hpath := ht₁.path i hi
  rw [hb] at hpath
  have hrest : Seg (update c.nextHash h q) (some h) (h :: rest') none := by
    refine ⟨rfl, ?_⟩
    rw [update_self]
    refine hq.congr fun x hx => update_of_ne ?_ _ _
    rintro rfl
    exact hh (hmemb x (List.mem_append_right b₁ (hsub hx)))
  have hdis : ∀ x ∈ b₁, x ∉ h :: rest' := by
    intro x hx hx'
    rcases List.mem_cons.mp hx' with rfl | hx'
    · exact hh (hmemb x (List.mem_append_left rest hx))
    · exact (List.nodup_append.mp hpath.nodup).2.2 x hx x (hsub hx') rfl
  refine ht₁.rebucket (linked_length c h i b₁ q).1 ((putSlot_sameLists _ _ _).setElems e)
    (putSlot_chain hpath hrest hdis) (fun j hj => putSlot_list hj)
    ?_ ?_ ?_ ?_ ?_ he
  · intro x _ hx
    exact putSlot_nextHash (ht.not_mem_before hi hb hx)
  · intro x
    by_cases hxh : x = h
    · simp [hxh, hbh]
    · simpa [hxh] using hmem x
  · intro x hx
    rw [List.mem_cons]
    refine (or_iff_right ?_).trans (hother x hx)
    rintro rfl
    exact hx hbh
  · intro x hx
    rcases List.mem_cons.mp hx with rfl | hx
    · exact hlive
    · exact ht.live x (hcached hx)
  · intro x hx
    rcases List.mem_cons.mp hx with rfl | hx
    · exact hbound
    · exact ht.bound x (hcached hx)

/-- `HandleTable::Insert` of a key that is not there: the handle goes to the end of its chain, and
the array grows if there are more handles than buckets now. -/
lemma run_tableInsert_new {h : ℕ} {slot : HandleSlot} {c₁ : LRUCache} (hlive : c.live h = true)
    (hrun : (findPointer (c.data h).pageId (c.data h).hash).run c = some (slot, c))
    (hread : (readSlot slot).run c = some (none, c))
    (hwrite : (writeSlot slot (some h)).run { c with nextHash := update c.nextHash h none }
      = some ((), c₁)) :
    (LRUCache.tableInsert h).run c =
      if c₁.table.length < c₁.table.elems + 1 then
        (resize.run (c₁.setElems (c₁.table.elems + 1))).map fun r => (none, r.2)
      else some (none, c₁.setElems (c₁.table.elems + 1)) := by
  split_ifs with hgrow <;> simp [LRUCache.tableInsert, hlive, hrun, hread, hwrite, hgrow]

/-- **`HandleTable::Insert`** puts the handle in the place of the one with its key and hash, if
there is one, and returns that one.  Otherwise the number of handles grows, and with it possibly
the array; only there the function may fail to return. -/
theorem TableRep.tableInsert {h : ℕ} (ht : TableRep c cached bs) (hnd : cached.Nodup)
    (hload : c.table.elems ≤ c.table.length) (hh : h ∉ cached) (hlive : c.live h = true)
    (hbound : h < c.fresh) :
    (∃ r c' bs', (LRUCache.tableInsert h).run c = some (r, c') ∧ SameLists c' c ∧
      c'.table.elems ≤ c'.table.length ∧
      ((r = none ∧ (∀ x ∈ cached, ¬Matches c (c.data h).pageId (c.data h).hash x) ∧
          TableRep c' (h :: cached) bs') ∨
        ∃ o, r = some o ∧ o ∈ cached ∧ Matches c (c.data h).pageId (c.data h).hash o ∧
          TableRep c' (h :: cached.erase o) bs')) ∨
    ((LRUCache.tableInsert h).run c = none ∧ 2 ^ 31 ≤ cached.length ∧
      ∀ x ∈ cached, ¬Matches c (c.data h).pageId (c.data h).hash x) := by
  obtain ⟨b₁, rest, hb, hno, hyes, hrun, hread⟩ :=
    ht.findPointer (c.data h).pageId (c.data h).hash
  have hi := bucketOf_lt ht.pos (c.data h).hash
  have hpath := ht.path _ hi
  rw [hb] at hpath
  have hlive₁ : ∀ x ∈ b₁, c.live x = true := by
    intro x hx
    have : x ∈ bs (c.table.bucketOf (c.data h).hash) := by simp [hb, hx]
    exact ht.live x ((ht.mem _ hi x).mp this).1
  have hwrite : ∀ q, (writeSlot (slotAfter (.bucket (c.table.bucketOf (c.data h).hash)) b₁)
      (some h)).run { c with nextHash := update c.nextHash h q }
      = some ((), c.linked h (c.table.bucketOf (c.data h).hash) b₁ q) :=
    fun q => run_writeSlot_after
      (c := { c with nextHash := update c.nextHash h q }) hi hlive₁ (some h)
  set i := c.table.bucketOf (c.data h).hash with hidef
  cases rest with
  | nil =>
      rw [List.append_nil] at hb
      have hnone := ht.not_matches hb hno
      have hs := linked_sameLists c h i b₁ none
      have hlen := linked_length c h i b₁ none
      set c₁ := c.linked h i b₁ none with hc₁
      have hel : (c₁.table.elems + 1).toNat = cached.length + 1 := by
        have hle := UInt32.le_iff_toNat_le.mp hload
        have hsmall := ht.small
        have := ht.elems
        rw [hlen.2, UInt32.toNat_add]
        simp only [UInt32.reduceToNat]
        omega
      set c₂ := c₁.setElems (c₁.table.elems + 1) with hc₂
      have ht₂ : TableRep c₂ (h :: cached) (update bs i (b₁ ++ [h])) := by
        refine ht.linked hh hlive hbound hi rfl (hb.trans (List.append_nil b₁).symm) rfl
          (List.Subset.refl []) ?_ (fun x _ => Iff.rfl) (List.Subset.refl cached) hel
        intro x
        rw [List.append_nil, ← hb]
        exact ht.mem i hi x
      have hs₂ : SameLists c₂ c := hs.setElems _
      have hrun₂ := run_tableInsert_new hlive hrun hread (hwrite none)
      by_cases hgrow : c₁.table.length < c₁.table.elems + 1
      · rw [if_pos hgrow] at hrun₂
        rcases ht₂.resize with ⟨c', bs', hres, ht', hs', hload'⟩ | ⟨hres, hbig⟩
        · left
          refine ⟨none, c', bs', ?_, hs'.trans hs₂, hload', .inl ⟨rfl, hnone, ht'⟩⟩
          rw [hrun₂, hres]
          rfl
        · right
          refine ⟨?_, Nat.le_of_lt_succ hbig, hnone⟩
          rw [hrun₂, hres]
          rfl
      · rw [if_neg hgrow] at hrun₂
        exact .inl ⟨none, c₂, _, hrun₂, hs₂, UInt32.not_lt.mp hgrow, .inl ⟨rfl, hnone, ht₂⟩⟩
  | cons o rest =>
      left
      have hmo := hyes o rfl
      have ho : o ∈ cached := ((ht.mem i hi o).mp (by rw [hb]; simp)).1
      have hlo := ht.live o ho
      obtain ⟨m, -, -, hm⟩ := seg_append.mp hpath
      have hlen := linked_length c h i b₁ (c.nextHash o)
      have hel : c.table.elems.toNat = (cached.erase o).length + 1 := by
        have := List.length_pos_of_mem ho
        rw [List.length_erase_of_mem ho, ht.elems]
        omega
      rw [← hlen.2] at hel
      refine ⟨some o, c.linked h i b₁ (c.nextHash o), _, ?_, linked_sameLists .., ?_,
        .inr ⟨o, rfl, ho, hmo, ht.linked hh hlive hbound hi rfl hb hm
          (List.subset_cons_self o rest) ?_ ?_ List.erase_subset hel⟩⟩
      · simp [LRUCache.tableInsert, hlive, hrun, hread, hwrite, hlo]
      · rw [hlen.1, hlen.2]
        exact hload
      · exact ht.mem_erase hnd hi hb
      · exact fun x => mem_erase_other hnd (by rw [hmo.1])

end LRUCache

end GroundDB
