import GroundDB.LogIndex.Record

/-!
# Indexing a record and listing its pages

Two routines exist for every resource manager.  `…_idx_save` inserts the pages of a record into the
page-version index, one `ParseXLogBlocksLsn` per block id; a block id that is not in use is skipped.
`…_idx_get_bufftag_list` allocates an array of buffer tags for its caller, reads the tag of one
block after the other into local variables and stores it in the array.

The array is returned through `BufferTag **buffertagList`, and the stores are written in two ways.
`(*buffertagList)[k]` is element `k` of the array.  `*buffertagList[k]` is what the pointer `k`
words behind the caller's variable points to: the first element of the array for `k = 0`, and no
memory of the routine's for any other `k`.
-/

namespace GroundDB

variable {D : Type}

/-- How a `…_idx_…` routine ends: `elog(PANIC)`, with the return value `false`, or with `true`. -/
inductive IdxResult (α : Type)
  | panic
  | skipped
  | handled (a : α)
deriving Repr

/-- A routine that panics or returns `true`. -/
def IdxResult.ofOption {α : Type} : Option α → IdxResult α
  | none => .panic
  | some a => .handled a

@[simp] lemma IdxResult.ofOption_none {α : Type} : IdxResult.ofOption (none : Option α) = .panic :=
  rfl

@[simp] lemma IdxResult.ofOption_some {α : Type} (a : α) :
    IdxResult.ofOption (some a) = .handled a := rfl

/-- The ids of `ids`, if the condition of the branch that handles them holds. -/
def onlyIf (c : Bool) (ids : List ℕ) : List ℕ := if c then ids else []

@[simp] lemma onlyIf_true (ids : List ℕ) : onlyIf true ids = ids := rfl

@[simp] lemma onlyIf_false (ids : List ℕ) : onlyIf false ids = [] := rfl

/-- The pages `ParseXLogBlocksLsn` inserts when it is called for `ids`. -/
def XLogRecord.savedTags (record : XLogRecord D) (ids : List ℕ) : List BufferTag :=
  ids.filterMap record.blockTag?

/-! ## The array -/

/-- The two ways in which the stores are written. -/
inductive Lvalue
  | element
  | pointer
deriving DecidableEq, Repr

/-- The store with index `k` hits an array of `n` elements. -/
def Lvalue.Inside (n k : ℕ) : Lvalue → Prop
  | .element => k < n
  | .pointer => k = 0 ∧ 0 < n

instance (n k : ℕ) (lv : Lvalue) : Decidable (lv.Inside n k) := by
  cases lv <;> unfold Lvalue.Inside <;> infer_instance

lemma Lvalue.pointer_inside {n : ℕ} (hn : 0 < n) : Lvalue.pointer.Inside n 0 := ⟨rfl, hn⟩

/-- The array and the local variables of a list routine. -/
structure TagArray where
  /-- the number of elements allocated -/
  allocated : ℕ
  /-- the elements stored, `none` where no defined value was stored -/
  elements : ℕ → Option BufferTag
  /-- the indices of the stores that missed the array -/
  strays : List ℕ
  /-- `tagCount` -/
  tagCount : ℕ
  /-- `rnode`, `forkNumber` and `blockNumber`, `none` while they are uninitialised -/
  locals : Option BufferTag

/-- `malloc(sizeof(BufferTag) * n)`. -/
def TagArray.malloc (n : ℕ) : TagArray := ⟨n, fun _ => none, [], 0, none⟩

@[simp] lemma malloc_allocated (n : ℕ) : (TagArray.malloc n).allocated = n := rfl

@[simp] lemma malloc_tagCount (n : ℕ) : (TagArray.malloc n).tagCount = 0 := rfl

/-- `XLogRecGetBlockTag` for block `id`, which leaves the variables alone if the block is not in
use, then `INIT_BUFFERTAG` and `tagCount++`. -/
def TagArray.store (record : XLogRecord D) (lv : Lvalue) (a : TagArray) (id : ℕ) : TagArray :=
  let tag := (record.blockTag? id).or a.locals
  if lv.Inside a.allocated a.tagCount then
    { a with
      elements := Function.update a.elements a.tagCount tag
      tagCount := a.tagCount + 1
      locals := tag }
  else
    { a with strays := a.strays ++ [a.tagCount], tagCount := a.tagCount + 1, locals := tag }

/-- What a list routine leaves its caller: the array, and `*tagNum` if it was set. -/
structure TagList where
  array : TagArray
  tagNum : Option ℕ

/-- A list routine: `n` elements are allocated, the tags of `ids` are stored in turn, and `*tagNum`
is set to their number. -/
def getBufftagList (n : ℕ) (lv : Lvalue) (ids : List ℕ) (record : XLogRecord D) : TagList :=
  let array := ids.foldl (TagArray.store record lv) (TagArray.malloc n)
  ⟨array, some array.tagCount⟩

/-- A list routine that returns without doing anything. -/
def noBufftagList : TagList := ⟨TagArray.malloc 0, none⟩

/-- The routine sets `*tagNum` and stores in the array only, and the tags in positions
`0 .. tagNum - 1` are those of `tags`. -/
structure TagList.Lists (list : TagList) (tags : List BufferTag) : Prop where
  inside : list.array.strays = []
  counted : ∃ n, list.tagNum = some n ∧ (∀ k < n, (list.array.elements k).isSome)
    ∧ ∀ tag, tag ∈ tags ↔ ∃ k < n, list.array.elements k = some tag

/-- The list routine of a record agrees with its save routine. -/
structure ListMatches (record : XLogRecord D) (saved : IdxResult (List ℕ))
    (listed : IdxResult TagList) : Prop where
  handled : (∃ list, listed = .handled list) ↔ ∃ ids, saved = .handled ids
  tags : ∀ ids list, saved = .handled ids → listed = .handled list →
    list.Lists (record.savedTags ids)

/-! ## What a list routine stores -/

section Stores

variable {record : XLogRecord D} {lv : Lvalue} {n : ℕ} {ids : List ℕ} {tags : List BufferTag}

@[simp] lemma store_allocated (a : TagArray) (id : ℕ) :
    (a.store record lv id).allocated = a.allocated := by
  unfold TagArray.store
  split <;> rfl

@[simp] lemma store_tagCount (a : TagArray) (id : ℕ) :
    (a.store record lv id).tagCount = a.tagCount + 1 := by
  unfold TagArray.store
  split <;> rfl

@[simp] lemma foldl_allocated (ids : List ℕ) (a : TagArray) :
    (ids.foldl (TagArray.store record lv) a).allocated = a.allocated := by
  induction ids generalizing a with
  | nil => rfl
  | cons id ids ih => rw [List.foldl_cons, ih, store_allocated]

@[simp] lemma foldl_tagCount (ids : List ℕ) (a : TagArray) :
    (ids.foldl (TagArray.store record lv) a).tagCount = a.tagCount + ids.length := by
  induction ids generalizing a with
  | nil => rfl
  | cons id ids ih =>
      rw [List.foldl_cons, ih, store_tagCount, List.length_cons]
      omega

lemma strays_foldl_subset (ids : List ℕ) (a : TagArray) :
    a.strays ⊆ (ids.foldl (TagArray.store record lv) a).strays := by
  induction ids generalizing a with
  | nil => exact List.Subset.refl _
  | cons id ids ih =>
      refine List.Subset.trans ?_ (ih _)
      unfold TagArray.store
      split
      · exact List.Subset.refl _
      · exact List.subset_append_left _ _

/-- The store with index `k` misses the array. -/
lemma strays_ne_nil {k : ℕ} (hk : k < ids.length) (hout : ¬ lv.Inside n k) :
    (getBufftagList n lv ids record).array.strays ≠ [] := by
  have hids : ids = ids.take k ++ ids[k] :: ids.drop (k + 1) := by simp
  have hstray : k ∈ ((ids.take k ++ ids[k] :: ids.drop (k + 1)).foldl (TagArray.store record lv)
      (TagArray.malloc n)).strays := by
    rw [List.foldl_append, List.foldl_cons]
    apply strays_foldl_subset
    -- the first `k` stores left `tagCount = k`
    rw [TagArray.store, if_neg]
    · simp [Nat.min_eq_left hk.le]
    · simpa [Nat.min_eq_left hk.le] using hout
  rw [← hids] at hstray
  intro hnil
  rw [getBufftagList] at hnil
  rw [hnil] at hstray
  cases hstray

lemma not_lists_of_two (hlen : 2 ≤ ids.length) :
    ¬ (getBufftagList n .pointer ids record).Lists tags := by
  intro h
  exact strays_ne_nil (k := 1) hlen (by simp [Lvalue.Inside]) h.inside

/-- Stores inside the array, of blocks the record has, are the tags in order. -/
lemma foldl_store_present (hin : ∀ k < ids.length, lv.Inside n k)
    (hpresent : ∀ id ∈ ids, record.hasBlockRef id) :
    (ids.foldl (TagArray.store record lv) (TagArray.malloc n)).strays = [] ∧
    ∀ k, (ids.foldl (TagArray.store record lv) (TagArray.malloc n)).elements k =
      ids[k]?.bind record.blockTag? := by
  induction ids using List.reverseRecOn with
  | nil => exact ⟨rfl, fun k => rfl⟩
  | append_singleton ids id ih =>
      obtain ⟨hstrays, helements⟩ := ih (fun k hk => hin k (by simp; omega))
        (fun i hi => hpresent i (by simp [hi]))
      have hlast : lv.Inside n ids.length := hin _ (by simp)
      have hid : (record.blockTag? id).isSome := by
        rw [← XLogRecord.hasBlockRef_eq]
        exact hpresent id (by simp)
      obtain ⟨tag, htag⟩ := Option.isSome_iff_exists.mp hid
      rw [List.foldl_append, List.foldl_cons, List.foldl_nil, TagArray.store,
        if_pos (by simpa using hlast)]
      refine ⟨hstrays, fun k => ?_⟩
      rcases lt_trichotomy k ids.length with hk | rfl | hk
      · have hne : k ≠ ids.length := hk.ne
        simp [helements, hne, List.getElem?_append_left hk]
      · simp [htag]
      · have hne : k ≠ ids.length := hk.ne'
        have hout : (ids ++ [id])[k]? = none := List.getElem?_eq_none (by simp; omega)
        simp [helements, hne, hout, List.getElem?_eq_none hk.le]

/-- A routine whose stores are inside the array lists the blocks it reads if the record has them. -/
lemma lists_of_present (hin : ∀ k < ids.length, lv.Inside n k)
    (hpresent : ∀ id ∈ ids, record.hasBlockRef id) :
    (getBufftagList n lv ids record).Lists (record.savedTags ids) := by
  obtain ⟨hstrays, helements⟩ := foldl_store_present hin hpresent
  refine ⟨hstrays, ids.length, by simp [getBufftagList], ?_, ?_⟩
  · intro k hk
    have hid := hpresent ids[k] (List.getElem_mem hk)
    rw [XLogRecord.hasBlockRef_eq] at hid
    simpa [getBufftagList, helements, hk] using hid
  · intro tag
    simp only [getBufftagList, helements, XLogRecord.savedTags, List.mem_filterMap]
    constructor
    · rintro ⟨id, hid, htag⟩
      obtain ⟨k, hk, rfl⟩ := List.mem_iff_getElem.mp hid
      exact ⟨k, hk, by simpa [hk] using htag⟩
    · rintro ⟨k, hk, htag⟩
      exact ⟨ids[k], List.getElem_mem hk, by simpa [hk] using htag⟩

lemma lists_single (hin : lv.Inside n 0) (id : ℕ) :
    (getBufftagList n lv [id] record).Lists (record.savedTags [id]) ↔ record.hasBlockRef id := by
  constructor
  · rintro ⟨-, k, hk, hsome, -⟩
    have hnum : (getBufftagList n lv [id] record).tagNum = some 1 := by
      simp [getBufftagList]
    rw [hnum] at hk
    obtain rfl := Option.some.inj hk
    rw [XLogRecord.hasBlockRef_eq]
    simpa [getBufftagList, TagArray.store, TagArray.malloc, hin] using hsome 0 one_pos
  · intro hpresent
    refine lists_of_present (fun k hk => ?_) (by simpa using hpresent)
    obtain rfl : k = 0 := by simpa using hk
    exact hin

lemma lists_nil : (getBufftagList n lv [] record).Lists (record.savedTags []) :=
  ⟨rfl, 0, rfl, fun k hk => absurd hk (Nat.not_lt_zero k), by simp [XLogRecord.savedTags]⟩

lemma not_lists_noBufftagList : ¬ noBufftagList.Lists tags := by
  rintro ⟨-, k, hk, -⟩
  cases hk

@[simp] lemma listMatches_handled {list : TagList} :
    ListMatches record (.handled ids) (.handled list) ↔ list.Lists (record.savedTags ids) := by
  constructor
  · intro h
    exact h.tags ids list rfl rfl
  · intro h
    refine ⟨⟨fun _ => ⟨ids, rfl⟩, fun _ => ⟨list, rfl⟩⟩, ?_⟩
    rintro _ _ ⟨⟩ ⟨⟩
    exact h

lemma listMatches_one (hn : 0 < n) {id : ℕ} :
    ListMatches record (.handled [id]) (.handled (getBufftagList n .pointer [id] record)) ↔
      record.hasBlockRef id :=
  listMatches_handled.trans (lists_single (Lvalue.pointer_inside hn) id)

@[simp] lemma listMatches_panic : ListMatches record .panic .panic :=
  ⟨by simp, by simp⟩

@[simp] lemma listMatches_skipped : ListMatches record .skipped .skipped :=
  ⟨by simp, by simp⟩

end Stores

end GroundDB
