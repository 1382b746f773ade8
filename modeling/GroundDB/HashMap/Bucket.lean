import GroundDB.HashMap.VersionList

/-!
# The bucket chains

Head nodes that fall into the same bucket form a chain along `nextHead`.  A lookup walks it; an
insertion or a replay-list lookup that finds its key relinks the head to the front, unless
`prevHead` says that it is there already.

That relinking leaves the `prevHead` of the former first head alone, so `prevHead` may be null in
the middle of a chain.  What remains true, and is enough for lookups and for the next relinking,
is that `prevHead` is null or the actual predecessor (`HeadBack`).

`MapShape` is the invariant of the whole map.  It names the chains of the buckets, so that their
order can be spoken about, and leaves open what is asked of a version list; with the invariant of
version lists and the chains left out it is `MapInv`.  What a page's list looks like from outside is
`pageList`, and the operations on buckets are specified by what they do to it.
-/

namespace GroundDB

open PtrHeap Function

/-! ## The operations -/

/-- The search along `nextHead`. -/
def findHead (heads : Heap HashNodeHead) (hashValue : UInt32) (key : KeyType) :
    ℕ → Ptr → Option Ptr
  | _, none => some none
  | 0, some _ => none
  | fuel + 1, some iter => do
      let head ← heads.read iter
      if head.hashValue = hashValue ∧ keyMatch head.key key then some (some iter)
      else findHead heads hashValue key fuel head.nextHead

/-- The head of a key, if it has one. -/
def HashMap.find (m : HashMap) (key : KeyType) : Option Ptr :=
  findHead m.heads (hashKey key) key m.heads.fresh (m.nodeList (m.bucketPos key))

/-- `p->prevHead = prev`, for a pointer that may be null. -/
def setPrevHead (heads : Heap HashNodeHead) (p prev : Ptr) : Option (Heap HashNodeHead) :=
  match p with
  | none => some heads
  | some a => do
      let head ← heads.read a
      heads.write a { head with prevHead := prev }

/-- Move a head to the first position of its bucket. -/
def HashMap.moveToFront (m : HashMap) (iter : ℕ) : Option HashMap := do
  let head ← m.heads.read iter
  match head.prevHead with
  | none => some m
  | some prevAddr => do
      let prev ← m.heads.read prevAddr
      let heads ← m.heads.write prevAddr { prev with nextHead := head.nextHead }
      let heads ← setPrevHead heads head.nextHead head.prevHead
      let head ← heads.read iter
      let heads ← heads.write iter
        { head with prevHead := none, nextHead := m.nodeList head.bucket }
      some { m with heads := heads, nodeList := update m.nodeList head.bucket (some iter) }

/-- The head `HashMapInsertKey` creates for a new key.  With the empty first slot the page numbers
of the two entries are left uninitialised. -/
def newHead (key : KeyType) (bucket lsn : ℕ) (pageNum : ℤ) (noEmptyFirstSlot : Bool)
    (nextHead : Ptr) : HashNodeHead :=
  { key := key, hashValue := hashKey key, bucket := bucket
    lsnEntry :=
      if key.blkNum ≠ -1 ∧ noEmptyFirstSlot = false then
        ⟨[⟨0, none⟩, ⟨lsn, none⟩], by simp [hashHeadNum]⟩
      else ⟨[⟨lsn, some pageNum⟩], by simp [hashHeadNum]⟩
    maxLsn := lsn, replayedLsn := 0, nextHead := nextHead, prevHead := none
    nextEle := none, tailEle := none }

/-- Link a new head in at the first position of its bucket. -/
def HashMap.createHead (m : HashMap) (key : KeyType) (lsn : ℕ) (pageNum : ℤ)
    (noEmptyFirstSlot : Bool) : Option HashMap := do
  let bucket := m.bucketPos key
  let (heads, head) := m.heads.alloc
    (newHead key bucket lsn pageNum noEmptyFirstSlot (m.nodeList bucket))
  let heads ← setPrevHead heads (m.nodeList bucket) (some head)
  some { m with heads := heads, nodeList := update m.nodeList bucket (some head) }

/-! ## The invariant -/

/-- A head without its links to other heads. -/
def HashNodeHead.core (head : HashNodeHead) : HashNodeHead :=
  { head with nextHead := none, prevHead := none }

/-- The back link of a head: null, or the actual predecessor. -/
def HeadBack (pr : Ptr) (head : HashNodeHead) : Prop :=
  head.prevHead = none ∨ head.prevHead = pr

/-- Following `nextHead` from the start of a bucket one meets its heads. -/
def HeadChain (heads : Heap HashNodeHead) (p : Ptr) (l : HeadNodes) : Prop :=
  ∃ tl, Chain HashNodeHead.nextHead HeadBack heads none p l tl none

/-- Every bucket's chain goes exactly through the heads of that bucket. -/
structure BucketInv (nodeList : ℕ → Ptr) (heads : Heap HashNodeHead)
    (buckets : ℕ → HeadNodes) : Prop where
  chains : ∀ i, HeadChain heads (nodeList i) (buckets i)
  members : ∀ i a head, heads.read a = some head →
    (a ∈ (buckets i).map Prod.fst ↔ head.bucket = i)

/-- The invariant of the map: `buckets i` is the chain of bucket `i` and `chainOf a` are the element
nodes of the head at `a`, of which `P` is asked. -/
structure MapShape (P : Heap HashNodeEle → HashNodeHead → EleNodes → Prop)
    (m : HashMap) (buckets : ℕ → HeadNodes) (chainOf : ℕ → EleNodes) :
    Prop where
  bucket : BucketInv m.nodeList m.heads buckets
  placed : ∀ a head, m.heads.read a = some head →
    head.hashValue = hashKey head.key ∧ head.bucket = m.bucketPos head.key
  /-- No two heads have the same key. -/
  key_unique : ∀ a₁ a₂ head₁ head₂, m.heads.read a₁ = some head₁ → m.heads.read a₂ = some head₂ →
    head₁.key = head₂.key → a₁ = a₂
  lists : ∀ a head, m.heads.read a = some head → P m.eles head (chainOf a)
  /-- No element node belongs to two lists. -/
  disjoint : ∀ a₁ a₂ head₁ head₂, m.heads.read a₁ = some head₁ → m.heads.read a₂ = some head₂ →
    a₁ ≠ a₂ → List.Disjoint ((chainOf a₁).map Prod.fst) ((chainOf a₂).map Prod.fst)

/-- The invariant with well-formed version lists, whatever the order of the heads. -/
def MapInv (m : HashMap) (chainOf : ℕ → EleNodes) : Prop :=
  ∃ buckets, MapShape VersionListInv m buckets chainOf

lemma MapInv.list {m : HashMap} {chainOf : ℕ → EleNodes} (h : MapInv m chainOf)
    {a : ℕ} {head : HashNodeHead} (hr : m.heads.read a = some head) :
    VersionListInv m.eles head (chainOf a) := by
  obtain ⟨buckets, hs⟩ := h
  exact hs.lists a head hr

/-- A property of version lists that depends on the list's own nodes, and not on the links between
heads. -/
structure ListProp (P : Heap HashNodeEle → HashNodeHead → EleNodes → Prop) :
    Prop where
  core : ∀ {eles head head' chain}, P eles head chain → head'.core = head.core →
    P eles head' chain
  frame : ∀ {eles eles' head chain}, P eles head chain →
    (∀ a ∈ chain.map Prod.fst, eles'.read a = eles.read a) → P eles' head chain
  lt_fresh : ∀ {eles head chain}, P eles head chain → ∀ a ∈ chain.map Prod.fst, a < eles.fresh

/-- The version list of a key, seen from outside: its head, links to other heads left out, and its
element nodes. -/
def pageList (m : HashMap) (chainOf : ℕ → EleNodes) (key : KeyType) :
    Option (HashNodeHead × EleNodes) := do
  let p ← m.find key
  let a ← p
  let head ← m.heads.read a
  some (head.core, chainOf a)

lemma mapShape_init (P : Heap HashNodeEle → HashNodeHead → EleNodes → Prop) (n : ℕ)
    (hn : 0 < n) (chainOf : ℕ → EleNodes) :
    MapShape P (hashMapInit n hn) (fun _ => []) chainOf where
  bucket := ⟨fun _ => ⟨none, rfl, rfl⟩, fun _ _ _ h => by cases h⟩
  placed _ _ h := by cases h
  key_unique _ _ _ _ h := by cases h
  lists _ _ h := by cases h
  disjoint _ _ _ _ h := by cases h

lemma mapInv_init (n : ℕ) (hn : 0 < n) (chainOf : ℕ → EleNodes) :
    MapInv (hashMapInit n hn) chainOf :=
  ⟨_, mapShape_init _ n hn chainOf⟩

/-! ## Heads up to links -/

/-- From `heads` to `heads'` only links between heads changed. -/
def SameCores (heads heads' : Heap HashNodeHead) : Prop :=
  ∀ a, (heads'.read a).map HashNodeHead.core = (heads.read a).map HashNodeHead.core

lemma SameCores.trans {h₁ h₂ h₃ : Heap HashNodeHead} (h : SameCores h₁ h₂)
    (h' : SameCores h₂ h₃) : SameCores h₁ h₃ := fun a => (h' a).trans (h a)

lemma SameCores.symm {h₁ h₂ : Heap HashNodeHead} (h : SameCores h₁ h₂) : SameCores h₂ h₁ :=
  fun a => (h a).symm

lemma SameCores.read {heads heads' : Heap HashNodeHead} (h : SameCores heads heads') {a : ℕ}
    {head' : HashNodeHead} (hr : heads'.read a = some head') :
    ∃ head, heads.read a = some head ∧ head'.core = head.core := by
  have := h a
  rw [hr, Option.map_some] at this
  obtain ⟨head, hhead, heq⟩ := Option.map_eq_some_iff.mp this.symm
  exact ⟨head, hhead, heq.symm⟩

lemma core_fields {head head' : HashNodeHead} (h : head'.core = head.core) :
    head' = { head with nextHead := head'.nextHead, prevHead := head'.prevHead } := by
  cases head
  cases head'
  simp only [HashNodeHead.core, HashNodeHead.mk.injEq] at h ⊢
  tauto

lemma SameCores.of_write {heads heads' : Heap HashNodeHead} {a : ℕ} {head head' : HashNodeHead}
    (hr : heads.read a = some head)
    (hread : ∀ x, heads'.read x = if x = a then some head' else heads.read x)
    (hcore : head'.core = head.core) : SameCores heads heads' := by
  intro x
  rw [hread]
  split_ifs with hx
  · rw [hx, hr, Option.map_some, Option.map_some, hcore]
  · rfl

lemma VersionListInv.of_core {eles : Heap HashNodeEle} {head head' : HashNodeHead}
    {chain : EleNodes} (hinv : VersionListInv eles head chain)
    (h : head'.core = head.core) : VersionListInv eles head' chain := by
  rw [core_fields h]
  exact ⟨hinv.links, hinv.increasing, hinv.head_nonempty, hinv.head_full, hinv.ele_full,
    hinv.ele_max, hinv.head_max, hinv.replayed_le⟩

lemma versionListInv_listProp : ListProp VersionListInv :=
  ⟨fun h hcore => h.of_core hcore, fun h hf => h.frame hf, fun h _ ha => Chain.lt_fresh h.links ha⟩

/-! ## Lookup -/

section Find

variable {m m' : HashMap} {chainOf : ℕ → EleNodes} {key : KeyType}
  {P : Heap HashNodeEle → HashNodeHead → EleNodes → Prop}
  {buckets : ℕ → HeadNodes}

/-- The search returns the first matching head of the chain. -/
lemma findHead_eq {heads : Heap HashNodeHead} {ok : Ptr → HashNodeHead → Prop} {pr p tl : Ptr}
    {l : HeadNodes} {fuel : ℕ} {hashValue : UInt32}
    (hc : Chain HashNodeHead.nextHead ok heads pr p l tl none) (hfuel : l.length ≤ fuel) :
    findHead heads hashValue key fuel p =
      some ((l.find? fun x => x.2.hashValue = hashValue ∧ keyMatch x.2.key key).map Prod.fst) := by
  induction l generalizing pr p fuel with
  | nil =>
      obtain ⟨rfl, _⟩ := hc
      cases fuel <;> rfl
  | cons x xs ih =>
      obtain ⟨a, n⟩ := x
      obtain ⟨rfl, hr, _, hrest⟩ := hc
      obtain ⟨fuel, rfl⟩ : ∃ k, fuel = k + 1 := ⟨fuel - 1, by simp at hfuel; omega⟩
      simp only [findHead, hr, Option.bind_eq_bind, Option.bind_some, List.find?_cons]
      by_cases hmatch : n.hashValue = hashValue ∧ keyMatch n.key key
      · simp [hmatch]
      · rw [if_neg hmatch, ih hrest (by simpa using hfuel), decide_eq_false hmatch]

/-- **A lookup finds the head of the key**, and null when the key has none. -/
lemma MapShape.find (hm : MapShape P m buckets chainOf) (key : KeyType) :
    ∃ p, m.find key = some p ∧
      ∀ a, p = some a ↔ ∃ head, m.heads.read a = some head ∧ head.key = key := by
  have hb := hm.bucket
  obtain ⟨tl, hc⟩ := hb.chains (m.bucketPos key)
  refine ⟨_, findHead_eq hc hc.length_le, fun a => ?_⟩
  rw [Option.map_eq_some_iff]
  constructor
  · rintro ⟨⟨b, n⟩, hfind, rfl⟩
    have hmem := List.mem_of_find?_eq_some hfind
    have hmatch := List.find?_some hfind
    simp only [keyMatch_iff, decide_eq_true_eq] at hmatch
    exact ⟨n, hc.read hmem, hmatch.2⟩
  · rintro ⟨n, hr, hkey⟩
    obtain ⟨hhash, hbucket⟩ := hm.placed a n hr
    have hin : (a, n) ∈ buckets (m.bucketPos key) :=
      hc.mem_of_read ((hb.members _ a n hr).mpr (by rw [hbucket, hkey])) hr
    have hsome : ((buckets (m.bucketPos key)).find? fun x =>
        x.2.hashValue = hashKey key ∧ keyMatch x.2.key key).isSome := by
      rw [List.find?_isSome]
      exact ⟨(a, n), hin, by simp [hhash, hkey]⟩
    obtain ⟨⟨b, k⟩, hfind⟩ := Option.isSome_iff_exists.mp hsome
    have hmatch := List.find?_some hfind
    simp only [keyMatch_iff, decide_eq_true_eq] at hmatch
    have hb' := hc.read (List.mem_of_find?_eq_some hfind)
    obtain rfl : b = a := hm.key_unique b a k n hb' hr (hmatch.2.trans hkey.symm)
    exact ⟨(b, k), hfind, rfl⟩

lemma MapShape.pageList_eq_some (hm : MapShape P m buckets chainOf) {head : HashNodeHead}
    {chain : EleNodes} :
    pageList m chainOf key = some (head, chain) ↔
      ∃ a full, m.heads.read a = some full ∧ full.key = key ∧ head = full.core ∧
        chain = chainOf a := by
  obtain ⟨p, hp, hiff⟩ := hm.find key
  constructor
  · intro h
    simp only [pageList, hp, Option.bind_eq_bind, Option.bind_some, Option.bind_eq_some_iff,
      Option.some.injEq, Prod.mk.injEq] at h
    obtain ⟨a, ha, full, hr, hcore, hchain⟩ := h
    obtain ⟨full', hr', hkey⟩ := (hiff a).mp ha
    rw [hr, Option.some.injEq] at hr'
    exact ⟨a, full, hr, hr' ▸ hkey, hcore.symm, hchain.symm⟩
  · rintro ⟨a, full, hr, hkey, rfl, rfl⟩
    simp [pageList, hp, (hiff a).mpr ⟨full, hr, hkey⟩, hr]

lemma MapShape.find_cases (hm : MapShape P m buckets chainOf) (key : KeyType) :
    (m.find key = some none ∧ pageList m chainOf key = none ∧
      ∀ a full, m.heads.read a = some full → full.key ≠ key) ∨
    ∃ a full, m.find key = some (some a) ∧ m.heads.read a = some full ∧ full.key = key ∧
      pageList m chainOf key = some (full.core, chainOf a) := by
  obtain ⟨p, hp, hiff⟩ := hm.find key
  cases p with
  | none =>
      left
      refine ⟨hp, by simp [pageList, hp], fun a full hr hkey => ?_⟩
      cases (hiff a).mpr ⟨full, hr, hkey⟩
  | some a =>
      right
      obtain ⟨full, hr, hkey⟩ := (hiff a).mp rfl
      exact ⟨a, full, hp, hr, hkey, hm.pageList_eq_some.mpr ⟨a, full, hr, hkey, rfl, rfl⟩⟩

lemma pageList_init (n : ℕ) (hn : 0 < n) (chainOf : ℕ → EleNodes) (key : KeyType) :
    pageList (hashMapInit n hn) chainOf key = none := by
  rcases (mapShape_init VersionListInv n hn chainOf).find_cases key with
    ⟨_, hnone, _⟩ | ⟨a, full, _, hr, _⟩
  · exact hnone
  · cases hr

lemma MapInv.pageList_inv (hm : MapInv m chainOf) {head : HashNodeHead}
    {chain : EleNodes} (h : pageList m chainOf key = some (head, chain)) :
    VersionListInv m.eles head chain ∧ head.key = key := by
  obtain ⟨buckets, hs⟩ := hm
  obtain ⟨a, full, hr, hkey, rfl, rfl⟩ := hs.pageList_eq_some.mp h
  exact ⟨(hs.lists a full hr).of_core rfl, hkey⟩

lemma MapShape.pageList_congr {buckets' : ℕ → HeadNodes}
    {chainOf' : ℕ → EleNodes} (hm : MapShape P m buckets chainOf)
    (hm' : MapShape P m' buckets' chainOf')
    (h : ∀ a, (∃ full, m.heads.read a = some full ∧ full.key = key) ∨
        (∃ full, m'.heads.read a = some full ∧ full.key = key) →
      (m'.heads.read a).map HashNodeHead.core = (m.heads.read a).map HashNodeHead.core ∧
        chainOf' a = chainOf a) :
    pageList m' chainOf' key = pageList m chainOf key := by
  refine Option.ext fun v => ?_
  obtain ⟨head, chain⟩ := v
  rw [hm.pageList_eq_some, hm'.pageList_eq_some]
  constructor
  · rintro ⟨a, full, hr, hkey, rfl, rfl⟩
    obtain ⟨hcore, hchain⟩ := h a (Or.inr ⟨full, hr, hkey⟩)
    rw [hr, Option.map_some] at hcore
    obtain ⟨full', hr', heq⟩ := Option.map_eq_some_iff.mp hcore.symm
    refine ⟨a, full', hr', ?_, heq.symm, hchain⟩
    rw [← hkey, core_fields heq]
  · rintro ⟨a, full, hr, hkey, rfl, rfl⟩
    obtain ⟨hcore, hchain⟩ := h a (Or.inl ⟨full, hr, hkey⟩)
    rw [hr, Option.map_some] at hcore
    obtain ⟨full', hr', heq⟩ := Option.map_eq_some_iff.mp hcore
    refine ⟨a, full', hr', ?_, heq.symm, hchain.symm⟩
    rw [← hkey, core_fields heq]

end Find

/-! ## Relinking -/

section Relink

variable {m : HashMap} {chainOf : ℕ → EleNodes}
  {P : Heap HashNodeEle → HashNodeHead → EleNodes → Prop}
  {buckets : ℕ → HeadNodes}

/-- Changing links between heads keeps the invariant as long as the chains go through the same
heads. -/
lemma MapShape.of_sameCores (hP : ListProp P) {nodeList : ℕ → Ptr} {heads : Heap HashNodeHead}
    {buckets' : ℕ → HeadNodes} (hm : MapShape P m buckets chainOf)
    (hcore : SameCores m.heads heads) (hb : BucketInv nodeList heads buckets') :
    MapShape P { m with nodeList := nodeList, heads := heads } buckets' chainOf where
  bucket := hb
  placed a head' hr := by
    obtain ⟨head, hr, hc⟩ := hcore.read hr
    rw [core_fields hc]
    exact hm.placed a head hr
  key_unique a₁ a₂ head₁ head₂ hr₁ hr₂ hkey := by
    obtain ⟨g₁, hg₁, hc₁⟩ := hcore.read hr₁
    obtain ⟨g₂, hg₂, hc₂⟩ := hcore.read hr₂
    rw [core_fields hc₁, core_fields hc₂] at hkey
    exact hm.key_unique a₁ a₂ g₁ g₂ hg₁ hg₂ hkey
  lists a head' hr := by
    obtain ⟨head, hr, hc⟩ := hcore.read hr
    exact hP.core (hm.lists a head hr) hc
  disjoint a₁ a₂ head₁ head₂ hr₁ hr₂ hne := by
    obtain ⟨g₁, hg₁, _⟩ := hcore.read hr₁
    obtain ⟨g₂, hg₂, _⟩ := hcore.read hr₂
    exact hm.disjoint a₁ a₂ g₁ g₂ hg₁ hg₂ hne

/-- Relinking one bucket: the new chain of bucket `i` goes through the same addresses, and nothing
outside that bucket changed. -/
lemma BucketInv.relink {nodeList : ℕ → Ptr} {heads heads' : Heap HashNodeHead}
    {buckets : ℕ → HeadNodes} (hb : BucketInv nodeList heads buckets)
    {i : ℕ} {p : Ptr} {l : HeadNodes} (hcore : SameCores heads heads') (hc : HeadChain heads' p l)
    (haddr : ∀ a, a ∈ l.map Prod.fst ↔ a ∈ (buckets i).map Prod.fst)
    (hout : ∀ a, a ∉ (buckets i).map Prod.fst → heads'.read a = heads.read a) :
    BucketInv (update nodeList i p) heads' (update buckets i l) where
  chains j := by
    by_cases hj : j = i
    · subst hj
      simpa using hc
    · simp only [update_of_ne hj]
      obtain ⟨tl, hcj⟩ := hb.chains j
      refine ⟨tl, hcj.frame fun a ha => hout a fun hai => hj ?_⟩
      obtain ⟨⟨b, n⟩, hbn, rfl⟩ := List.mem_map.mp ha
      have hr := hcj.read hbn
      rw [← (hb.members j b n hr).mp ha, ← (hb.members i b n hr).mp hai]
  members j a head' hr' := by
    obtain ⟨head, hr, heq⟩ := hcore.read hr'
    have hbucket : head'.bucket = head.bucket := by rw [core_fields heq]
    rw [hbucket, ← hb.members j a head hr]
    by_cases hj : j = i
    · subst hj
      rw [update_self, haddr]
    · rw [update_of_ne hj]

lemma setPrevHead_spec {heads : Heap HashNodeHead} {a : ℕ} {head : HashNodeHead}
    (hr : heads.read a = some head) (prev : Ptr) :
    ∃ heads', setPrevHead heads (some a) prev = some heads' ∧ heads'.fresh = heads.fresh ∧
      ∀ x, heads'.read x = if x = a then some { head with prevHead := prev } else heads.read x := by
  obtain ⟨heads', hw, hfresh, hread⟩ := Heap.write_spec hr { head with prevHead := prev }
  exact ⟨heads', by simp [setPrevHead, hr, hw], hfresh, hread⟩

/-- The part of a chain behind a head, attached to another predecessor. -/
lemma setPrevHead_chain {heads : Heap HashNodeHead} {pr p tl : Ptr} (prev : Ptr)
    {l : HeadNodes} (hc : Chain HashNodeHead.nextHead HeadBack heads pr p l tl none) :
    ∃ heads' l' tl', setPrevHead heads p prev = some heads' ∧
      Chain HashNodeHead.nextHead HeadBack heads' prev p l' tl' none ∧
      l'.map Prod.fst = l.map Prod.fst ∧ SameCores heads heads' ∧
      ∀ x, x ∉ l.map Prod.fst → heads'.read x = heads.read x := by
  cases l with
  | nil =>
      obtain ⟨rfl, _⟩ := hc
      exact ⟨heads, [], prev, rfl, ⟨rfl, rfl⟩, rfl, fun _ => rfl, fun _ _ => rfl⟩
  | cons x xs =>
      obtain ⟨b, n⟩ := x
      have hnodup := Chain.nodup hc
      simp only [List.map_cons, List.nodup_cons] at hnodup
      obtain ⟨rfl, hr, _, hrest⟩ := hc
      obtain ⟨heads', hw, _, hread⟩ := setPrevHead_spec hr prev
      refine ⟨heads', (b, { n with prevHead := prev }) :: xs, tl, hw, ⟨rfl, ?_, Or.inr rfl, ?_⟩,
        rfl, SameCores.of_write hr hread rfl, ?_⟩
      · rw [hread, if_pos rfl]
      · refine hrest.frame fun x hx => ?_
        rw [hread, if_neg]
        rintro rfl
        exact hnodup.1 hx
      · intro x hx
        simp only [List.map_cons, List.mem_cons, not_or] at hx
        rw [hread, if_neg hx.1]

/-- A head with a predecessor is preceded by the node `prevHead` points to. -/
lemma headChain_split {heads : Heap HashNodeHead} {p tl : Ptr} {l₁ l₂ : HeadNodes}
    {a prevAddr : ℕ} {head : HashNodeHead} (hprev : head.prevHead = some prevAddr)
    (hc : Chain HashNodeHead.nextHead HeadBack heads none p (l₁ ++ (a, head) :: l₂) tl none) :
    ∃ init prev, l₁ = init ++ [(prevAddr, prev)] ∧
      Chain HashNodeHead.nextHead HeadBack heads none p l₁ (some prevAddr) (some a) ∧
      Chain HashNodeHead.nextHead HeadBack heads (some a) head.nextHead l₂ tl none := by
  obtain ⟨t, q, h₁, rfl, _, hback, h₂⟩ := chain_append.mp hc
  obtain rfl : some prevAddr = t := by
    rcases hback with hnone | hsome
    · rw [hprev] at hnone
      cases hnone
    · rw [← hprev, hsome]
  rcases List.eq_nil_or_concat l₁ with rfl | ⟨init, ⟨b, prev⟩, rfl⟩
  · cases h₁.2
  · rw [List.concat_eq_append] at h₁ ⊢
    obtain ⟨_, _, _, _, htl, _⟩ := h₁.unsnoc
    rw [Option.some.injEq] at htl
    exact ⟨init, prev, by rw [htl], h₁, h₂⟩

/-- **Unlinking a head** leaves the chain of the others. -/
lemma unlink_spec {heads : Heap HashNodeHead} {p tl : Ptr} {l₁ l₂ : HeadNodes}
    {a prevAddr : ℕ} {head : HashNodeHead} (hprev : head.prevHead = some prevAddr)
    (hc : Chain HashNodeHead.nextHead HeadBack heads none p (l₁ ++ (a, head) :: l₂) tl none) :
    ∃ prev heads₁ heads₂ l', heads.read prevAddr = some prev ∧
      heads.write prevAddr { prev with nextHead := head.nextHead } = some heads₁ ∧
      setPrevHead heads₁ head.nextHead (some prevAddr) = some heads₂ ∧
      HeadChain heads₂ p l' ∧ l'.map Prod.fst = (l₁ ++ l₂).map Prod.fst ∧
      SameCores heads heads₂ ∧
      ∀ x, x ∉ (l₁ ++ l₂).map Prod.fst → heads₂.read x = heads.read x := by
  have hnodup := Chain.nodup hc
  obtain ⟨init, prev, rfl, h₁, h₂⟩ := headChain_split hprev hc
  simp only [List.map_append, List.map_cons, List.append_assoc, List.cons_append,
    List.nil_append, List.nodup_append, List.nodup_cons, List.mem_cons, not_or] at hnodup
  obtain ⟨_, ⟨⟨_, hpl₂⟩, _⟩, hcross⟩ := hnodup
  -- the predecessor now points behind the head
  have hrp : heads.read prevAddr = some prev := h₁.read (by simp)
  obtain ⟨heads₁, hw₁, _, hread₁⟩ := Heap.write_spec hrp { prev with nextHead := head.nextHead }
  have h₂' : Chain HashNodeHead.nextHead HeadBack heads₁ (some a) head.nextHead l₂ tl none := by
    refine h₂.frame fun x hx => ?_
    rw [hread₁, if_neg]
    rintro rfl
    exact hpl₂ hx
  obtain ⟨heads₂, l₂', tl', hw₂, hc₂, haddr₂, hcore₂, hout₂⟩ :=
    setPrevHead_chain (some prevAddr) h₂'
  -- and what was before it is where it was
  have hseg : Chain HashNodeHead.nextHead HeadBack heads₂ none p
      (init ++ [(prevAddr, { prev with nextHead := head.nextHead })]) (some prevAddr)
      head.nextHead := by
    refine h₁.write_last (fun t ht => ht) (fun x hx => ?_) ?_
    · rw [hout₂ x fun hxl => hcross x hx x (by simp [hxl]) rfl, hread₁,
        if_neg (hcross x hx prevAddr (by simp))]
    · rw [hout₂ prevAddr hpl₂, hread₁, if_pos rfl]
  refine ⟨prev, heads₁, heads₂, _, hrp, hw₁, hw₂, ⟨tl', chain_append.mpr ⟨_, _, hseg, hc₂⟩⟩, ?_,
    (SameCores.of_write hrp hread₁ rfl).trans hcore₂, fun x hx => ?_⟩
  · simp [haddr₂]
  · simp only [List.map_append, List.map_cons, List.map_nil, List.mem_append, List.mem_singleton,
      not_or] at hx
    rw [hout₂ x hx.2, hread₁, if_neg hx.1.2]

/-- **Linking a head in at the front.**  The back link of the former first head is left alone: it
is null, since that head had no predecessor. -/
lemma pushFront_spec {heads : Heap HashNodeHead} {p : Ptr} {l : HeadNodes} {a : ℕ}
    {head : HashNodeHead} (hc : HeadChain heads p l) (hr : heads.read a = some head)
    (ha : a ∉ l.map Prod.fst) :
    ∃ heads', heads.write a { head with prevHead := none, nextHead := p } = some heads' ∧
      HeadChain heads' (some a) ((a, { head with prevHead := none, nextHead := p }) :: l) ∧
      SameCores heads heads' ∧ ∀ x, x ≠ a → heads'.read x = heads.read x := by
  obtain ⟨tl, hc⟩ := hc
  obtain ⟨heads', hw, _, hread⟩ := Heap.write_spec hr { head with prevHead := none, nextHead := p }
  have hframe : Chain HashNodeHead.nextHead HeadBack heads' none p l tl none := by
    refine hc.frame fun x hx => ?_
    rw [hread, if_neg]
    rintro rfl
    exact ha hx
  have hbehind : ∃ tl, Chain HashNodeHead.nextHead HeadBack heads' (some a) p l tl none := by
    by_cases hnil : l = []
    · subst hnil
      exact ⟨some a, hframe.1, rfl⟩
    · exact ⟨tl, hframe.reattach hnil fun n hn => Or.inl (hn.elim id id)⟩
  obtain ⟨tl', hbehind⟩ := hbehind
  refine ⟨heads', hw, ⟨tl', rfl, ?_, Or.inl rfl, hbehind⟩, SameCores.of_write hr hread rfl,
    fun x hx => ?_⟩
  · rw [hread, if_pos rfl]
  · rw [hread, if_neg hx]

/-- **Moving a head to the front** succeeds and only changes links between heads.  A head without
`prevHead` stays where it is. -/
lemma MapShape.moveToFront (hP : ListProp P) (hm : MapShape P m buckets chainOf) {a : ℕ}
    {head : HashNodeHead} (hr : m.heads.read a = some head) :
    ∃ m' buckets', m.moveToFront a = some m' ∧ MapShape P m' buckets' chainOf ∧
      SameCores m.heads m'.heads ∧ m'.eles = m.eles ∧ m'.bucketNum = m.bucketNum ∧
      (∀ i, i ≠ head.bucket → (buckets' i).map Prod.fst = (buckets i).map Prod.fst) ∧
      (buckets' head.bucket).map Prod.fst =
        if head.prevHead = none then (buckets head.bucket).map Prod.fst
        else a :: ((buckets head.bucket).map Prod.fst).erase a := by
  cases hprev : head.prevHead with
  | none =>
      exact ⟨m, buckets, by simp [HashMap.moveToFront, hr, hprev], hm, fun _ => rfl, rfl, rfl,
        fun _ _ => rfl, (if_pos rfl).symm⟩
  | some prevAddr =>
      have hb := hm.bucket
      obtain ⟨tl, hc⟩ := hb.chains head.bucket
      have hmem : (a, head) ∈ buckets head.bucket :=
        hc.mem_of_read ((hb.members _ a head hr).mpr rfl) hr
      obtain ⟨l₁, l₂, hl⟩ := List.append_of_mem hmem
      rw [hl] at hc
      have hoff : a ∉ (l₁ ++ l₂).map Prod.fst := by
        have hnodup := Chain.nodup hc
        rw [List.map_append, List.map_cons, List.nodup_middle, List.nodup_cons,
          ← List.map_append] at hnodup
        exact hnodup.1
      obtain ⟨prev, heads₁, heads₂, l, hrp, hw₁, hw₂, hc₂, haddr, hcore₂, hout₂⟩ :=
        unlink_spec hprev hc
      have hr₂ : heads₂.read a = some head := by rw [hout₂ a hoff, hr]
      obtain ⟨heads₃, hw₃, hc₃, hcore₃, hout₃⟩ := pushFront_spec hc₂ hr₂ (haddr ▸ hoff)
      have hcores := hcore₂.trans hcore₃
      have herase : ((buckets head.bucket).map Prod.fst).erase a = (l₁ ++ l₂).map Prod.fst := by
        rw [List.map_append, List.mem_append, not_or] at hoff
        rw [hl, List.map_append, List.map_cons, List.erase_append_right _ hoff.1,
          List.erase_cons_head, List.map_append]
      refine ⟨{ m with
        heads := heads₃
        nodeList := update m.nodeList head.bucket (some a) }, _,
        by simp [HashMap.moveToFront, hr, hprev, hrp, hw₁, hw₂, hr₂, hw₃],
        hm.of_sameCores hP hcores (hb.relink hcores hc₃ (fun x => ?_) fun x hx => ?_), hcores, rfl,
        rfl, fun i hi => by rw [update_of_ne hi], ?_⟩
      · rw [hl, List.map_cons, haddr]
        simp only [List.map_append, List.map_cons, List.mem_cons, List.mem_append]
        tauto
      · rw [hl, List.map_append, List.map_cons, List.mem_append, List.mem_cons, not_or,
          not_or] at hx
        rw [hout₃ x hx.2.1, hout₂]
        rw [List.map_append, List.mem_append, not_or]
        exact ⟨hx.1, hx.2.2⟩
      · rw [update_self, if_neg (Option.some_ne_none _), List.map_cons, haddr, herase]

/-- A new list holds the LSN, behind the empty slot if there is one. -/
lemma newHead_inv (eles : Heap HashNodeEle) (key : KeyType) (bucket : ℕ) {lsn : ℕ} (pageNum : ℤ)
    (noEmptyFirstSlot : Bool) (nextHead : Ptr)
    (hlsn : key.blkNum ≠ -1 ∧ noEmptyFirstSlot = false → 1 ≤ lsn) :
    VersionListInv eles (newHead key bucket lsn pageNum noEmptyFirstSlot nextHead) [] := by
  refine ⟨⟨rfl, rfl⟩, ?_, ?_, fun h => absurd rfl h, by simp, by simp, ?_, Nat.zero_le _⟩
  all_goals
    unfold newHead
    split_ifs with hslot
  · simpa [listLsns, entryLsns] using Nat.lt_of_succ_le (hlsn hslot)
  · simp [listLsns, entryLsns]
  · simp
  · simp
  · simp [listLsns, entryLsns]
  · simp [listLsns, entryLsns]

lemma newHead_pending (key : KeyType) (bucket : ℕ) {lsn : ℕ} (pageNum : ℤ)
    (noEmptyFirstSlot : Bool) (nextHead : Ptr) (hlsn : 1 ≤ lsn) :
    pendingLsns (newHead key bucket lsn pageNum noEmptyFirstSlot nextHead).core [] = [lsn] := by
  have hpos : 0 < lsn := hlsn
  unfold newHead
  split_ifs <;> simp [pendingLsns, listLsns, entryLsns, HashNodeHead.core, hpos]

/-- A new head at the front of bucket `i`: nothing outside that bucket changed. -/
lemma BucketInv.addFront {nodeList : ℕ → Ptr} {heads heads' : Heap HashNodeHead}
    {buckets : ℕ → HeadNodes} (hb : BucketInv nodeList heads buckets)
    {a : ℕ} {head : HashNodeHead} {l : HeadNodes} (hfree : heads.read a = none)
    (hnew : heads'.read a = some head) (hcore : ∀ x, x ≠ a →
      (heads'.read x).map HashNodeHead.core = (heads.read x).map HashNodeHead.core)
    (hc : HeadChain heads' (some a) ((a, head) :: l))
    (haddr : l.map Prod.fst = (buckets head.bucket).map Prod.fst)
    (hout : ∀ x, x ≠ a → x ∉ (buckets head.bucket).map Prod.fst →
      heads'.read x = heads.read x) :
    BucketInv (update nodeList head.bucket (some a)) heads'
      (update buckets head.bucket ((a, head) :: l)) := by
  -- `a` was on no chain
  have hoff : ∀ j, a ∉ (buckets j).map Prod.fst := by
    intro j hmem
    obtain ⟨tl, hcj⟩ := hb.chains j
    obtain ⟨⟨b, n⟩, hbn, rfl⟩ := List.mem_map.mp hmem
    have hr := hcj.read hbn
    rw [hfree] at hr
    cases hr
  refine ⟨fun j => ?_, fun j x g hr => ?_⟩
  · by_cases hj : j = head.bucket
    · subst hj
      simpa using hc
    · simp only [update_of_ne hj]
      obtain ⟨tl, hcj⟩ := hb.chains j
      refine ⟨tl, hcj.frame fun x hx => hout x (fun hxa => hoff j (hxa ▸ hx)) fun hxi => hj ?_⟩
      obtain ⟨⟨b, n⟩, hbn, rfl⟩ := List.mem_map.mp hx
      have hr := hcj.read hbn
      rw [← (hb.members j b n hr).mp hx, ← (hb.members _ b n hr).mp hxi]
  · by_cases hx : x = a
    · subst hx
      obtain rfl : head = g := by rwa [hnew, Option.some.injEq] at hr
      by_cases hj : j = head.bucket
      · subst hj
        simp
      · rw [update_of_ne hj]
        exact iff_of_false (hoff j) (Ne.symm hj)
    · have hmap := hcore x hx
      rw [hr, Option.map_some] at hmap
      obtain ⟨g₀, hg₀, heq⟩ := Option.map_eq_some_iff.mp hmap.symm
      rw [show g.bucket = g₀.bucket by rw [core_fields heq.symm], ← hb.members j x g₀ hg₀]
      by_cases hj : j = head.bucket
      · subst hj
        simp [haddr, hx]
      · rw [update_of_ne hj]

/-- **One head is new or rewritten**, and the others change their links at most.  What the invariant
asks then comes down to this head, its list, and its distance from the other lists. -/
lemma MapShape.with_head (hP : ListProp P) {m' : HashMap}
    {buckets' : ℕ → HeadNodes} {a : ℕ} {head' : HashNodeHead}
    {chain' : EleNodes} (hm : MapShape P m buckets chainOf) (hnum : m'.bucketNum = m.bucketNum)
    (hheads : ∀ b g, m'.heads.read b = some g → (b = a ∧ g = head') ∨
      (b ≠ a ∧ ∃ g₀, m.heads.read b = some g₀ ∧ g.core = g₀.core))
    (hbuckets : BucketInv m'.nodeList m'.heads buckets')
    (hplaced : head'.hashValue = hashKey head'.key ∧ head'.bucket = m.bucketPos head'.key)
    (hinv : P m'.eles head' chain')
    (hothers : ∀ b g, b ≠ a → m.heads.read b = some g → g.key ≠ head'.key ∧
      P m'.eles g (chainOf b) ∧
      List.Disjoint ((chainOf b).map Prod.fst) (chain'.map Prod.fst)) :
    MapShape P m' buckets' (update chainOf a chain') where
  bucket := hbuckets
  placed b g hg := by
    rw [HashMap.bucketPos, hnum]
    rcases hheads b g hg with ⟨rfl, rfl⟩ | ⟨_, g₀, hg₀, heq⟩
    · exact hplaced
    · rw [core_fields heq]
      exact hm.placed b g₀ hg₀
  key_unique b₁ b₂ g₁ g₂ hg₁ hg₂ hkey := by
    rcases hheads b₁ g₁ hg₁ with ⟨rfl, rfl⟩ | ⟨hne₁, k₁, hk₁, heq₁⟩ <;>
      rcases hheads b₂ g₂ hg₂ with ⟨rfl, rfl⟩ | ⟨hne₂, k₂, hk₂, heq₂⟩
    · rfl
    · rw [core_fields heq₂] at hkey
      exact absurd hkey.symm (hothers b₂ k₂ hne₂ hk₂).1
    · rw [core_fields heq₁] at hkey
      exact absurd hkey (hothers b₁ k₁ hne₁ hk₁).1
    · rw [core_fields heq₁, core_fields heq₂] at hkey
      exact hm.key_unique b₁ b₂ k₁ k₂ hk₁ hk₂ hkey
  lists b g hg := by
    rcases hheads b g hg with ⟨rfl, rfl⟩ | ⟨hne, g₀, hg₀, heq⟩
    · rw [update_self]
      exact hinv
    · rw [update_of_ne hne]
      exact hP.core (hothers b g₀ hne hg₀).2.1 heq
  disjoint b₁ b₂ g₁ g₂ hg₁ hg₂ hne := by
    rcases hheads b₁ g₁ hg₁ with ⟨rfl, rfl⟩ | ⟨hne₁, k₁, hk₁, heq₁⟩ <;>
      rcases hheads b₂ g₂ hg₂ with ⟨rfl, rfl⟩ | ⟨hne₂, k₂, hk₂, heq₂⟩
    · exact absurd rfl hne
    · rw [update_self, update_of_ne hne₂]
      exact (hothers b₂ k₂ hne₂ hk₂).2.2.symm
    · rw [update_self, update_of_ne hne₁]
      exact (hothers b₁ k₁ hne₁ hk₁).2.2
    · rw [update_of_ne hne₁, update_of_ne hne₂]
      exact hm.disjoint b₁ b₂ k₁ k₂ hk₁ hk₂ hne

/-- **Creating a head** links a list for the new key in and touches no other. -/
lemma MapShape.createHead (hP : ListProp P) (hm : MapShape P m buckets chainOf) {key : KeyType}
    {lsn : ℕ} {pageNum : ℤ} {noEmptyFirstSlot : Bool}
    (hinv : P m.eles (newHead key (m.bucketPos key) lsn pageNum noEmptyFirstSlot
      (m.nodeList (m.bucketPos key))) [])
    (hnew : ∀ a head, m.heads.read a = some head → head.key ≠ key) :
    ∃ m' buckets', m.createHead key lsn pageNum noEmptyFirstSlot = some m' ∧
      MapShape P m' buckets' (update chainOf m.heads.fresh []) ∧
      m'.heads.read m.heads.fresh = some (newHead key (m.bucketPos key) lsn pageNum
        noEmptyFirstSlot (m.nodeList (m.bucketPos key))) ∧
      (∀ a, a ≠ m.heads.fresh →
        (m'.heads.read a).map HashNodeHead.core = (m.heads.read a).map HashNodeHead.core) ∧
      m'.eles = m.eles ∧ m'.bucketNum = m.bucketNum ∧
      (∀ i, i ≠ m.bucketPos key → (buckets' i).map Prod.fst = (buckets i).map Prod.fst) ∧
      (buckets' (m.bucketPos key)).map Prod.fst =
        m.heads.fresh :: (buckets (m.bucketPos key)).map Prod.fst := by
  have hb := hm.bucket
  obtain ⟨tl, hc⟩ := hb.chains (m.bucketPos key)
  set head := newHead key (m.bucketPos key) lsn pageNum noEmptyFirstSlot
    (m.nodeList (m.bucketPos key)) with hhead
  set heads₀ := (m.heads.alloc head).1 with hheads₀
  have hold : ∀ x, x < m.heads.fresh → heads₀.read x = m.heads.read x :=
    fun x hx => Heap.read_alloc_old hx
  obtain ⟨heads₁, l, tl', hw, hc₁, haddr, hcore, hout⟩ := setPrevHead_chain (some m.heads.fresh)
    (hc.frame fun x hx => hold x (hc.lt_fresh hx))
  have hfresh : heads₁.read m.heads.fresh = some head := by
    rw [hout _ fun h => absurd (hc.lt_fresh h) (lt_irrefl _), hheads₀, Heap.read_alloc,
      if_pos rfl]
  have hcores : ∀ x, x ≠ m.heads.fresh →
      (heads₁.read x).map HashNodeHead.core = (m.heads.read x).map HashNodeHead.core := by
    intro x hx
    rw [hcore x, hheads₀, Heap.read_alloc, if_neg hx]
  have hfree : m.heads.read m.heads.fresh = none := m.heads.unused _ le_rfl
  have hbuckets := hb.addFront hfree hfresh hcores ⟨tl', rfl, hfresh, Or.inl rfl, hc₁⟩ haddr
    fun x hx hxl => by rw [hout x hxl, hheads₀, Heap.read_alloc, if_neg hx]
  set nodeList := update m.nodeList (m.bucketPos key) (some m.heads.fresh) with hnodeList
  refine ⟨{ m with heads := heads₁, nodeList := nodeList },
    update buckets head.bucket ((m.heads.fresh, head) :: l), ?_, ?_, hfresh, hcores, rfl,
    rfl, fun i hi => ?_, ?_⟩
  · simp [HashMap.createHead, ← hhead, ← hheads₀, hw, hnodeList]
  · refine hm.with_head hP rfl (fun b g hg => ?_) hbuckets ⟨rfl, rfl⟩ hinv
      fun b g _ hg => ⟨hnew b g hg, hm.lists b g hg, by simp⟩
    -- a head of the new map is the new one or an old one up to links
    by_cases hba : b = m.heads.fresh
    · subst hba
      exact Or.inl ⟨rfl, (Option.some.inj (hfresh.symm.trans hg)).symm⟩
    · have hmap := hcores b hba
      rw [show heads₁.read b = some g from hg, Option.map_some] at hmap
      obtain ⟨g₀, hg₀, heq⟩ := Option.map_eq_some_iff.mp hmap.symm
      exact Or.inr ⟨hba, g₀, hg₀, heq.symm⟩
  · rw [update_of_ne (show i ≠ head.bucket from hi)]
  · rw [show m.bucketPos key = head.bucket from rfl, update_self, List.map_cons, haddr]
    rfl

/-- Rewriting a head in place, its links and its bucket kept. -/
lemma BucketInv.rewrite {nodeList : ℕ → Ptr} {heads heads' : Heap HashNodeHead}
    {buckets : ℕ → HeadNodes} (hb : BucketInv nodeList heads buckets) {a : ℕ}
    {head head' : HashNodeHead} (hr : heads.read a = some head) (hplace : SamePlace head head')
    (hread : ∀ x, heads'.read x = if x = a then some head' else heads.read x) :
    BucketInv nodeList heads'
      (fun i => (buckets i).map fun x => (x.1, if x.1 = a then head' else x.2)) where
  chains i := by
    obtain ⟨tl, hc⟩ := hb.chains i
    have hnode : ∀ x ∈ buckets i, x.1 = a → x.2 = head := by
      rintro ⟨b, n⟩ hx rfl
      have hn := hc.read hx
      rw [hr, Option.some.injEq] at hn
      exact hn.symm
    refine ⟨tl, hc.replace (f := fun b n => if b = a then head' else n) ?_ ?_ ?_⟩
    · intro x hx
      rw [hread]
      split_ifs with hxa
      · rfl
      · exact hc.read hx
    · intro x hx
      split_ifs with hxa
      · rw [hnode x hx hxa, hplace.nextHead]
      · rfl
    · intro x hx t ht
      split_ifs with hxa
      · rw [HeadBack, hplace.prevHead, ← hnode x hx hxa]
        exact ht
      · exact ht
  members i b g hg := by
    have haddr : ((buckets i).map fun x => (x.1, if x.1 = a then head' else x.2)).map Prod.fst =
        (buckets i).map Prod.fst := by
      rw [List.map_map]
      rfl
    rw [haddr]
    rw [hread] at hg
    split_ifs at hg with hba
    · subst hba
      rw [hb.members i b head hr, ← Option.some.inj hg, hplace.bucket]
    · exact hb.members i b g hg

/-- **Updating one list**: an operation on the list of the head at `a` that keeps its place and
respects the frame keeps the invariant of the map, and the order of the heads. -/
lemma MapShape.update_list (hP : ListProp P) (hm : MapShape P m buckets chainOf) {a : ℕ}
    {head head' : HashNodeHead} {eles' : Heap HashNodeEle} {chain' : EleNodes}
    (hr : m.heads.read a = some head) (hplace : SamePlace head head') (hinv : P eles' head' chain')
    (hframe : ListFrame m.eles eles' (chainOf a) chain') :
    ∃ heads' buckets', m.heads.write a head' = some heads' ∧
      (∀ x, heads'.read x = if x = a then some head' else m.heads.read x) ∧
      MapShape P { m with heads := heads', eles := eles' } buckets'
        (update chainOf a chain') ∧
      ∀ i, (buckets' i).map Prod.fst = (buckets i).map Prod.fst := by
  obtain ⟨heads', hw, _, hread⟩ := Heap.write_spec hr head'
  refine ⟨heads', _, hw, hread, hm.with_head hP rfl (fun b g hg => ?_)
    (hm.bucket.rewrite hr hplace hread) ?_ hinv fun b g hba hg => ⟨fun hkey => hba ?_, ?_, ?_⟩,
    fun i => ?_⟩
  · change heads'.read b = some g at hg
    rw [hread] at hg
    split_ifs at hg with hba
    · exact Or.inl ⟨hba, (Option.some.inj hg).symm⟩
    · exact Or.inr ⟨hba, g, hg, rfl⟩
  · rw [hplace.hashValue, hplace.bucket, hplace.key]
    exact hm.placed a head hr
  · exact hm.key_unique b a g head hg hr (hkey.trans hplace.key)
  · -- the nodes of another list are out of reach
    refine hP.frame (hm.lists b g hg) fun x hx => hframe.same x (fun hxa => ?_) ?_
    · exact hm.disjoint b a g head hg hr hba hx hxa
    · exact hP.lt_fresh (hm.lists b g hg) x hx
  · intro x hx hx'
    rcases hframe.addrs x hx' with hxa | hge
    · exact hm.disjoint b a g head hg hr hba hx hxa
    · have := hP.lt_fresh (hm.lists b g hg) x hx
      omega
  · rw [List.map_map]
    rfl

end Relink

end GroundDB
