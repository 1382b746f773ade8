import GroundDB.Lib.Recency
import GroundDB.HashMap.Operations

/-!
# The order of the bucket chains

Insertions and replay-list lookups, of any keys and any LSNs, in any order.  Nothing is asked here
of the LSNs in a version list, only that its nodes hang together (`ListLinks`), so that all of this
holds also where LSNs are zero or come in no order.

* `bucket_chain_integrity`: a bucket's chain goes through every key inserted into it, once, and a
  lookup finds what was inserted.
* `bucket_recency_order`: the chain is in the order of the last accesses, as long as a head that is
  accessed is first in its bucket or has a `prevHead`.  Moving a head to the front leaves the
  `prevHead` of the former first head null, and such a head is taken for the first one later
  (`second_access_stays_behind`).
-/

namespace GroundDB

open PtrHeap

/-! ## Version lists of any LSNs -/

lemma listLinks_listProp : ListProp ListLinks where
  core h hcore := by
    rw [core_fields hcore]
    exact ⟨h.links, h.head_nonempty, h.ele_nonempty⟩
  frame h hf := ⟨Chain.frame h.links hf, h.head_nonempty, h.ele_nonempty⟩
  lt_fresh h _ ha := Chain.lt_fresh h.links ha

section Lists

variable {eles : Heap HashNodeEle} {ok : Ptr → HashNodeEle → Prop} {pr p tl : Ptr}
  {head : HashNodeHead} {chain : EleNodes} {es : List LsnEntry} (t : ℕ)

/-- The search ends inside the array, sorted or not. -/
lemma lowerBoundLoop_total (fuel : ℕ) : ∀ small large : ℕ, small ≤ large → large < es.length →
    large - small ≤ fuel → ∃ i < es.length, lowerBoundLoop t es fuel small large = some i := by
  induction fuel with
  | zero =>
      intro small large hle hlen hfuel
      exact ⟨large, hlen, if_pos (by omega)⟩
  | succ fuel ih =>
      intro small large hle hlen hfuel
      rw [lowerBoundLoop]
      split_ifs with heq
      · exact ⟨large, hlen, rfl⟩
      have hmid : (large + small + 1) / 2 < es.length := by omega
      generalize hm : (large + small + 1) / 2 = mid at hmid ⊢
      obtain ⟨e, he⟩ : ∃ e, es[mid]? = some e := ⟨_, List.getElem?_eq_getElem hmid⟩
      simp only [he, Option.bind_eq_bind, Option.bind_some]
      by_cases heqt : e.lsn = t
      · simp only [heqt, lt_irrefl, if_true, if_false]
        exact ih mid mid le_rfl hmid (by omega)
      · by_cases hlt : t < e.lsn
        · simp only [hlt, heqt, if_true, if_false]
          exact ih small (mid - 1) (by omega) (by omega) (by omega)
        · simp only [hlt, heqt, if_false]
          exact ih mid large (by omega) hlen (by omega)

lemma lsnListFindLowerBound_total (hne : es ≠ []) :
    ∃ i : ℤ, lsnListFindLowerBound t es = some i ∧ (i = -1 ∨ 0 ≤ i ∧ i.toNat < es.length) := by
  have hpos : 0 < es.length := List.length_pos_iff.mpr hne
  have hlast : es.length - 1 < es.length := Nat.sub_one_lt_of_lt hpos
  obtain ⟨i, hi, hloop⟩ :=
    lowerBoundLoop_total t es.length 0 (es.length - 1) (Nat.zero_le _) hlast (by omega)
  obtain ⟨e, he⟩ : ∃ e, es[i]? = some e := ⟨_, List.getElem?_eq_getElem hi⟩
  unfold lsnListFindLowerBound
  rw [if_neg hpos.ne']
  simp only [hloop, he, Option.bind_eq_bind, Option.bind_some]
  split_ifs with hgt
  · exact ⟨-1, rfl, .inl rfl⟩
  · exact ⟨i, rfl, .inr ⟨by omega, by simpa using hi⟩⟩

lemma olderLsn_total (hc : Chain HashNodeEle.nextEle ok eles pr p chain tl none)
    (hne : ∀ x ∈ chain, x.2.lsnEntry.toList ≠ []) {fuel : ℕ} (hfuel : chain.length ≤ fuel)
    (currentLsn : ℕ) : ∃ lsn, olderLsn eles t fuel p currentLsn = some lsn := by
  induction chain generalizing pr p fuel currentLsn with
  | nil =>
      obtain ⟨rfl, _⟩ := hc
      exact ⟨currentLsn, by cases fuel <;> rfl⟩
  | cons x xs ih =>
      obtain ⟨a, n⟩ := x
      obtain ⟨rfl, hr, _, hrest⟩ := hc
      obtain ⟨fuel, rfl⟩ : ∃ k, fuel = k + 1 := ⟨fuel - 1, by simp at hfuel; omega⟩
      have hn : n.lsnEntry.toList ≠ [] := hne (a, n) List.mem_cons_self
      obtain ⟨last, hlast⟩ := Option.ne_none_iff_exists'.mp (mt List.getLast?_eq_none_iff.mp hn)
      simp only [olderLsn, hr, hlast, Option.bind_eq_bind, Option.bind_some]
      split_ifs with hmax
      · exact ih hrest (fun x hx => hne x (List.mem_cons_of_mem _ hx)) (by simpa using hfuel) _
      · obtain ⟨i, hi, hcase⟩ := lsnListFindLowerBound_total t hn
        rw [hi]
        rcases hcase with rfl | ⟨hnn, hlt⟩
        · exact ⟨currentLsn, rfl⟩
        · simp [hnn, List.getElem?_eq_getElem hlt]

lemma collectEles_total (replayedLsn : ℕ)
    (hc : Chain HashNodeEle.nextEle ok eles pr p chain tl none)
    (hne : ∀ x ∈ chain, x.2.lsnEntry.toList ≠ []) {fuel : ℕ} (hfuel : chain.length ≤ fuel)
    (found : Bool) (buf : ReplayBuf) :
    ∃ buf', collectEles eles replayedLsn t fuel p found buf = some buf' := by
  induction chain generalizing pr p fuel found buf with
  | nil =>
      obtain ⟨rfl, _⟩ := hc
      exact ⟨buf, by cases fuel <;> rfl⟩
  | cons x xs ih =>
      obtain ⟨a, n⟩ := x
      obtain ⟨rfl, hr, _, hrest⟩ := hc
      obtain ⟨fuel, rfl⟩ : ∃ k, fuel = k + 1 := ⟨fuel - 1, by simp at hfuel; omega⟩
      have hn : n.lsnEntry.toList ≠ [] := hne (a, n) List.mem_cons_self
      have ih := fun found buf => ih hrest (fun x hx => hne x (List.mem_cons_of_mem _ hx))
        (show xs.length ≤ fuel by simpa using hfuel) found buf
      obtain ⟨first, hfirst⟩ : ∃ first, n.lsnEntry.toList[0]? = some first :=
        ⟨_, List.getElem?_eq_getElem (List.length_pos_iff.mpr hn)⟩
      obtain ⟨i, hi, -⟩ := lsnListFindLowerBound_total replayedLsn hn
      simp only [collectEles, hr, hfirst, Option.bind_eq_bind, Option.bind_some]
      split_ifs with habove hbelow hfound
      · exact ⟨buf, rfl⟩
      · exact ih _ _
      · exact ih _ _
      · rw [hi, Option.map_some, Option.bind_some]
        exact ih _ _

/-- **A lookup** in a version list answers, whatever the LSNs. -/
lemma ListLinks.getBlockReplayList (h : ListLinks eles head chain) (targetLsn : ℕ) :
    ∃ answer, GroundDB.getBlockReplayList head eles targetLsn = some answer := by
  obtain ⟨last, hlast⟩ :=
    Option.ne_none_iff_exists'.mp (mt List.getLast?_eq_none_iff.mp h.head_nonempty)
  obtain ⟨i, hi, hcase⟩ := lsnListFindLowerBound_total targetLsn h.head_nonempty
  obtain ⟨j, hj, -⟩ := lsnListFindLowerBound_total head.replayedLsn h.head_nonempty
  obtain ⟨older, holder⟩ :=
    olderLsn_total targetLsn h.links h.ele_nonempty h.links.length_le last.lsn
  have hcollect := collectEles_total targetLsn head.replayedLsn h.links h.ele_nonempty
    h.links.length_le
  unfold GroundDB.getBlockReplayList
  simp only [hlast, hi, hj, holder, Option.bind_eq_bind, Option.bind_some]
  split_ifs with h₁ h₂ h₃ h₄ h₅ h₆ h₇
  · exact ⟨_, rfl⟩
  · exact ⟨_, rfl⟩
  · obtain ⟨-, hlt⟩ := hcase.resolve_left h₄
    rw [List.getElem?_eq_getElem hlt]
    exact ⟨_, rfl⟩
  · exact ⟨_, rfl⟩
  · exact ⟨_, rfl⟩
  · exact ⟨_, rfl⟩
  · obtain ⟨buf, hbuf⟩ := hcollect true _
    exact ⟨_, by rw [hbuf]; rfl⟩
  · obtain ⟨buf, hbuf⟩ := hcollect false _
    exact ⟨_, by rw [hbuf]; rfl⟩

end Lists

/-! ## Walking a chain -/

/-- The heads from a pointer on, along `nextHead`. -/
def walkHeads (heads : Heap HashNodeHead) : ℕ → Ptr → Option (List HashNodeHead)
  | _, none => some []
  | 0, some _ => none
  | fuel + 1, some a => do
      let head ← heads.read a
      let rest ← walkHeads heads fuel head.nextHead
      some (head :: rest)

/-- The keys of a bucket, in the order of its chain. -/
def HashMap.bucketKeys (m : HashMap) (i : ℕ) : Option (List KeyType) :=
  (walkHeads m.heads m.heads.fresh (m.nodeList i)).map fun heads => heads.map HashNodeHead.key

/-- The keys of the heads of a bucket. -/
def keysOf (buckets : ℕ → HeadNodes) (i : ℕ) : List KeyType :=
  (buckets i).map fun x => x.2.key

lemma walkHeads_eq {heads : Heap HashNodeHead} {ok : Ptr → HashNodeHead → Prop} {pr p tl : Ptr}
    {l : HeadNodes} {fuel : ℕ}
    (hc : Chain HashNodeHead.nextHead ok heads pr p l tl none) (hfuel : l.length ≤ fuel) :
    walkHeads heads fuel p = some (l.map Prod.snd) := by
  induction l generalizing pr p fuel with
  | nil =>
      obtain ⟨rfl, _⟩ := hc
      cases fuel <;> rfl
  | cons x xs ih =>
      obtain ⟨a, n⟩ := x
      obtain ⟨rfl, hr, _, hrest⟩ := hc
      obtain ⟨fuel, rfl⟩ : ∃ k, fuel = k + 1 := ⟨fuel - 1, by simp at hfuel; omega⟩
      simp [walkHeads, hr, ih hrest (by simpa using hfuel)]

section Keys

variable {m m' : HashMap} {chainOf chainOf' : ℕ → EleNodes} {key : KeyType}
  {P : Heap HashNodeEle → HashNodeHead → EleNodes → Prop}
  {buckets buckets' : ℕ → HeadNodes} {i : ℕ}

lemma MapShape.bucketKeys (hs : MapShape P m buckets chainOf) (i : ℕ) :
    m.bucketKeys i = some (keysOf buckets i) := by
  obtain ⟨tl, hc⟩ := hs.bucket.chains i
  rw [HashMap.bucketKeys, walkHeads_eq hc hc.length_le, Option.map_some, List.map_map]
  rfl

lemma MapShape.mem_keysOf (hs : MapShape P m buckets chainOf) :
    key ∈ keysOf buckets i ↔
      (∃ a head, m.heads.read a = some head ∧ head.key = key) ∧ m.bucketPos key = i := by
  obtain ⟨tl, hc⟩ := hs.bucket.chains i
  constructor
  · intro hkey
    obtain ⟨⟨a, head⟩, hmem, rfl⟩ := List.mem_map.mp hkey
    have hr := hc.read hmem
    refine ⟨⟨a, head, hr, rfl⟩, ?_⟩
    rw [← (hs.placed a head hr).2]
    exact (hs.bucket.members i a head hr).mp (List.mem_map_of_mem hmem)
  · rintro ⟨⟨a, head, hr, rfl⟩, rfl⟩
    rw [← (hs.placed a head hr).2]
    have hmem := (hs.bucket.members head.bucket a head hr).mpr rfl
    obtain ⟨tl, hc⟩ := hs.bucket.chains head.bucket
    exact List.mem_map.mpr ⟨(a, head), hc.mem_of_read hmem hr, rfl⟩

lemma MapShape.keysOf_nodup (hs : MapShape P m buckets chainOf) (i : ℕ) :
    (keysOf buckets i).Nodup := by
  obtain ⟨tl, hc⟩ := hs.bucket.chains i
  refine List.Nodup.map_on ?_ (List.Nodup.of_map Prod.fst hc.nodup)
  rintro ⟨a, head⟩ ha ⟨b, head'⟩ hb hkey
  obtain rfl := hs.key_unique a b head head' (hc.read ha) (hc.read hb) hkey
  exact congrArg (Prod.mk a) (Option.some.inj ((hc.read ha).symm.trans (hc.read hb)))

/-- The key of the head at an address. -/
def keyAt (heads : Heap HashNodeHead) (a : ℕ) : Option KeyType :=
  (heads.read a).map HashNodeHead.key

lemma MapShape.keysOf_eq (hs : MapShape P m buckets chainOf) (i : ℕ) :
    (keysOf buckets i).map some = ((buckets i).map Prod.fst).map (keyAt m.heads) := by
  obtain ⟨tl, hc⟩ := hs.bucket.chains i
  rw [keysOf, List.map_map, List.map_map]
  refine List.map_congr_left fun x hx => ?_
  simp [keyAt, hc.read (show (x.1, x.2) ∈ buckets i from hx)]

lemma keysOf_congr (hs : MapShape P m buckets chainOf) (hs' : MapShape P m' buckets' chainOf')
    (haddr : (buckets' i).map Prod.fst = (buckets i).map Prod.fst)
    (hkey : ∀ a ∈ (buckets i).map Prod.fst, keyAt m'.heads a = keyAt m.heads a) :
    keysOf buckets' i = keysOf buckets i := by
  refine List.map_injective_iff.mpr (Option.some_injective _) ?_
  rw [hs'.keysOf_eq, hs.keysOf_eq, haddr]
  exact List.map_congr_left hkey

lemma SameCores.keyAt {heads heads' : Heap HashNodeHead} (h : SameCores heads heads') (a : ℕ) :
    keyAt heads' a = keyAt heads a := by
  have := congrArg (Option.map HashNodeHead.key) (h a)
  rwa [Option.map_map, Option.map_map] at this

/-- The head of the key has no `prevHead`. -/
def HashMap.NoPrev (m : HashMap) (key : KeyType) : Prop :=
  ∃ a head, m.heads.read a = some head ∧ head.key = key ∧ head.prevHead = none

lemma MapShape.noPrev_iff (hs : MapShape P m buckets chainOf) {a : ℕ} {head : HashNodeHead}
    (hr : m.heads.read a = some head) : m.NoPrev head.key ↔ head.prevHead = none := by
  constructor
  · rintro ⟨b, head', hr', hkey, hnone⟩
    obtain rfl := hs.key_unique b a head' head hr' hr hkey
    rw [← Option.some.inj (hr'.symm.trans hr)]
    exact hnone
  · exact fun hnone => ⟨a, head, hr, rfl, hnone⟩

/-- **What an access does to the chains**: the key goes to the front of its bucket, unless its head
has no `prevHead`. -/
structure Touched (m : HashMap) (buckets : ℕ → HeadNodes) (key : KeyType)
    (m' : HashMap) (buckets' : ℕ → HeadNodes) : Prop where
  bucketNum : m'.bucketNum = m.bucketNum
  others : ∀ i, i ≠ m.bucketPos key → keysOf buckets' i = keysOf buckets i
  stays : m.NoPrev key →
    keysOf buckets' (m.bucketPos key) = keysOf buckets (m.bucketPos key)
  moves : ¬m.NoPrev key →
    keysOf buckets' (m.bucketPos key) = key :: (keysOf buckets (m.bucketPos key)).erase key

lemma Touched.trans {m'' : HashMap} {buckets'' : ℕ → HeadNodes}
    (h : Touched m buckets key m' buckets') (hnum : m''.bucketNum = m'.bucketNum)
    (hkeys : ∀ i, keysOf buckets'' i = keysOf buckets' i) :
    Touched m buckets key m'' buckets'' where
  bucketNum := hnum.trans h.bucketNum
  others i hi := (hkeys i).trans (h.others i hi)
  stays hno := (hkeys _).trans (h.stays hno)
  moves hprev := (hkeys _).trans (h.moves hprev)

lemma map_erase_of_nodup {α β : Type*} [DecidableEq α] [BEq β] [LawfulBEq β] {f : α → β}
    {l : List α} {a : α} (h : (l.map f).Nodup) (ha : a ∈ l) :
    (l.erase a).map f = (l.map f).erase (f a) := by
  induction l with
  | nil => simp at ha
  | cons x l ih =>
      rw [List.map_cons, List.nodup_cons] at h
      by_cases hx : x = a
      · simp [hx]
      · have ha : a ∈ l := (List.mem_cons.mp ha).resolve_left (Ne.symm hx)
        have hfx : f x ≠ f a := fun heq => h.1 (heq ▸ List.mem_map_of_mem ha)
        rw [List.erase_cons_tail (by simpa using hx), List.map_cons, List.map_cons,
          List.erase_cons_tail (by simpa using hfx), ih h.2 ha]

lemma MapShape.moveToFront_touched (hP : ListProp P) (hs : MapShape P m buckets chainOf) {a : ℕ}
    {head : HashNodeHead} (hr : m.heads.read a = some head) :
    ∃ m' buckets', m.moveToFront a = some m' ∧ MapShape P m' buckets' chainOf ∧
      SameCores m.heads m'.heads ∧ m'.eles = m.eles ∧ Touched m buckets head.key m' buckets' := by
  obtain ⟨m', buckets', hrun, hs', hcore, heles, hnum, hothers, hhere⟩ := hs.moveToFront hP hr
  have hbucket : head.bucket = m.bucketPos head.key := (hs.placed a head hr).2
  rw [hbucket] at hothers hhere
  have hprev := hs.noPrev_iff hr
  refine ⟨m', buckets', hrun, hs', hcore, heles, hnum, fun i hi => ?_, fun hno => ?_,
    fun hmoves => ?_⟩
  · exact keysOf_congr hs hs' (hothers i hi) fun b _ => hcore.keyAt b
  · rw [if_pos (hprev.mp hno)] at hhere
    exact keysOf_congr hs hs' hhere fun b _ => hcore.keyAt b
  · rw [if_neg (mt hprev.mpr hmoves)] at hhere
    have hmem : a ∈ (buckets (m.bucketPos head.key)).map Prod.fst :=
      (hs.bucket.members _ a head hr).mpr hbucket
    have hkeys := hs.keysOf_eq (m.bucketPos head.key)
    have hnodup := (hs.keysOf_nodup (m.bucketPos head.key)).map (Option.some_injective _)
    have hat : keyAt m.heads a = some head.key := by
      simp [keyAt, hr]
    refine List.map_injective_iff.mpr (Option.some_injective _) ?_
    calc (keysOf buckets' (m.bucketPos head.key)).map some
        = (a :: ((buckets (m.bucketPos head.key)).map Prod.fst).erase a).map (keyAt m.heads) := by
          rw [hs'.keysOf_eq, hhere]
          exact List.map_congr_left fun b _ => hcore.keyAt b
      _ = some head.key ::
            (((buckets (m.bucketPos head.key)).map Prod.fst).map (keyAt m.heads)).erase
              (some head.key) := by
          rw [List.map_cons, hat, map_erase_of_nodup (hkeys ▸ hnodup) hmem, hat]
      _ = (head.key :: (keysOf buckets (m.bucketPos head.key)).erase head.key).map some := by
          rw [← hkeys, List.map_cons, List.map_erase (Option.some_injective _)]

/-- **`HashMapInsertKey`** accesses the key. -/
lemma MapShape.insertKey (hs : MapShape ListLinks m buckets chainOf) (key : KeyType) (lsn : ℕ)
    (pageNum : ℤ) (noEmptyFirstSlot : Bool) :
    ∃ m' inserted buckets' chainOf',
      hashMapInsertKey m key lsn pageNum noEmptyFirstSlot = some (m', inserted) ∧
      MapShape ListLinks m' buckets' chainOf' ∧ Touched m buckets key m' buckets' ∧
      ∃ a head, m'.heads.read a = some head ∧ head.key = key := by
  rcases hs.find_cases key with ⟨hfind, -, hnew⟩ | ⟨a, head, hfind, hr, rfl, -⟩
  · have hlist : ListLinks m.eles (newHead key (m.bucketPos key) lsn pageNum noEmptyFirstSlot
        (m.nodeList (m.bucketPos key))) [] := by
      refine ⟨⟨rfl, rfl⟩, ?_, by simp⟩
      unfold newHead
      split_ifs <;> simp
    obtain ⟨m', buckets', hrun, hs', hfresh, hcores, heles, hnum, hothers, hhere⟩ :=
      hs.createHead listLinks_listProp hlist hnew
    have hkeyAt : ∀ i, ∀ b ∈ (buckets i).map Prod.fst, keyAt m'.heads b = keyAt m.heads b := by
      intro i b hb
      obtain ⟨tl, hc⟩ := hs.bucket.chains i
      have hne : b ≠ m.heads.fresh := (hc.lt_fresh hb).ne
      have := congrArg (Option.map HashNodeHead.key) (hcores b hne)
      rwa [Option.map_map, Option.map_map] at this
    have hnot : key ∉ keysOf buckets (m.bucketPos key) := by
      rw [hs.mem_keysOf]
      rintro ⟨⟨a, head, hr, hkey⟩, -⟩
      exact hnew a head hr hkey
    refine ⟨m', true, buckets', _, by simp [hashMapInsertKey, hfind, hrun], hs',
      ⟨hnum, fun i hi => keysOf_congr hs hs' (hothers i hi) (hkeyAt i), ?_, fun _ => ?_⟩,
      _, _, hfresh, rfl⟩
    · rintro ⟨a, head, hr, hkey, -⟩
      exact absurd hkey (hnew a head hr)
    · rw [List.erase_of_not_mem hnot]
      refine List.map_injective_iff.mpr (Option.some_injective _) ?_
      rw [hs'.keysOf_eq, hhere, List.map_cons, List.map_cons, hs.keysOf_eq,
        List.map_congr_left (hkeyAt _)]
      simp [keyAt, hfresh, newHead]
  · obtain ⟨m₁, buckets₁, hrun₁, hs₁, hcore₁, heles₁, htouched⟩ :=
      hs.moveToFront_touched listLinks_listProp hr
    obtain ⟨head₁, hr₁, hfc⟩ := hcore₁.symm.read hr
    obtain ⟨head', eles', inserted, chain', hins, hext⟩ :=
      (hs₁.lists a head₁ hr₁).insertEntry lsn pageNum
    obtain ⟨heads', buckets', hw, hread, hs', haddr⟩ :=
      hs₁.update_list listLinks_listProp hr₁ hext.place hext.list hext.frame
    have hkey : head₁.key = head.key := by rw [core_fields hfc.symm]
    refine ⟨_, inserted, buckets', _, by simp [hashMapInsertKey, hfind, hrun₁, hr₁, hins, hw], hs',
      htouched.trans rfl fun i => keysOf_congr hs₁ hs' (haddr i) fun b _ => ?_, a, head', ?_, ?_⟩
    · simp only [keyAt, hread]
      split_ifs with hb
      · rw [hb, hr₁, Option.map_some, Option.map_some, hext.place.key]
      · rfl
    · rw [hread, if_pos rfl]
    · rw [hext.place.key, hkey]

/-- **`HashMapGetBlockReplayList`** accesses a key that has a head. -/
lemma MapShape.getBlockReplayList (hs : MapShape ListLinks m buckets chainOf) (key : KeyType)
    (targetLsn : ℕ) :
    (m.find key = some none ∧ (∀ a head, m.heads.read a = some head → head.key ≠ key) ∧
      hashMapGetBlockReplayList m key targetLsn = some (m, ⟨none, []⟩)) ∨
    ∃ a head m' answer buckets', m.find key = some (some a) ∧ m.heads.read a = some head ∧
      head.key = key ∧ hashMapGetBlockReplayList m key targetLsn = some (m', answer) ∧
      MapShape ListLinks m' buckets' chainOf ∧ Touched m buckets key m' buckets' ∧
      SameCores m.heads m'.heads := by
  rcases hs.find_cases key with ⟨hfind, -, hnew⟩ | ⟨a, head, hfind, hr, rfl, -⟩
  · exact .inl ⟨hfind, hnew, by simp [hashMapGetBlockReplayList, hfind]⟩
  · obtain ⟨m', buckets', hrun, hs', hcore, heles, htouched⟩ :=
      hs.moveToFront_touched listLinks_listProp hr
    obtain ⟨head', hr', hfc⟩ := hcore.symm.read hr
    obtain ⟨answer, hanswer⟩ := (hs'.lists a head' hr').getBlockReplayList targetLsn
    exact .inr ⟨a, head, m', answer, buckets', hfind, hr, rfl,
      by simp [hashMapGetBlockReplayList, hfind, hrun, hr', hanswer], hs', htouched, hcore⟩

/-- Whether an access to the key leaves it first in its bucket: the key is new, or its head has a
`prevHead` and will be moved, or its head is the first one. -/
def HashMap.comesFirst (m : HashMap) (key : KeyType) : Option Bool := do
  match ← m.find key with
  | none => some true
  | some iter => do
      let head ← m.heads.read iter
      some (head.prevHead.isSome || m.nodeList head.bucket == some iter)

lemma MapShape.comesFirst_cases (hs : MapShape P m buckets chainOf) (key : KeyType) :
    (m.comesFirst key = some true ∧
      (¬m.NoPrev key ∨ ∃ rest, keysOf buckets (m.bucketPos key) = key :: rest)) ∨
    (m.comesFirst key = some false ∧ m.NoPrev key ∧
      ∃ y rest, keysOf buckets (m.bucketPos key) = y :: rest ∧ key ∈ rest) := by
  rcases hs.find_cases key with ⟨hfind, -, hnew⟩ | ⟨a, head, hfind, hr, rfl, -⟩
  · refine .inl ⟨by simp [HashMap.comesFirst, hfind], .inl ?_⟩
    rintro ⟨a, head, hr, hkey, -⟩
    exact hnew a head hr hkey
  cases hprev : head.prevHead with
  | some prev =>
      refine .inl ⟨by simp [HashMap.comesFirst, hfind, hr, hprev], .inl ?_⟩
      rw [hs.noPrev_iff hr, hprev]
      simp
  | none =>
      have hbucket : head.bucket = m.bucketPos head.key := (hs.placed a head hr).2
      obtain ⟨tl, hc⟩ := hs.bucket.chains (m.bucketPos head.key)
      have hmem := hc.mem_of_read ((hs.bucket.members _ a head hr).mpr hbucket) hr
      -- The chain is not empty, so that `nodeList` points to its first head.
      cases hl : buckets (m.bucketPos head.key) with
      | nil => simp [hl] at hmem
      | cons x rest =>
          obtain ⟨b, first⟩ := x
          rw [hl] at hc hmem
          have hnode : m.nodeList head.bucket = some b := hbucket ▸ hc.1
          by_cases hb : b = a
          · subst hb
            obtain rfl : first = head := Option.some.inj (hc.2.1.symm.trans hr)
            exact .inl ⟨by simp [HashMap.comesFirst, hfind, hr, hnode],
              .inr ⟨rest.map fun x => x.2.key, by simp [keysOf, hl]⟩⟩
          · have hrest : (a, head) ∈ rest :=
              (List.mem_cons.mp hmem).resolve_left fun h => hb (congrArg Prod.fst h).symm
            exact .inr ⟨by simp [HashMap.comesFirst, hfind, hr, hprev, hnode, hb],
              (hs.noPrev_iff hr).mpr hprev, first.key, rest.map fun x => x.2.key,
              by simp [keysOf, hl], List.mem_map.mpr ⟨(a, head), hrest, rfl⟩⟩

/-- An access adds its key to the chains, and removes none. -/
lemma Touched.mem (hs : MapShape P m buckets chainOf) (h : Touched m buckets key m' buckets')
    (k : KeyType) : k ∈ keysOf buckets' (m.bucketPos k) ↔
      k = key ∨ k ∈ keysOf buckets (m.bucketPos k) := by
  by_cases hk : m.bucketPos k = m.bucketPos key
  · rw [hk]
    by_cases hno : m.NoPrev key
    · obtain ⟨a, head, hr, hkey, -⟩ := id hno
      have hmem : key ∈ keysOf buckets (m.bucketPos key) :=
        hs.mem_keysOf.mpr ⟨⟨a, head, hr, hkey⟩, rfl⟩
      rw [h.stays hno]
      exact ⟨.inr, fun h => h.elim (fun h => h ▸ hmem) id⟩
    · rw [h.moves hno, List.mem_cons]
      by_cases hkey : k = key
      · simp [hkey]
      · rw [List.mem_erase_of_ne hkey]
  · rw [h.others _ hk]
    have hkey : k ≠ key := fun h => hk (congrArg m.bucketPos h)
    simp [hkey]

/-- Where the key comes first, it is as if it had been moved to the front. -/
lemma Touched.front (hs : MapShape P m buckets chainOf) (h : Touched m buckets key m' buckets')
    (hfirst : m.comesFirst key = some true) : keysOf buckets' (m.bucketPos key) =
      key :: (keysOf buckets (m.bucketPos key)).erase key := by
  by_cases hno : m.NoPrev key
  · rcases hs.comesFirst_cases key with ⟨-, hno' | ⟨rest, hrest⟩⟩ | ⟨hfalse, -⟩
    · exact absurd hno hno'
    · rw [h.stays hno, hrest, List.erase_cons_head]
    · simp [hfalse] at hfirst
  · exact h.moves hno

end Keys

/-! ## Runs -/

/-- A call that may access a key. -/
inductive AccessOp
  | insert (key : KeyType) (lsn : ℕ) (pageNum : ℤ) (noEmptyFirstSlot : Bool)
  | lookup (key : KeyType) (targetLsn : ℕ)

/-- The key a call is about. -/
def AccessOp.key : AccessOp → KeyType
  | .insert key _ _ _ => key
  | .lookup key _ => key

/-- The map, and the keys accessed so far, the last one at the end. -/
structure AccessState where
  map : HashMap
  log : List KeyType

/-- An empty map, nothing accessed. -/
def AccessState.init (bucketNum : ℕ) (hpos : 0 < bucketNum) : AccessState :=
  ⟨hashMapInit bucketNum hpos, []⟩

/-- One call.  An insertion accesses its key, a lookup only if it finds it. -/
def accessStep (s : AccessState) : AccessOp → Option AccessState
  | .insert key lsn pageNum noEmptyFirstSlot => do
      let (m, _) ← hashMapInsertKey s.map key lsn pageNum noEmptyFirstSlot
      some ⟨m, s.log ++ [key]⟩
  | .lookup key targetLsn => do
      let found ← s.map.find key
      let (m, _) ← hashMapGetBlockReplayList s.map key targetLsn
      some ⟨m, if found.isSome then s.log ++ [key] else s.log⟩

/-- One step of a run. -/
def AccessStep (s : AccessState) (op : AccessOp) (s' : AccessState) : Prop :=
  accessStep s op = some s'

/-- The keys inserted in a run. -/
def insertedKeys (tr : List AccessOp) : List KeyType :=
  tr.filterMap fun
    | .insert key _ _ _ => some key
    | .lookup _ _ => none

section Step

variable {s s' : AccessState} {op : AccessOp} {buckets : ℕ → HeadNodes}
  {chainOf : ℕ → EleNodes}

/-- What a call does: it looks for a key that has no head and changes nothing, or it accesses its
key. -/
def Accessed (s : AccessState) (buckets : ℕ → HeadNodes) (op : AccessOp)
    (s' : AccessState) : Prop :=
  (s' = s ∧ s.map.find op.key = some none ∧ insertedKeys [op] = []) ∨
  ∃ buckets' chainOf', MapShape ListLinks s'.map buckets' chainOf' ∧
    Touched s.map buckets op.key s'.map buckets' ∧ s'.log = s.log ++ [op.key] ∧
    (op.key ∈ insertedKeys [op] ∨
      insertedKeys [op] = [] ∧ op.key ∈ keysOf buckets (s.map.bucketPos op.key))

/-- **One step.**  Every call returns. -/
lemma accessStep_spec (hs : MapShape ListLinks s.map buckets chainOf) (op : AccessOp) :
    ∃ s', AccessStep s op s' ∧ Accessed s buckets op s' := by
  cases op with
  | insert key lsn pageNum noEmptyFirstSlot =>
      obtain ⟨m', inserted, buckets', chainOf', hrun, hs', htouched, -⟩ :=
        hs.insertKey key lsn pageNum noEmptyFirstSlot
      exact ⟨⟨m', s.log ++ [key]⟩, by simp [AccessStep, accessStep, hrun],
        .inr ⟨buckets', chainOf', hs', htouched, rfl, .inl (by simp [insertedKeys, AccessOp.key])⟩⟩
  | lookup key targetLsn =>
      rcases hs.getBlockReplayList key targetLsn with
        ⟨hfind, -, hrun⟩ | ⟨a, head, m', answer, buckets', hfind, hr, hkey, hrun, hs', htouched, -⟩
      · exact ⟨s, by simp [AccessStep, accessStep, hfind, hrun], .inl ⟨rfl, hfind, rfl⟩⟩
      · exact ⟨⟨m', s.log ++ [key]⟩, by simp [AccessStep, accessStep, hfind, hrun],
          .inr ⟨buckets', chainOf, hs', htouched, rfl,
            .inr ⟨rfl, hs.mem_keysOf.mpr ⟨⟨a, head, hr, hkey⟩, rfl⟩⟩⟩⟩

lemma AccessStep.accessed (h : AccessStep s op s') (hs : MapShape ListLinks s.map buckets chainOf) :
    Accessed s buckets op s' := by
  obtain ⟨s'', hstep, hspec⟩ := accessStep_spec hs op
  obtain rfl : s'' = s' := Option.some.inj (hstep.symm.trans h)
  exact hspec

/-- The chains hold the keys inserted so far. -/
structure HoldsInserted (n : ℕ) (tr : List AccessOp) (m : HashMap)
    (buckets : ℕ → HeadNodes) (chainOf : ℕ → EleNodes) : Prop where
  shape : MapShape ListLinks m buckets chainOf
  bucketNum : m.bucketNum = n
  mem : ∀ key, key ∈ keysOf buckets (m.bucketPos key) ↔ key ∈ insertedKeys tr

lemma HoldsInserted.step {n : ℕ} {tr : List AccessOp} (h : HoldsInserted n tr s.map buckets chainOf)
    (hstep : AccessStep s op s') :
    ∃ buckets' chainOf', HoldsInserted n (tr ++ [op]) s'.map buckets' chainOf' := by
  have happ : ∀ key, key ∈ insertedKeys (tr ++ [op]) ↔
      key ∈ insertedKeys tr ∨ key ∈ insertedKeys [op] := by
    simp [insertedKeys]
  rcases hstep.accessed h.shape with ⟨rfl, -, hnil⟩ | ⟨buckets', chainOf', hs', ht, -, hop⟩
  · exact ⟨buckets, chainOf, h.shape, h.bucketNum, fun key => by simp [happ, hnil, h.mem]⟩
  · refine ⟨buckets', chainOf', hs', ht.bucketNum.trans h.bucketNum, fun key => ?_⟩
    have hpos : s'.map.bucketPos key = s.map.bucketPos key := by
      rw [HashMap.bucketPos, HashMap.bucketPos, ht.bucketNum]
    rw [hpos, ht.mem h.shape, h.mem, happ]
    rcases hop with hin | ⟨hnil, hold⟩
    · have : key ∈ insertedKeys [op] ↔ key = op.key := by
        cases op <;> simp [insertedKeys, AccessOp.key] at hin ⊢
      rw [this, or_comm]
    · rw [hnil]
      rw [h.mem] at hold
      simp only [List.not_mem_nil, or_false, or_iff_right_iff_imp]
      exact fun hkey => hkey ▸ hold

/-- **A run** keeps the inserted keys in the chains. -/
lemma run_holdsInserted {n : ℕ} {hn : 0 < n} {tr : List AccessOp}
    (h : Lts.Run AccessStep (.init n hn) tr s) :
    ∃ buckets chainOf, HoldsInserted n tr s.map buckets chainOf := by
  refine h.history_invariant
    (I := fun tr s => ∃ buckets chainOf, HoldsInserted n tr s.map buckets chainOf) ?_ ?_
  · exact ⟨fun _ => [], fun _ => [], mapShape_init _ n hn _, rfl, by simp [keysOf, insertedKeys]⟩
  · rintro tr t op u - ⟨buckets, chainOf, hI⟩ hstep
    exact hI.step hstep

end Step

/-! ## Results -/

/-- **Bucket chain integrity.**  After any insertions and lookups, of any keys: following `nextHead`
from the start of a bucket ends, and meets every key inserted into that bucket, each once; a search
for a key finds a head with that key if the key was inserted, and null if not; and every further
call returns. -/
theorem bucket_chain_integrity {n : ℕ} {hn : 0 < n} {tr : List AccessOp} {s : AccessState}
    (hrun : Lts.Run AccessStep (.init n hn) tr s) :
    (∀ i, ∃ keys, s.map.bucketKeys i = some keys ∧ keys.Nodup ∧
      ∀ key, key ∈ keys ↔ key ∈ insertedKeys tr ∧ (hashMapInit n hn).bucketPos key = i) ∧
    (∀ key, ∃ p, s.map.find key = some p ∧ (p.isSome ↔ key ∈ insertedKeys tr) ∧
      ∀ a, p = some a → ∃ head, s.map.heads.read a = some head ∧ head.key = key) ∧
    ∀ op, ∃ s', AccessStep s op s' := by
  obtain ⟨buckets, chainOf, h⟩ := run_holdsInserted hrun
  have hpos : ∀ key, (hashMapInit n hn).bucketPos key = s.map.bucketPos key := fun key => by
    rw [HashMap.bucketPos, HashMap.bucketPos, h.bucketNum, hashMapInit]
  refine ⟨fun i => ⟨_, h.shape.bucketKeys i, h.shape.keysOf_nodup i, fun key => ?_⟩,
    fun key => ?_, fun op => ?_⟩
  · rw [hpos, ← h.mem, h.shape.mem_keysOf, h.shape.mem_keysOf]
    tauto
  · rw [← h.mem, h.shape.mem_keysOf]
    rcases h.shape.find_cases key with ⟨hfind, -, hnew⟩ | ⟨a, head, hfind, hr, hkey, -⟩
    · refine ⟨none, hfind, ?_, by simp⟩
      simp only [Option.isSome_none, Bool.false_eq_true, false_iff]
      rintro ⟨⟨a, head, hr, hkey⟩, -⟩
      exact hnew a head hr hkey
    · refine ⟨some a, hfind, by simpa using ⟨a, head, hr, hkey⟩, fun b hb => ?_⟩
      obtain rfl : a = b := Option.some.inj hb
      exact ⟨head, hr, hkey⟩
  · obtain ⟨s', hstep, -⟩ := accessStep_spec h.shape op
    exact ⟨s', hstep⟩

/-- Three blocks of a relation in one bucket.  The second lookup finds a head whose `prevHead` is
null although it is not the first one. -/
theorem bucket_chain_integrity_three_blocks :
    ∃ s, Lts.Run AccessStep (.init 1 (by decide))
        [.insert (blockKey 0) 10 0 true, .insert (blockKey 1) 20 0 true,
          .insert (blockKey 2) 30 0 true, .lookup (blockKey 0) 40,
          .lookup (blockKey 2) 40, .lookup (blockKey 1) 40] s ∧
      s.map.bucketKeys 0 = some [blockKey 1, blockKey 0,
        blockKey 2] ∧
      ∀ op, ∃ s', AccessStep s op s' := by
  have hrun : ∃ s, Lts.Run AccessStep (.init 1 (by decide))
        [.insert (blockKey 0) 10 0 true, .insert (blockKey 1) 20 0 true,
          .insert (blockKey 2) 30 0 true, .lookup (blockKey 0) 40,
          .lookup (blockKey 2) 40, .lookup (blockKey 1) 40] s ∧
      s.map.bucketKeys 0 = some [blockKey 1, blockKey 0,
        blockKey 2] :=
    ⟨_, .cons rfl (.cons rfl (.cons rfl (.cons rfl (.cons rfl (.cons rfl .nil))))), rfl⟩
  obtain ⟨s, hrun, hkeys⟩ := hrun
  exact ⟨s, hrun, hkeys, (bucket_chain_integrity hrun).2.2⟩

/-- Every bucket is in the order of the last accesses, most recent first. -/
def AccessState.InRecencyOrder (s : AccessState) : Prop :=
  ∀ i, ∃ keys, s.map.bucketKeys i = some keys ∧ Recency.Ordered s.log keys

section Order

variable {s s' : AccessState} {op : AccessOp} {buckets : ℕ → HeadNodes}
  {chainOf : ℕ → EleNodes}

lemma MapShape.inRecencyOrder_iff (hs : MapShape ListLinks s.map buckets chainOf) :
    s.InRecencyOrder ↔ ∀ i, Recency.Ordered s.log (keysOf buckets i) := by
  refine forall_congr' fun i => ?_
  rw [hs.bucketKeys i]
  simp

/-- **One step** from chains in recency order leads to chains in recency order just if the key comes
first. -/
lemma AccessStep.inRecencyOrder_iff (h : AccessStep s op s')
    (hs : MapShape ListLinks s.map buckets chainOf) (ho : s.InRecencyOrder) :
    s'.InRecencyOrder ↔ s.map.comesFirst op.key = some true := by
  rcases h.accessed hs with ⟨rfl, hfind, -⟩ | ⟨buckets', chainOf', hs', ht, hlog, -⟩
  · exact ⟨fun _ => by simp [HashMap.comesFirst, hfind], fun _ => ho⟩
  rw [hs.inRecencyOrder_iff] at ho
  rw [hs'.inRecencyOrder_iff, hlog]
  constructor
  · intro ho'
    rcases hs.comesFirst_cases op.key with ⟨hfirst, -⟩ | ⟨-, hno, y, rest, hkeys, hin⟩
    · exact hfirst
    · have := ho' (s.map.bucketPos op.key)
      rw [ht.stays hno, hkeys] at this
      exact absurd this (Recency.not_ordered hin)
  · intro hfirst i
    by_cases hi : i = s.map.bucketPos op.key
    · rw [hi, ht.front hs hfirst]
      exact (ho _).moveToFront (hs.keysOf_nodup _)
    · rw [ht.others i hi]
      exact (ho i).append fun hin => hi (hs.mem_keysOf.mp hin).2.symm

end Order

/-- **Recency order.**  In a run in which every key accessed comes first in its bucket by that (its
head is the first one, has a `prevHead`, or is new) the chains are in the order of the last
accesses, most recent first; and the next call keeps that order just if its key comes first. -/
theorem bucket_recency_order {n : ℕ} {hn : 0 < n} {tr : List AccessOp} {s : AccessState}
    (hrun : Lts.Run (Lts.Guarded AccessStep fun s op => s.map.comesFirst op.key = some true)
      (.init n hn) tr s) :
    s.InRecencyOrder ∧ ∀ op s', AccessStep s op s' →
      (s'.InRecencyOrder ↔ s.map.comesFirst op.key = some true) := by
  have ho : s.InRecencyOrder := by
    have key : (∃ tr, Lts.Run AccessStep (.init n hn) tr s) ∧ s.InRecencyOrder := by
      refine hrun.invariant
        (I := fun s => (∃ tr, Lts.Run AccessStep (.init n hn) tr s) ∧ s.InRecencyOrder) ?_ ?_
      · exact ⟨⟨[], .nil⟩, fun i => ⟨[], rfl, List.Pairwise.nil⟩⟩
      · rintro t op u ⟨⟨tr, ht⟩, ho⟩ ⟨hfirst, hstep⟩
        obtain ⟨buckets, chainOf, h⟩ := run_holdsInserted ht
        exact ⟨⟨_, ht.snoc hstep⟩, (hstep.inRecencyOrder_iff h.shape ho).mpr hfirst⟩
    exact key.2
  obtain ⟨buckets, chainOf, h⟩ := run_holdsInserted hrun.of_guarded
  exact ⟨ho, fun op s' hstep => hstep.inRecencyOrder_iff h.shape ho⟩

/-- Two blocks in one bucket, and a lookup of the first. -/
theorem bucket_recency_order_two_blocks :
    ∃ s, Lts.Run (Lts.Guarded AccessStep fun s op => s.map.comesFirst op.key = some true)
        (.init 1 (by decide))
        [.insert (blockKey 0) 10 0 true, .insert (blockKey 1) 20 0 true,
          .lookup (blockKey 0) 40] s ∧
      s.map.bucketKeys 0 =
        some [blockKey 0, blockKey 1] ∧
      s.InRecencyOrder := by
  have hrun : ∃ s, Lts.Run
        (Lts.Guarded AccessStep fun s op => s.map.comesFirst op.key = some true)
        (.init 1 (by decide))
        [.insert (blockKey 0) 10 0 true, .insert (blockKey 1) 20 0 true,
          .lookup (blockKey 0) 40] s ∧
      s.map.bucketKeys 0 =
        some [blockKey 0, blockKey 1] :=
    ⟨_, .cons ⟨rfl, rfl⟩ (.cons ⟨rfl, rfl⟩ (.cons ⟨rfl, rfl⟩ .nil)), rfl⟩
  obtain ⟨s, hrun, hkeys⟩ := hrun
  exact ⟨s, hrun, hkeys, (bucket_recency_order hrun).1⟩

/-- The lookup of the first block moves it to the front and leaves the `prevHead` of the second one
null.  A lookup of the second block then finds it, takes it for the first one and does not move it:
the block accessed last stays behind the other. -/
theorem second_access_stays_behind :
    ∃ s, Lts.Run AccessStep (.init 1 (by decide))
        [.insert (blockKey 0) 10 0 true, .insert (blockKey 1) 20 0 true,
          .lookup (blockKey 0) 40, .lookup (blockKey 1) 40] s ∧
      s.log.getLast? = some (blockKey 1) ∧
      s.map.bucketKeys 0 =
        some [blockKey 0, blockKey 1] ∧
      ¬s.InRecencyOrder := by
  refine ⟨_, .cons rfl (.cons rfl (.cons rfl (.cons rfl .nil))), rfl, rfl, fun h => ?_⟩
  obtain ⟨keys, hkeys, ho⟩ := h 0
  obtain rfl := Option.some.inj hkeys
  exact Recency.not_ordered List.mem_cons_self ho

end GroundDB
