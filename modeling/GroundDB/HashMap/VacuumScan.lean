import GroundDB.Lib.Positions
import GroundDB.HashMap.Runs

/-!
# A scan of a bucket by the vacuumer

`BackgroundHashMapCleanRocksdb` goes through the chain of a bucket in batches of `ITER_BATCH_SIZE`
heads.  The bucket lock is held while a batch is collected and released while its heads are
replayed.  Before each batch the loop skips the heads of the batches so far, but it does so from
where it stands, not from the start of the chain.  So it skips heads it has never looked at:
of a chain it sees the positions 0 to 9, 20 to 29, 50 to 59, 90 to 99 and so on (`Scanned`).

* `vacuum_scan_coverage`: a scan ends; it considers no head twice, and it considers every head that
  has something to replay just if all of these stand at such positions.
* `eleventh_head_not_considered`: a chain of eleven heads.
-/

namespace GroundDB

open PtrHeap

/-! ## The scan -/

/-- `ITER_BATCH_SIZE`. -/
def iterBatchSize : ℕ := 10

/-- What becomes of a head that was collected: somebody else holds its lock, it was vacuumed less
than `ITER_HEAD_INTERVAL` seconds ago, or it is replayed. -/
inductive Attempt
  | lockHeld
  | tooEarly
  | replayed

/-- Skipping heads; the loop goes on, to no effect, at the end of the chain. -/
def skipHeads (heads : Heap HashNodeHead) : ℕ → Ptr → Option Ptr
  | 0, iter => some iter
  | _ + 1, none => some none
  | n + 1, some a => do
      let head ← heads.read a
      skipHeads heads n head.nextHead

/-- Collecting the heads of a batch in `headNodes`, for the remaining turns of the loop.  Returns
`iter`, `headNodes` and `finishIterThisBucket`. -/
def collectHeads (heads : Heap HashNodeHead) :
    ℕ → Ptr → Filled ℕ iterBatchSize → Option (Ptr × Filled ℕ iterBatchSize × Bool)
  | 0, iter, headNodes => some (iter, headNodes, false)
  | _ + 1, none, headNodes => some (none, headNodes, true)
  | n + 1, some a, headNodes => do
      let head ← heads.read a
      let headNodes ←
        if head.replayedLsn < head.maxLsn then headNodes.push a else some headNodes
      collectHeads heads n head.nextHead headNodes

/-- The map after an attempt at a head. -/
def Attempt.run (m : HashMap) (a : ℕ) : Attempt → Option HashMap
  | .lockHeld => some m
  | .tooEarly => some m
  | .replayed => (backgroundReplay m a).map Prod.fst

/-- The loop over the heads of a batch, from the `i`th on. -/
def replayHeads (outcome : ℕ → Attempt) : ℕ → List ℕ → HashMap → Option HashMap
  | _, [], m => some m
  | i, a :: headNodes, m => do
      let m ← (outcome i).run m a
      replayHeads outcome (i + 1) headNodes m

/-- The local variables of the scan, and the heads that were put into `headNodes` so far. -/
structure ScanState where
  map : HashMap
  iter : Ptr
  currentFinishHeadNum : ℕ
  considered : List ℕ

/-- The loop over the batches of a bucket.  What becomes of the heads is given by `outcome`, for
each value of `currentFinishHeadNum` and each place in `headNodes`. -/
def scanLoop (outcome : ℕ → ℕ → Attempt) : ℕ → ScanState → Option ScanState
  | 0, _ => none
  | fuel + 1, s => do
      let iter ← skipHeads s.map.heads s.currentFinishHeadNum s.iter
      let (iter, headNodes, finishIterThisBucket) ←
        collectHeads s.map.heads iterBatchSize iter .empty
      let map ← replayHeads (outcome s.currentFinishHeadNum) 0 headNodes.toList s.map
      let s := ⟨map, iter, s.currentFinishHeadNum + iterBatchSize, s.considered ++ headNodes.toList⟩
      if finishIterThisBucket then some s else scanLoop outcome fuel s

/-- One full scan of a bucket: the map after it, and the heads it considered. -/
def scanBucket (outcome : ℕ → ℕ → Attempt) (m : HashMap) (bucket : ℕ) :
    Option (HashMap × List ℕ) :=
  (scanLoop outcome (m.heads.fresh + 1) ⟨m, m.nodeList bucket, 0, []⟩).map fun s =>
    (s.map, s.considered)

/-! ## The positions it looks at -/

/-- Where the batch `k` starts: `10 * k` positions are skipped before it, and each batch before it
has skipped fewer and looked at ten. -/
def batchStart (k : ℕ) : ℕ := 5 * k * (k + 3)

/-- The positions in the chain that are in some batch. -/
def Scanned (j : ℕ) : Prop := ∃ k, batchStart k ≤ j ∧ j < batchStart k + iterBatchSize

lemma le_batchStart (k : ℕ) : k ≤ batchStart k := by
  unfold batchStart
  nlinarith

instance : DecidablePred Scanned := fun j =>
  decidable_of_iff (∃ k < j + 1, batchStart k ≤ j ∧ j < batchStart k + iterBatchSize)
    ⟨fun ⟨k, _, h⟩ => ⟨k, h⟩, fun ⟨k, h⟩ => ⟨k, Nat.lt_succ_of_le ((le_batchStart k).trans h.1), h⟩⟩

lemma batchStart_mono {k k' : ℕ} (h : k ≤ k') : batchStart k ≤ batchStart k' := by
  unfold batchStart
  gcongr

lemma not_scanned_of_gap {k j : ℕ} (hlow : 5 * k * (k + 1) ≤ j) (hhigh : j < batchStart k) :
    ¬Scanned j := by
  rintro ⟨k', hstart, hend⟩
  rcases Nat.lt_or_ge k' k with hlt | hge
  · obtain ⟨k, rfl⟩ : ∃ i, k = i + 1 := ⟨k - 1, by omega⟩
    have hmono := batchStart_mono (Nat.le_of_lt_succ hlt)
    have : batchStart k + iterBatchSize = 5 * (k + 1) * (k + 1 + 1) := by
      unfold batchStart iterBatchSize
      ring
    omega
  · exact absurd (batchStart_mono hge) (by omega)

/-! ## Following the scan -/

section Scan

variable {heads heads' : Heap HashNodeHead} {p : Ptr} {l : HeadNodes}
  {m : HashMap} {chainOf : ℕ → EleNodes} {outcome : ℕ → ℕ → Attempt}

/-- From a pointer on, `nextHead` leads through these heads to the end of a chain. -/
def HeadsFrom (heads : Heap HashNodeHead) (p : Ptr) (l : HeadNodes) : Prop :=
  ∃ pr tl, Chain HashNodeHead.nextHead HeadBack heads pr p l tl none

lemma HeadsFrom.nil (h : HeadsFrom heads p []) : p = none := by
  obtain ⟨pr, tl, hc⟩ := h
  exact hc.1

lemma HeadsFrom.cons {x : ℕ × HashNodeHead} (h : HeadsFrom heads p (x :: l)) :
    p = some x.1 ∧ heads.read x.1 = some x.2 ∧ HeadsFrom heads x.2.nextHead l := by
  obtain ⟨pr, tl, hp, hr, -, hc⟩ := h
  exact ⟨hp, hr, _, _, hc⟩

/-- The heads that have something to replay. -/
def pendingHeads (l : HeadNodes) : List ℕ :=
  (l.filter fun x => x.2.replayedLsn < x.2.maxLsn).map Prod.fst

lemma pendingHeads_append (l₁ l₂ : HeadNodes) :
    pendingHeads (l₁ ++ l₂) = pendingHeads l₁ ++ pendingHeads l₂ := by
  simp [pendingHeads]

lemma mem_pendingHeads {a : ℕ} : a ∈ pendingHeads l ↔
    ∃ head, (a, head) ∈ l ∧ head.replayedLsn < head.maxLsn := by
  simp [pendingHeads]

lemma pendingHeads_sublist : (pendingHeads l).Sublist (l.map Prod.fst) :=
  List.filter_sublist.map Prod.fst

lemma skipHeads_spec (n : ℕ) (h : HeadsFrom heads p l) :
    ∃ p', skipHeads heads n p = some p' ∧ HeadsFrom heads p' (l.drop n) := by
  induction n generalizing p l with
  | zero => exact ⟨p, rfl, h⟩
  | succ n ih =>
      cases l with
      | nil =>
          obtain rfl := h.nil
          exact ⟨none, rfl, h⟩
      | cons x l =>
          obtain ⟨rfl, hr, hrest⟩ := h.cons
          obtain ⟨p', hskip, h'⟩ := ih hrest
          exact ⟨p', by simp [skipHeads, hr, hskip], h'⟩

/-- A batch are the next heads that have something to replay; the array has room for them. -/
lemma collectHeads_spec (n : ℕ) (h : HeadsFrom heads p l) (headNodes : Filled ℕ iterBatchSize)
    (hroom : headNodes.toList.length + n ≤ iterBatchSize) :
    ∃ p' headNodes', collectHeads heads n p headNodes =
        some (p', headNodes', decide (l.length < n)) ∧
      HeadsFrom heads p' (l.drop n) ∧
      headNodes'.toList = headNodes.toList ++ pendingHeads (l.take n) := by
  induction n generalizing p l headNodes with
  | zero => exact ⟨p, headNodes, rfl, h, by simp [pendingHeads]⟩
  | succ n ih =>
      cases l with
      | nil =>
          obtain rfl := h.nil
          exact ⟨none, headNodes, by simp [collectHeads], h, by simp [pendingHeads]⟩
      | cons x l =>
          obtain ⟨rfl, hr, hrest⟩ := h.cons
          by_cases hpending : x.2.replayedLsn < x.2.maxLsn
          · obtain ⟨nodes, hpush, hnodes⟩ := headNodes.push_spec (by omega) x.1
            obtain ⟨p', headNodes', hcol, h', hres⟩ :=
              ih hrest nodes (by rw [hnodes, List.length_append, List.length_singleton]; omega)
            refine ⟨p', headNodes', by simp [collectHeads, hr, hpending, hpush, hcol], h', ?_⟩
            rw [hres, hnodes]
            simp [pendingHeads, hpending]
          · obtain ⟨p', headNodes', hcol, h', hres⟩ :=
              ih hrest headNodes (by omega)
            refine ⟨p', headNodes', by simp [collectHeads, hr, hpending, hcol], h', ?_⟩
            rw [hres]
            simp [pendingHeads, hpending]

/-- An attempt at one head touches no other head. -/
lemma Attempt.run_spec (attempt : Attempt) (hm : MapInv m chainOf) {a : ℕ}
    (hread : (m.heads.read a).isSome) :
    ∃ m' chainOf', attempt.run m a = some m' ∧ MapInv m' chainOf' ∧
      (m'.heads.read a).isSome ∧ ∀ x, x ≠ a → m'.heads.read x = m.heads.read x := by
  cases attempt with
  | lockHeld => exact ⟨m, chainOf, rfl, hm, hread, fun _ _ => rfl⟩
  | tooEarly => exact ⟨m, chainOf, rfl, hm, hread, fun _ _ => rfl⟩
  | replayed =>
      obtain ⟨head, hr⟩ := Option.isSome_iff_exists.mp hread
      obtain ⟨head', eles', lsnList, k, hrun, hrep⟩ := replayHeadNode_spec (hm.list hr)
      obtain ⟨heads', hw, -, hread'⟩ := Heap.write_spec hr head'
      have hcall : backgroundReplay m a =
          some ({ m with heads := heads', eles := eles' }, lsnList) := by
        simp [backgroundReplay, hr, hrun, hw]
      obtain ⟨m', chainOf', _, _, _, hcall', hup, -⟩ := backgroundReplay_spec hm hr
      obtain ⟨rfl, -⟩ := Prod.mk.inj (Option.some.inj (hcall'.symm.trans hcall))
      exact ⟨_, chainOf', by simp [Attempt.run, hcall], hup.inv, by simp [hread'],
        fun x hx => (hread' x).trans (if_neg hx)⟩

lemma replayHeads_spec (outcome : ℕ → Attempt) (i : ℕ) {nodes : List ℕ} (hm : MapInv m chainOf)
    (hread : ∀ a ∈ nodes, (m.heads.read a).isSome) :
    ∃ m' chainOf', replayHeads outcome i nodes m = some m' ∧ MapInv m' chainOf' ∧
      ∀ x, x ∉ nodes → m'.heads.read x = m.heads.read x := by
  induction nodes generalizing i m chainOf with
  | nil => exact ⟨m, chainOf, rfl, hm, fun _ _ => rfl⟩
  | cons a nodes ih =>
      obtain ⟨m₁, chainOf₁, hfirst, hm₁, ha, hkeep⟩ :=
        (outcome i).run_spec hm (hread a List.mem_cons_self)
      have hread₁ : ∀ b ∈ nodes, (m₁.heads.read b).isSome := by
        intro b hb
        by_cases hba : b = a
        · rw [hba]
          exact ha
        · rw [hkeep b hba]
          exact hread b (List.mem_cons_of_mem a hb)
      obtain ⟨m', chainOf', hrest, hm', hothers⟩ := ih (i + 1) hm₁ hread₁
      refine ⟨m', chainOf', by simp [replayHeads, hfirst, hrest], hm', fun x hx => ?_⟩
      rw [List.mem_cons, not_or] at hx
      rw [hothers x hx.2, hkeep x hx.1]

/-- What is looked at from the batch `k` on: after the skipped heads the batch, then what follows.
-/
lemma keep_batch (k : ℕ) (l : HeadNodes) :
    Positions.keep Scanned (5 * k * (k + 1)) l =
      (l.drop (iterBatchSize * k)).take iterBatchSize ++
        Positions.keep Scanned (5 * (k + 1) * (k + 1 + 1))
          ((l.drop (iterBatchSize * k)).drop iterBatchSize) := by
  have hgap : 5 * k * (k + 1) + iterBatchSize * k = batchStart k := by
    unfold batchStart iterBatchSize
    ring
  have hnext : batchStart k + iterBatchSize = 5 * (k + 1) * (k + 1 + 1) := by
    unfold batchStart iterBatchSize
    ring
  have hskip : Positions.keep Scanned (5 * k * (k + 1)) (l.take (iterBatchSize * k)) = [] := by
    refine Positions.keep_eq_nil fun j hlow hhigh => not_scanned_of_gap hlow ?_
    rw [List.length_take] at hhigh
    omega
  conv_lhs => rw [← List.take_append_drop (iterBatchSize * k) l]
  rw [Positions.keep_append, hskip, List.nil_append]
  generalize hmid : l.drop (iterBatchSize * k) = mid
  rcases List.eq_nil_or_concat mid with rfl | ⟨init, x, hne⟩
  · simp [Positions.keep]
  have hpos : 5 * k * (k + 1) + (l.take (iterBatchSize * k)).length = batchStart k := by
    have : 0 < mid.length := by simp [hne]
    rw [← hmid, List.length_drop] at this
    rw [List.length_take, Nat.min_eq_left (by omega), hgap]
  have hself : Positions.keep Scanned (batchStart k) (mid.take iterBatchSize) =
      mid.take iterBatchSize := by
    refine Positions.keep_eq_self fun j hlow hhigh => ⟨k, hlow, ?_⟩
    rw [List.length_take] at hhigh
    omega
  rw [hpos]
  conv_lhs => rw [← List.take_append_drop iterBatchSize mid]
  rw [Positions.keep_append, hself]
  rcases Nat.lt_or_ge mid.length iterBatchSize with hshort | hlong
  · simp [List.drop_eq_nil_of_le hshort.le, Positions.keep]
  · rw [List.length_take, Nat.min_eq_left hlong, hnext]

/-- **The loop** ends, and considers from the batch `k` on what stands at positions it looks at. -/
lemma scanLoop_spec (outcome : ℕ → ℕ → Attempt) {fuel k : ℕ} {s : ScanState}
    (hm : MapInv s.map chainOf) (h : HeadsFrom s.map.heads s.iter l)
    (hk : s.currentFinishHeadNum = iterBatchSize * k) (hfuel : l.length < fuel) :
    ∃ s', scanLoop outcome fuel s = some s' ∧ (∃ chainOf', MapInv s'.map chainOf') ∧
      s'.considered = s.considered ++
        pendingHeads (Positions.keep Scanned (5 * k * (k + 1)) l) := by
  induction fuel generalizing s k l chainOf with
  | zero => omega
  | succ fuel ih =>
      obtain ⟨p, hskip, hp⟩ := skipHeads_spec s.currentFinishHeadNum h
      obtain ⟨p', headNodes, hcol, hp', hnodes⟩ :=
        collectHeads_spec iterBatchSize hp .empty le_rfl
      rw [hk] at hp hcol hp' hnodes
      rw [Filled.empty_toList, List.nil_append] at hnodes
      generalize hmid : l.drop (iterBatchSize * k) = mid at hp hcol hp' hnodes
      obtain ⟨pr, tl, hc⟩ := id hp
      have hsub : ∀ a ∈ headNodes.toList, a ∈ (mid.take iterBatchSize).map Prod.fst := by
        rw [hnodes]
        exact fun a ha => pendingHeads_sublist.subset ha
      have hread : ∀ a ∈ headNodes.toList, (s.map.heads.read a).isSome := by
        intro a ha
        obtain ⟨x, hx, rfl⟩ := List.mem_map.mp (hsub a ha)
        rw [hc.read (show (x.1, x.2) ∈ mid from List.mem_of_mem_take hx)]
        rfl
      obtain ⟨m', chainOf', hreplay, hm', hothers⟩ :=
        replayHeads_spec (outcome s.currentFinishHeadNum) 0 hm hread
      have hbatch := congrArg pendingHeads (keep_batch k l)
      rw [pendingHeads_append, hmid, ← hnodes] at hbatch
      rw [hbatch]
      by_cases hfinish : mid.length < iterBatchSize
      · refine ⟨⟨m', p', s.currentFinishHeadNum + iterBatchSize,
          s.considered ++ headNodes.toList⟩, ?_, ⟨chainOf', hm'⟩, ?_⟩
        · simp [scanLoop, hk ▸ hskip, hk, hcol, hfinish, hk ▸ hreplay]
        · rw [List.drop_eq_nil_of_le hfinish.le]
          simp [Positions.keep, pendingHeads]
      · -- The heads behind the batch are other heads than those replayed.
        have hrest : HeadsFrom m'.heads p' (mid.drop iterBatchSize) := by
          obtain ⟨pr', tl', hc'⟩ := hp'
          refine ⟨pr', tl', hc'.frame fun a ha => hothers a fun hin => ?_⟩
          have hnodup := hc.nodup
          rw [← List.take_append_drop iterBatchSize mid, List.map_append] at hnodup
          exact List.disjoint_of_nodup_append hnodup (hsub a hin) ha
        have hlen : (mid.drop iterBatchSize).length < fuel := by
          have hle : mid.length ≤ l.length := by
            rw [← hmid, List.length_drop]
            exact Nat.sub_le _ _
          have : 0 < iterBatchSize := by decide
          rw [List.length_drop]
          omega
        obtain ⟨s', hloop, hinv, hcons⟩ := ih (k := k + 1)
          (s := ⟨m', p', s.currentFinishHeadNum + iterBatchSize,
            s.considered ++ headNodes.toList⟩) hm' hrest (by rw [hk]; ring) hlen
        refine ⟨s', ?_, hinv, ?_⟩
        · simpa [scanLoop, hk ▸ hskip, hk, hcol, hfinish, hk ▸ hreplay] using hk ▸ hloop
        · rw [hcons, List.append_assoc]

end Scan

/-! ## Results -/

/-- **What a scan covers.**  A scan of a bucket ends, whatever becomes of the heads it collects.  It
considers every head of the chain whose `replayedLsn` is below its `maxLsn`, each once, if and only
if all these heads stand at positions of some batch. -/
theorem vacuum_scan_coverage {m : HashMap} {chainOf : ℕ → EleNodes}
    (hm : MapInv m chainOf) {bucket : ℕ} {l : HeadNodes}
    (hl : HeadChain m.heads (m.nodeList bucket) l) (outcome : ℕ → ℕ → Attempt) :
    ∃ m' considered, scanBucket outcome m bucket = some (m', considered) ∧
      (∃ chainOf', MapInv m' chainOf') ∧
      (∀ a, a ∈ considered → ∃ head, (a, head) ∈ l ∧ head.replayedLsn < head.maxLsn) ∧
      (∀ a, considered.count a ≤ 1) ∧
      ((∀ a head, (a, head) ∈ l → head.replayedLsn < head.maxLsn → considered.count a = 1) ↔
        ∀ j a head, l[j]? = some (a, head) → head.replayedLsn < head.maxLsn → Scanned j) := by
  obtain ⟨tl, hc⟩ := hl
  obtain ⟨s, hloop, hinv, hcons⟩ := scanLoop_spec (k := 0) outcome
    (s := ⟨m, m.nodeList bucket, 0, []⟩) hm ⟨_, _, hc⟩ rfl (Nat.lt_succ_of_le hc.length_le)
  rw [List.nil_append] at hcons
  have hnodup : s.considered.Nodup := by
    rw [hcons]
    exact (hc.nodup.sublist (Positions.keep_sublist.map Prod.fst)).sublist pendingHeads_sublist
  -- An address is considered if its head, of which there is one, stands at a position of a batch.
  have hmem : ∀ {j a head}, l[j]? = some (a, head) → head.replayedLsn < head.maxLsn →
      (a ∈ s.considered ↔ Scanned j) := by
    intro j a head hj hpending
    rw [hcons, mem_pendingHeads]
    constructor
    · rintro ⟨head', hin, -⟩
      obtain ⟨i, hi, hS⟩ := Positions.mem_keep.mp hin
      have hij : i = j := by
        obtain ⟨hlt, -⟩ := List.getElem?_eq_some_iff.mp hi
        refine (List.getElem?_inj (by simpa using hlt) hc.nodup).mp ?_
        rw [List.getElem?_map, List.getElem?_map, hi, hj]
        rfl
      simpa [hij] using hS
    · exact fun hS => ⟨head, Positions.mem_keep.mpr ⟨j, hj, by simpa using hS⟩, hpending⟩
  refine ⟨s.map, s.considered, by rw [scanBucket, hloop]; rfl, hinv, fun a ha => ?_,
    List.nodup_iff_count_le_one.mp hnodup, ?_⟩
  · rw [hcons, mem_pendingHeads] at ha
    obtain ⟨head, hin, hpending⟩ := ha
    exact ⟨head, Positions.keep_sublist.subset hin, hpending⟩
  · constructor
    · intro hall j a head hj hpending
      rw [← hmem hj hpending, ← List.count_pos_iff,
        hall a head (List.mem_of_getElem? hj) hpending]
      exact Nat.one_pos
    · intro hall a head hin hpending
      obtain ⟨j, hj⟩ := List.mem_iff_getElem?.mp hin
      exact List.count_eq_one_of_mem hnodup ((hmem hj hpending).mpr (hall j a head hj hpending))

/-- Two blocks in one bucket, the first of them replayed already. -/
theorem vacuum_scan_coverage_two_blocks :
    ∃ m m' considered, Lts.Run MapStep (hashMapInit 1 (by decide))
        [.insertKey (blockKey 0) 10 0 true, .backgroundReplay 0,
          .insertKey (blockKey 1) 20 0 true] m ∧
      scanBucket (fun _ _ => .replayed) m 0 = some (m', considered) ∧ considered.count 1 = 1 := by
  have hrun : ∃ m head, Lts.Run MapStep (hashMapInit 1 (by decide))
        [.insertKey (blockKey 0) 10 0 true, .backgroundReplay 0,
          .insertKey (blockKey 1) 20 0 true] m ∧
      m.heads.fresh = 2 ∧ m.heads.read 1 = some head ∧ head.bucket = 0 ∧
      head.replayedLsn = 0 ∧ head.maxLsn = 20 :=
    ⟨_, _, .cons ⟨show 1 ≤ 10 by decide, rfl⟩ (.cons ⟨⟨_, rfl⟩, rfl⟩
      (.cons ⟨show 1 ≤ 20 by decide, rfl⟩ .nil)), rfl, rfl, rfl, rfl, rfl⟩
  obtain ⟨m, head, hrun, hfresh, hr, hbucket, hreplayed, hmax⟩ := hrun
  obtain ⟨chainOf, hm⟩ := reachable_inv hrun
  obtain ⟨buckets, hs⟩ := hm
  have hb := hs.bucket
  obtain ⟨m', considered, hscan, -, -, -, hiff⟩ :=
    vacuum_scan_coverage ⟨buckets, hs⟩ (hb.chains 0) fun _ _ => .replayed
  obtain ⟨tl, hc⟩ := hb.chains 0
  have hin : (1, head) ∈ buckets 0 := hc.mem_of_read ((hb.members 0 1 head hr).mpr hbucket) hr
  refine ⟨m, m', considered, hrun, hscan, hiff.mpr ?_ 1 head hin (by omega)⟩
  intro j a head' hj _
  have hlt : j < (buckets 0).length := (List.getElem?_eq_some_iff.mp hj).1
  have hle := hc.length_le
  exact ⟨0, Nat.zero_le _, show j < 5 * 0 * (0 + 3) + 10 by omega⟩

lemma run_of_foldlM {ops : List MapOp} {m m' : HashMap} (hall : ∀ op ∈ ops, ∀ m, Allowed m op)
    (h : ops.foldlM mapStep m = some m') : Lts.Run MapStep m ops m' := by
  induction ops generalizing m with
  | nil =>
      obtain rfl : m = m' := by simpa using h
      exact .nil
  | cons op ops ih =>
      rw [List.foldlM_cons, Option.bind_eq_bind, Option.bind_eq_some_iff] at h
      obtain ⟨m₁, hstep, hrest⟩ := h
      have hop : Allowed m op := hall op List.mem_cons_self m
      exact .cons ⟨hop, hstep⟩ (ih (fun op h => hall op (List.mem_cons_of_mem _ h)) hrest)

/-- Eleven blocks of a relation, 256 blocks apart, have the same hash value.  A scan of their bucket
considers the heads of the ten blocks inserted last; the head of block 0 stands behind them and is
skipped, although it has something to replay. -/
theorem eleventh_head_not_considered :
    ∃ m m' considered, Lts.Run MapStep (hashMapInit 1023 (by decide))
        ([0, 256, 512, 768, 1024, 1280, 1536, 1792, 2048, 2304, 2560].map fun blkNum =>
          .insertKey (blockKey blkNum) 10 0 true) m ∧
      m.bucketPos (blockKey 0) = 1018 ∧
      m.find (blockKey 0) = some (some 0) ∧
      (m.headOf (blockKey 0)).map (fun head => (head.replayedLsn, head.maxLsn)) =
        some (0, 10) ∧
      scanBucket (fun _ _ => .replayed) m 1018 = some (m', considered) ∧
      considered = [10, 9, 8, 7, 6, 5, 4, 3, 2, 1] := by
  let blocks : List Int64 := [0, 256, 512, 768, 1024, 1280, 1536, 1792, 2048, 2304, 2560]
  let ops : List MapOp := blocks.map fun blkNum =>
    .insertKey (blockKey blkNum) 10 0 true
  have hops : ∀ op ∈ ops, ∀ m, Allowed m op := by
    intro op hop m
    obtain ⟨blkNum, -, rfl⟩ := List.mem_map.mp hop
    exact show 1 ≤ 10 by decide
  have hall : ((ops.foldlM mapStep (hashMapInit 1023 (by decide))).bind fun m =>
      (scanBucket (fun _ _ => .replayed) m 1018).map fun r =>
        (m.bucketPos (blockKey 0), m.find (blockKey 0),
          (m.headOf (blockKey 0)).map fun head => (head.replayedLsn, head.maxLsn),
          r.2)) =
      some (1018, some (some 0), some (0, 10), [10, 9, 8, 7, 6, 5, 4, 3, 2, 1]) := by
    decide +kernel
  obtain ⟨m, hm, hscan⟩ := Option.bind_eq_some_iff.mp hall
  obtain ⟨⟨m', considered⟩, hcall, hvals⟩ := Option.map_eq_some_iff.mp hscan
  obtain ⟨hpos, hvals⟩ := Prod.mk.inj hvals
  obtain ⟨hfind, hvals⟩ := Prod.mk.inj hvals
  obtain ⟨hhead, hconsidered⟩ := Prod.mk.inj hvals
  exact ⟨m, m', considered, run_of_foldlM hops hm, hpos, hfind, hhead, hcall, hconsidered⟩

end GroundDB
