import GroundDB.HashMap.ReplayList

/-!
# The background vacuumer on one version list

`BackgroundReplayHeadNode` collects the next LSNs to replay into a fixed array, walking the head
array and then the element nodes, and frees on the way every node it has finished with, except the
last one.  What it does to the key-value store with the LSNs it collected is modelled with the
store; here a pass returns them.

`replayHeadNode_spec` is the one fact about a pass that the rest uses: it collects the first
`maxReplayVersionSize` pending LSNs, drops some nodes at the front of the chain, all of them below
the new `replayedLsn` and never the last node, and keeps the invariant.
-/

namespace GroundDB

open PtrHeap

/-- `MAX_REPLAY_VERSION_SIZE`. -/
def maxReplayVersionSize : ℕ := 20

/-- The array `lsnList` of a pass. -/
abbrev LsnBuf := Filled ℕ maxReplayVersionSize

/-- Collecting from one entry array; the loop is left when `lsnList` is full. -/
def collectBatch (replayedLsn : ℕ) : List LsnEntry → LsnBuf → Option LsnBuf
  | [], lsnList => some lsnList
  | e :: es, lsnList => do
      let lsnList ← if replayedLsn < e.lsn then lsnList.push e.lsn else some lsnList
      if lsnList.toList.length ≥ maxReplayVersionSize then some lsnList
      else collectBatch replayedLsn es lsnList

/-- The back link of the node after a freed one. -/
def relinkNext (eles : Heap HashNodeEle) (nextEle prevEle : Ptr) : Option (Heap HashNodeEle) :=
  match nextEle with
  | none => some eles
  | some b => do
      let next ← eles.read b
      eles.write b { next with prevEle := prevEle }

/-- `VacuumHashNode`: unlink a node and free it. -/
def vacuumHashNode (head : HashNodeHead) (eles : Heap HashNodeEle) (a : ℕ) :
    Option (HashNodeHead × Heap HashNodeEle) := do
  let ele ← eles.read a
  if some a = head.nextEle then do
    let eles ← relinkNext eles ele.nextEle none
    let eles ← eles.free a
    some ({ head with nextEle := ele.nextEle }, eles)
  else do
    let prevAddr ← ele.prevEle
    let prev ← eles.read prevAddr
    let eles ← eles.write prevAddr { prev with nextEle := ele.nextEle }
    let eles ← relinkNext eles ele.nextEle ele.prevEle
    let eles ← eles.free a
    some (head, eles)

/-- A node is freed only when another follows it. -/
def vacuumIfFollowed (head : HashNodeHead) (eles : Heap HashNodeEle) (a : ℕ) (ele : HashNodeEle) :
    Option (HashNodeHead × Heap HashNodeEle) :=
  if ele.nextEle ≠ none then vacuumHashNode head eles a else some (head, eles)

/-- The walk along the element nodes. -/
def replayEles (replayedLsn : ℕ) : ℕ → Ptr → HashNodeHead → Heap HashNodeEle → LsnBuf →
    Option (HashNodeHead × Heap HashNodeEle × LsnBuf)
  | _, none, head, eles, lsnList => some (head, eles, lsnList)
  | 0, some _, _, _, _ => none
  | fuel + 1, some a, head, eles, lsnList => do
      let ele ← eles.read a
      let last ← ele.lsnEntry.toList.getLast?
      if replayedLsn < last.lsn then do
        let lsnList ← collectBatch replayedLsn ele.lsnEntry.toList lsnList
        if lsnList.toList.length = maxReplayVersionSize then do
          let lastLsn ← lsnList.toList.getLast?
          let (head, eles) ←
            if lastLsn = last.lsn then vacuumIfFollowed head eles a ele else some (head, eles)
          some (head, eles, lsnList)
        else do
          let (head, eles) ← vacuumIfFollowed head eles a ele
          replayEles replayedLsn fuel ele.nextEle head eles lsnList
      else do
        let (head, eles) ← vacuumIfFollowed head eles a ele
        replayEles replayedLsn fuel ele.nextEle head eles lsnList

/-- Collecting from the head array, which is skipped when all of it was replayed. -/
def collectHead (head : HashNodeHead) : Option LsnBuf := do
  let last ← head.lsnEntry.toList.getLast?
  if head.replayedLsn < last.lsn then
    collectBatch head.replayedLsn head.lsnEntry.toList Filled.empty
  else some Filled.empty

/-- `BackgroundReplayHeadNode` on the version list: the new head and nodes, and the LSNs that are
applied. -/
def replayHeadNode (head : HashNodeHead) (eles : Heap HashNodeEle) :
    Option (HashNodeHead × Heap HashNodeEle × List ℕ) := do
  let lsnList ← collectHead head
  let (head, eles, lsnList) ←
    replayEles head.replayedLsn eles.fresh head.nextEle head eles lsnList
  match lsnList.toList.getLast? with
  | none => some (head, eles, [])
  | some lastLsn => some ({ head with replayedLsn := lastLsn }, eles, lsnList.toList)

/-! ## Collecting -/

section Collect

variable (replayedLsn : ℕ)

/-- **The array is never overrun**: with room at the start, collecting succeeds, and the array then
holds the first LSNs that fit. -/
lemma collectBatch_eq (es : List LsnEntry) {lsnList : LsnBuf}
    (hroom : lsnList.toList.length < maxReplayVersionSize) :
    ∃ lsnList', collectBatch replayedLsn es lsnList = some lsnList' ∧
      lsnList'.toList = (lsnList.toList ++ (entryLsns es).filter (replayedLsn < ·)).take
        maxReplayVersionSize := by
  induction es generalizing lsnList with
  | nil =>
      refine ⟨lsnList, rfl, ?_⟩
      rw [List.take_of_length_le (by simpa [entryLsns] using lsnList.length_le)]
      simp [entryLsns]
  | cons e es ih =>
      by_cases hlt : replayedLsn < e.lsn
      · obtain ⟨buf, hbuf, hitems⟩ := Filled.push_spec hroom e.lsn
        simp only [collectBatch, hlt, if_true, hbuf, Option.bind_eq_bind, Option.bind_some]
        split_ifs with hfull
        · refine ⟨buf, rfl, ?_⟩
          have hlen : (lsnList.toList ++ [e.lsn]).length = maxReplayVersionSize := by
            rw [← hitems]
            exact le_antisymm buf.length_le hfull
          simp only [entryLsns, List.map_cons, List.filter_cons, hlt, decide_true, if_true]
          rw [hitems, List.append_cons _ e.lsn (List.filter _ _),
            List.take_append_of_le_length hlen.ge, List.take_of_length_le hlen.le]
        · obtain ⟨buf', hrun, hitems'⟩ := ih (not_le.mp hfull)
          refine ⟨buf', hrun, ?_⟩
          rw [hitems', hitems]
          simp [entryLsns, hlt]
      · simp only [collectBatch, hlt, if_false, Option.bind_eq_bind, Option.bind_some,
          not_le.mpr hroom, ge_iff_le]
        obtain ⟨buf', hrun, hitems'⟩ := ih hroom
        refine ⟨buf', hrun, ?_⟩
        rw [hitems']
        simp [entryLsns, hlt]

end Collect

/-! ## Freeing the first node -/

/-- The chain left when the nodes before it are freed: its first node has no predecessor. -/
def unlinkFront : EleNodes → EleNodes
  | [] => []
  | (a, n) :: rest => (a, { n with prevEle := none }) :: rest

@[simp] lemma unlinkFront_addrs (chain : EleNodes) :
    (unlinkFront chain).map Prod.fst = chain.map Prod.fst := by
  cases chain <;> rfl

@[simp] lemma eleLsns_unlinkFront (chain : EleNodes) :
    eleLsns (unlinkFront chain) = eleLsns chain := by
  cases chain <;> simp [unlinkFront]

lemma unlinkFront_drop (chain : EleNodes) (k : ℕ) :
    unlinkFront ((unlinkFront chain).drop k) = unlinkFront (chain.drop k) := by
  cases chain with
  | nil => rfl
  | cons x xs => cases k <;> rfl

section Vacuum

variable {eles : Heap HashNodeEle} {head : HashNodeHead} {a b : ℕ} {n m : HashNodeEle}
  {rest : EleNodes}

lemma vacuumHashNode_first
    (hc : EleChain eles head.nextEle ((a, n) :: (b, m) :: rest) head.tailEle) :
    ∃ eles', vacuumHashNode head eles a = some ({ head with nextEle := n.nextEle }, eles') ∧
      EleChain eles' n.nextEle (unlinkFront ((b, m) :: rest)) head.tailEle ∧
      ListFrame eles eles' ((a, n) :: (b, m) :: rest) (unlinkFront ((b, m) :: rest)) := by
  have hnodup := Chain.nodup hc
  simp only [List.map_cons, List.nodup_cons, List.mem_cons, not_or] at hnodup
  obtain ⟨⟨hab, harest⟩, hbrest, _⟩ := hnodup
  obtain ⟨hp, hr, _, hnext, hrb, _, hrest⟩ := hc
  obtain ⟨eles₁, hw, hfresh₁, hread₁⟩ := Heap.write_spec hrb { m with prevEle := none }
  have hra : eles₁.read a = some n := by rw [hread₁, if_neg hab, hr]
  obtain ⟨eles₂, hf, hfresh₂, hread₂⟩ := Heap.free_spec hra
  have hread : ∀ x, x ≠ a → x ≠ b → eles₂.read x = eles.read x := by
    intro x hxa hxb
    rw [hread₂, if_neg hxa, hread₁, if_neg hxb]
  refine ⟨eles₂, ?_, ⟨hnext, ?_, rfl, ?_⟩, ⟨by rw [hfresh₂, hfresh₁], ?_, ?_⟩⟩
  · simp [vacuumHashNode, relinkNext, hr, hp, hnext, hrb, hw, hf]
  · rw [hread₂, if_neg (Ne.symm hab), hread₁, if_pos rfl]
  · refine hrest.frame fun x hx => hread x ?_ ?_
    · rintro rfl
      exact harest hx
    · rintro rfl
      exact hbrest hx
  · intro x hx _
    simp only [List.map_cons, List.mem_cons, not_or] at hx
    exact hread x hx.1 hx.2.1
  · intro x hx
    rw [unlinkFront_addrs] at hx
    exact Or.inl (List.mem_cons_of_mem _ hx)

end Vacuum

/-! ## The walk along the element nodes -/

/-- What the walk leaves of the list: nodes at the front are gone, their LSNs are covered by what
was replayed before or collected now, and the last node is still there. -/
structure Walked (eles : Heap HashNodeEle) (head : HashNodeHead)
    (chain : EleNodes) (replayedLsn : ℕ) (lsnList : List ℕ) (k : ℕ)
    (eles' : Heap HashNodeEle) (head' : HashNodeHead) : Prop where
  links : EleChain eles' head'.nextEle (unlinkFront (chain.drop k)) head.tailEle
  head_eq : head' = { head with nextEle := head'.nextEle }
  frame : ListFrame eles eles' chain (unlinkFront (chain.drop k))
  keeps_tail : chain ≠ [] → k < chain.length
  covered : ∀ x ∈ eleLsns (chain.take k), ∃ y, (y = replayedLsn ∨ y ∈ lsnList) ∧ x ≤ y

section Walk

variable {eles : Heap HashNodeEle} {head : HashNodeHead} {chain : EleNodes}
  {replayedLsn : ℕ} {lsns : List ℕ}

lemma unlinkFront_of_chain {p tl : Ptr} (hc : EleChain eles p chain tl) :
    unlinkFront chain = chain := by
  cases chain with
  | nil => rfl
  | cons x xs =>
      obtain ⟨a, n⟩ := x
      have hprev : n.prevEle = none := hc.2.2.1
      rw [unlinkFront, ← hprev]

lemma Walked.refl (hc : EleChain eles head.nextEle chain head.tailEle) :
    Walked eles head chain replayedLsn lsns 0 eles head where
  links := by rwa [List.drop_zero, unlinkFront_of_chain hc]
  head_eq := rfl
  frame := by
    rw [List.drop_zero, unlinkFront_of_chain hc]
    exact ListFrame.refl
  keeps_tail := List.length_pos_iff.mpr
  covered := by simp

/-- One node freed, then what the rest of the walk does. -/
lemma Walked.cons {a : ℕ} {n : HashNodeEle} {rest : EleNodes} {k : ℕ}
    {eles₁ eles' : Heap HashNodeEle} {head' : HashNodeHead} (hne : rest ≠ [])
    (hframe : ListFrame eles eles₁ ((a, n) :: rest) (unlinkFront rest))
    (hcov : ∀ x ∈ entryLsns n.lsnEntry.toList, ∃ y, (y = replayedLsn ∨ y ∈ lsns) ∧ x ≤ y)
    (hw : Walked eles₁ { head with nextEle := n.nextEle } (unlinkFront rest) replayedLsn lsns k
      eles' head') :
    Walked eles head ((a, n) :: rest) replayedLsn lsns (k + 1) eles' head' where
  links := by
    have := hw.links
    rwa [unlinkFront_drop] at this
  head_eq := hw.head_eq
  frame := by
    have := hframe.trans hw.frame
    rwa [unlinkFront_drop] at this
  keeps_tail _ := by
    have hlen : (unlinkFront rest).length = rest.length := by
      rw [← List.length_map Prod.fst, unlinkFront_addrs, List.length_map]
    have hne' : unlinkFront rest ≠ [] := by
      rw [← List.length_pos_iff, hlen]
      exact List.length_pos_iff.mpr hne
    simpa [hlen] using hw.keeps_tail hne'
  covered x hx := by
    rw [List.take_succ_cons, eleLsns_cons, List.mem_append] at hx
    rcases hx with hx | hx
    · exact hcov x hx
    · refine hw.covered x ?_
      cases rest with
      | nil => exact absurd rfl hne
      | cons y ys => cases k <;> exact hx

lemma vacuumIfFollowed_last (a : ℕ) {n : HashNodeEle} (hnext : n.nextEle = none) :
    vacuumIfFollowed head eles a n = some (head, eles) := by
  simp [vacuumIfFollowed, hnext]

/-- What a walk over `chain` must deliver, starting with `lsnList`. -/
def WalkGoal (eles : Heap HashNodeEle) (head : HashNodeHead) (chain : EleNodes)
    (replayedLsn : ℕ) (lsnList : LsnBuf)
    (run : Option (HashNodeHead × Heap HashNodeEle × LsnBuf)) : Prop :=
  ∃ head' eles' lsnList' k, run = some (head', eles', lsnList') ∧
    lsnList'.toList = (lsnList.toList ++ (eleLsns chain).filter (replayedLsn < ·)).take
      maxReplayVersionSize ∧
    Walked eles head chain replayedLsn lsnList'.toList k eles' head'

/-- Leaving a node behind and going on with the next, where `lsnList'` holds all of the node's
pending LSNs. -/
lemma walk_next {fuel a : ℕ} {n : HashNodeEle} {xs : EleNodes} {lsnList lsnList' : LsnBuf}
    (hc : EleChain eles head.nextEle ((a, n) :: xs) head.tailEle) (hcol : lsnList'.toList =
      lsnList.toList ++ (entryLsns n.lsnEntry.toList).filter (replayedLsn < ·))
    (ih : ∀ (eles : Heap HashNodeEle) (head : HashNodeHead),
      EleChain eles head.nextEle (unlinkFront xs) head.tailEle →
      WalkGoal eles head (unlinkFront xs) replayedLsn lsnList'
        (replayEles replayedLsn fuel head.nextEle head eles lsnList')) :
    WalkGoal eles head ((a, n) :: xs) replayedLsn lsnList (do
      let (head, eles) ← vacuumIfFollowed head eles a n
      replayEles replayedLsn fuel n.nextEle head eles lsnList') := by
  cases xs with
  | nil =>
      have hnext : n.nextEle = none := hc.2.2.2.1
      rw [vacuumIfFollowed_last a hnext]
      refine ⟨head, eles, lsnList', 0, ?_, ?_, Walked.refl hc⟩
      · simp only [hnext, Option.bind_eq_bind, Option.bind_some]
        cases fuel <;> rfl
      · rw [eleLsns_cons, eleLsns_nil, List.append_nil, ← hcol,
          List.take_of_length_le lsnList'.length_le]
  | cons y ys =>
      obtain ⟨b, m⟩ := y
      have hnext : n.nextEle = some b := hc.2.2.2.1
      obtain ⟨eles₁, hvac, hc₁, hframe⟩ := vacuumHashNode_first hc
      obtain ⟨head', eles', buf, k, hrun, hitems, hwalk⟩ :=
        ih eles₁ { head with nextEle := n.nextEle } hc₁
      have hsub : ∀ x ∈ lsnList'.toList, x ∈ buf.toList := by
        intro x hx
        rw [hitems]
        exact (List.prefix_take_iff.mpr ⟨List.prefix_append _ _, lsnList'.length_le⟩).subset hx
      refine ⟨head', eles', buf, k + 1, ?_, ?_, Walked.cons (by simp) hframe ?_ hwalk⟩
      · simp only [vacuumIfFollowed, hnext, ne_eq, reduceCtorEq, not_false_eq_true, if_true]
        rw [← hnext, hvac]
        simpa using hrun
      · rw [hitems, eleLsns_unlinkFront, hcol, eleLsns_cons (a, n), List.filter_append,
          List.append_assoc]
      · intro x hx
        by_cases hlt : replayedLsn < x
        · refine ⟨x, Or.inr (hsub x ?_), le_rfl⟩
          rw [hcol]
          exact List.mem_append_right _ (List.mem_filter.mpr ⟨hx, by simpa using hlt⟩)
        · exact ⟨replayedLsn, Or.inl rfl, not_lt.mp hlt⟩

lemma walk_stop {a lastLsn : ℕ} {n : HashNodeEle} {xs : EleNodes} {lsnList lsnList' : LsnBuf}
    (hc : EleChain eles head.nextEle ((a, n) :: xs) head.tailEle)
    (hs : (entryLsns n.lsnEntry.toList).Pairwise (· < ·))
    (hmax : (entryLsns n.lsnEntry.toList).getLast? = some n.maxLsn) (hcol : lsnList'.toList =
      (lsnList.toList ++ (entryLsns n.lsnEntry.toList).filter (replayedLsn < ·)).take
        maxReplayVersionSize)
    (hfull : lsnList'.toList.length = maxReplayVersionSize)
    (hlast : lsnList'.toList.getLast? = some lastLsn) :
    WalkGoal eles head ((a, n) :: xs) replayedLsn lsnList (do
      let (head, eles) ←
        if lastLsn = n.maxLsn then vacuumIfFollowed head eles a n else some (head, eles)
      some (head, eles, lsnList')) := by
  have hitems : lsnList'.toList =
      (lsnList.toList ++ (eleLsns ((a, n) :: xs)).filter (replayedLsn < ·)).take
        maxReplayVersionSize := by
    have hlen : maxReplayVersionSize ≤
        (lsnList.toList ++ (entryLsns n.lsnEntry.toList).filter (replayedLsn < ·)).length := by
      have := congrArg List.length hcol
      rw [hfull, List.length_take] at this
      omega
    rw [eleLsns_cons, List.filter_append, ← List.append_assoc,
      List.take_append_of_le_length hlen, hcol]
  by_cases heq : lastLsn = n.maxLsn
  · cases xs with
    | nil =>
        have hnext : n.nextEle = none := hc.2.2.2.1
        exact ⟨head, eles, lsnList', 0, by simp [heq, vacuumIfFollowed_last a hnext], hitems,
          Walked.refl hc⟩
    | cons y ys =>
        obtain ⟨b, m⟩ := y
        have hnext : n.nextEle = some b := hc.2.2.2.1
        obtain ⟨eles₁, hvac, hc₁, hframe⟩ := vacuumHashNode_first hc
        refine ⟨{ head with nextEle := n.nextEle }, eles₁, lsnList', 1, ?_, hitems,
          Walked.cons (by simp) hframe ?_ (Walked.refl hc₁)⟩
        · simp [heq, vacuumIfFollowed, hnext] at hvac ⊢
          simp [hvac]
        · intro x hx
          refine ⟨lastLsn, Or.inr (List.mem_of_getLast? hlast), ?_⟩
          rw [heq]
          exact le_of_getLast? hs hmax hx
  · exact ⟨head, eles, lsnList', 0, by simp [heq], hitems, Walked.refl hc⟩

lemma eles_max_unlinkFront
    (hmax : ∀ x ∈ chain, (entryLsns x.2.lsnEntry.toList).getLast? = some x.2.maxLsn) :
    ∀ x ∈ unlinkFront chain, (entryLsns x.2.lsnEntry.toList).getLast? = some x.2.maxLsn := by
  cases chain with
  | nil => exact hmax
  | cons y ys =>
      obtain ⟨b, m⟩ := y
      intro x hx
      rcases List.mem_cons.mp hx with rfl | hx
      · exact hmax (b, m) (by simp)
      · exact hmax x (List.mem_cons_of_mem _ hx)

lemma walk_nil (fuel : ℕ) (lsnList : LsnBuf) (hc : EleChain eles head.nextEle [] head.tailEle) :
    WalkGoal eles head [] replayedLsn lsnList
      (replayEles replayedLsn fuel head.nextEle head eles lsnList) := by
  have hnil : head.nextEle = none := hc.1
  refine ⟨head, eles, lsnList, 0, ?_, ?_, Walked.refl hc⟩
  · rw [hnil]
    cases fuel <;> rfl
  · simp [List.take_of_length_le lsnList.length_le]

/-- **The walk** collects the first pending LSNs that fit, and frees a front part of the chain
without its last node. -/
lemma replayEles_spec (replayedLsn : ℕ) {fuel : ℕ} {lsnList : LsnBuf}
    (hc : EleChain eles head.nextEle chain head.tailEle) (hs : (eleLsns chain).Pairwise (· < ·))
    (hmax : ∀ x ∈ chain, (entryLsns x.2.lsnEntry.toList).getLast? = some x.2.maxLsn)
    (hfuel : chain.length ≤ fuel) (hroom : lsnList.toList.length < maxReplayVersionSize) :
    WalkGoal eles head chain replayedLsn lsnList
      (replayEles replayedLsn fuel head.nextEle head eles lsnList) := by
  induction fuel generalizing eles head chain lsnList with
  | zero =>
      obtain rfl := List.length_eq_zero_iff.mp (Nat.le_zero.mp hfuel)
      exact walk_nil 0 lsnList hc
  | succ fuel ih =>
      cases chain with
      | nil => exact walk_nil (fuel + 1) lsnList hc
      | cons x xs =>
          obtain ⟨a, n⟩ := x
          have hp : head.nextEle = some a := hc.1
          have hr : eles.read a = some n := hc.2.1
          rw [eleLsns_cons] at hs
          obtain ⟨hsn, hsxs, _⟩ := List.pairwise_append.mp hs
          have hnmax : (entryLsns n.lsnEntry.toList).getLast? = some n.maxLsn :=
            hmax (a, n) (by simp)
          obtain ⟨e, he, hem⟩ := getLast?_of_entryLsns hnmax
          -- the walk over the nodes behind this one
          have hnext : ∀ (buf : LsnBuf), buf.toList.length < maxReplayVersionSize →
              ∀ (eles : Heap HashNodeEle) (head : HashNodeHead),
                EleChain eles head.nextEle (unlinkFront xs) head.tailEle →
                WalkGoal eles head (unlinkFront xs) replayedLsn buf
                  (replayEles replayedLsn fuel head.nextEle head eles buf) := by
            intro buf hbuf eles₁ head₁ hc₁
            refine ih hc₁ (by rwa [eleLsns_unlinkFront])
              (eles_max_unlinkFront fun x hx => hmax x (List.mem_cons_of_mem _ hx)) ?_ hbuf
            rw [← List.length_map Prod.fst, unlinkFront_addrs, List.length_map]
            simpa using hfuel
          simp only [hp, replayEles, hr, he, hem, Option.bind_eq_bind, Option.bind_some]
          split_ifs with hlt
          · obtain ⟨buf, hrun, hcol⟩ := collectBatch_eq replayedLsn n.lsnEntry.toList
              hroom
            simp only [hrun, Option.bind_some]
            split_ifs with hfull
            · obtain ⟨lastLsn, hlast⟩ : ∃ y, buf.toList.getLast? = some y := by
                refine Option.ne_none_iff_exists'.mp (mt List.getLast?_eq_none_iff.mp ?_)
                rintro hnil
                rw [hnil] at hfull
                cases hfull
              simp only [hlast, Option.bind_some]
              exact walk_stop hc hsn hnmax hcol hfull hlast
            · have hroom' : buf.toList.length < maxReplayVersionSize :=
                lt_of_le_of_ne buf.length_le hfull
              refine walk_next hc ?_ (hnext buf hroom')
              rw [hcol, List.length_take] at hroom'
              rw [hcol, List.take_of_length_le (by omega)]
          · refine walk_next hc ?_ (hnext lsnList hroom)
            have hnone : (entryLsns n.lsnEntry.toList).filter (replayedLsn < ·) = [] :=
              filter_lt_eq_nil fun y hy => (le_of_getLast? hsn hnmax hy).trans (not_lt.mp hlt)
            rw [hnone, List.append_nil]

end Walk

/-! ## A whole pass -/

section Pass

variable {eles : Heap HashNodeEle} {head : HashNodeHead} {chain : EleNodes}

/-- What a pass does: `lsnList` are the LSNs applied, `k` the number of nodes freed. -/
structure Replayed (eles : Heap HashNodeEle) (head : HashNodeHead)
    (chain : EleNodes) (lsnList : List ℕ) (k : ℕ) (eles' : Heap HashNodeEle)
    (head' : HashNodeHead) : Prop where
  inv : VersionListInv eles' head' (unlinkFront (chain.drop k))
  frame : ListFrame eles eles' chain (unlinkFront (chain.drop k))
  place : SamePlace head head'
  entries : head'.lsnEntry = head.lsnEntry
  maxLsn : head'.maxLsn = head.maxLsn
  /-- The LSNs applied are the first pending ones. -/
  applied : lsnList = (pendingLsns head chain).take maxReplayVersionSize
  /-- `replayedLsn` becomes the last LSN applied. -/
  replayed : head'.replayedLsn = lsnList.getLast?.getD head.replayedLsn
  keeps_tail : chain ≠ [] → k < chain.length
  /-- Only nodes that were replayed entirely are freed. -/
  freed_le : ∀ x ∈ eleLsns (chain.take k), x ≤ head'.replayedLsn

lemma mem_pendingLsns {x : ℕ} :
    x ∈ pendingLsns head chain ↔ x ∈ listLsns head chain ∧ head.replayedLsn < x := by
  simp [pendingLsns]

lemma getLast?_listLsns_drop (hinv : VersionListInv eles head chain) {k : ℕ}
    (hk : chain ≠ [] → k < chain.length) :
    (listLsns head (chain.drop k)).getLast? = some head.maxLsn := by
  rcases List.eq_nil_or_concat chain with rfl | ⟨init, ⟨a, n⟩, rfl⟩
  · simpa using hinv.head_max
  rw [List.concat_eq_append] at hinv hk ⊢
  have hle : k ≤ init.length := by
    have := hk (by simp)
    simp only [List.length_append, List.length_cons, List.length_nil] at this
    omega
  obtain ⟨l, hl⟩ := List.getLast?_eq_some_iff.mp (hinv.ele_max (a, n) (by simp))
  rw [List.drop_append_of_le_length hle, ← hinv.tail_max]
  simp [listLsns, hl, ← List.append_assoc]

lemma mem_dropLast_unlinkFront {x : ℕ × HashNodeEle} (hx : x ∈ (unlinkFront chain).dropLast) :
    ∃ y ∈ chain.dropLast, x.2.lsnEntry = y.2.lsnEntry := by
  rcases chain with _ | ⟨⟨a, n⟩, _ | ⟨y, ys⟩⟩
  · simp [unlinkFront] at hx
  · simp [unlinkFront] at hx
  · simp only [unlinkFront, List.dropLast_cons_cons] at hx ⊢
    rcases List.mem_cons.mp hx with rfl | hx
    · exact ⟨(a, n), by simp, rfl⟩
    · exact ⟨x, List.mem_cons_of_mem _ hx, rfl⟩

/-- The list left by a pass is well formed. -/
lemma versionListInv_of_walked (hinv : VersionListInv eles head chain) {lsnList : List ℕ} {k r : ℕ}
    {eles' : Heap HashNodeEle} {head' : HashNodeHead}
    (hw : Walked eles head chain head.replayedLsn lsnList k eles' head') (hr : r ≤ head.maxLsn) :
    VersionListInv eles' { head' with replayedLsn := r } (unlinkFront (chain.drop k)) := by
  have hhead := hw.head_eq
  have hsub : ∀ x ∈ chain.drop k, x ∈ chain := fun x hx => List.mem_of_mem_drop hx
  have hlsns : listLsns { head' with replayedLsn := r } (unlinkFront (chain.drop k)) =
      listLsns head (chain.drop k) := by
    rw [hhead]
    simp [listLsns]
  have hlast := getLast?_listLsns_drop hinv hw.keeps_tail
  refine ⟨?_, ?_, ?_, ?_, ?_, eles_max_unlinkFront fun x hx => hinv.ele_max x (hsub x hx), ?_, ?_⟩
  · have := hw.links
    rw [hhead]
    exact this
  · rw [hlsns]
    refine hinv.increasing.sublist (List.Sublist.append_left ?_ _)
    exact (List.drop_sublist k chain).flatMap _
  · rw [hhead]
    exact hinv.head_nonempty
  · intro hne
    rw [hhead]
    refine hinv.head_full ?_
    rintro rfl
    simp [unlinkFront] at hne
  · intro x hx
    obtain ⟨y, hy, hxy⟩ := mem_dropLast_unlinkFront hx
    rw [List.dropLast_drop_eq_drop_dropLast] at hy
    rw [hxy]
    exact hinv.ele_full y (List.mem_of_mem_drop hy)
  · rw [hlsns, hhead]
    exact hlast
  · rw [hhead]
    exact hr

lemma pending_sorted (hinv : VersionListInv eles head chain) :
    (pendingLsns head chain).Pairwise (· < ·) := hinv.increasing.filter _

/-- The head array alone never fills the array of a pass. -/
lemma collectHead_spec (hinv : VersionListInv eles head chain) :
    ∃ lsnList, collectHead head = some lsnList ∧
      lsnList.toList = (entryLsns head.lsnEntry.toList).filter (head.replayedLsn < ·) ∧
      lsnList.toList.length < maxReplayVersionSize := by
  obtain ⟨e, he, _, hle⟩ := hinv.head_last
  have hlen : ((entryLsns head.lsnEntry.toList).filter (head.replayedLsn < ·)).length <
      maxReplayVersionSize := by
    have h₁ := List.length_filter_le (fun x => decide (head.replayedLsn < x))
      (entryLsns head.lsnEntry.toList)
    have h₂ := head.lsnEntry.length_le
    rw [entryLsns, List.length_map] at h₁
    simp only [hashHeadNum, maxReplayVersionSize] at h₂ ⊢
    exact lt_of_le_of_lt (h₁.trans h₂) (by decide)
  by_cases hlt : head.replayedLsn < e.lsn
  · obtain ⟨buf, hrun, hcol⟩ := collectBatch_eq head.replayedLsn
      head.lsnEntry.toList (show Filled.empty.toList.length < maxReplayVersionSize by decide)
    rw [Filled.empty_toList, List.nil_append, List.take_of_length_le hlen.le] at hcol
    exact ⟨buf, by simp [collectHead, he, hlt, hrun], hcol, hcol ▸ hlen⟩
  · have hnone : (entryLsns head.lsnEntry.toList).filter (head.replayedLsn < ·) = [] :=
      filter_lt_eq_nil fun x hx => (hle x hx).trans (not_lt.mp hlt)
    exact ⟨Filled.empty, by simp [collectHead, he, hlt], hnone.symm, by decide⟩

/-- **One pass of the vacuumer**. -/
theorem replayHeadNode_spec (hinv : VersionListInv eles head chain) :
    ∃ head' eles' lsnList k, replayHeadNode head eles = some (head', eles', lsnList) ∧
      Replayed eles head chain lsnList k eles' head' := by
  obtain ⟨buf₀, hcol₀, hbuf₀, hroom⟩ := collectHead_spec hinv
  have hlinks : Chain HashNodeEle.nextEle _ eles none head.nextEle chain head.tailEle none :=
    hinv.links
  obtain ⟨head₁, eles₁, buf, k, hrun, hbuf, hw⟩ := replayEles_spec
    head.replayedLsn hinv.links hinv.eles_sorted hinv.ele_max hlinks.length_le hroom
  rw [hbuf₀, ← List.filter_append] at hbuf
  change buf.toList = (pendingLsns head chain).take maxReplayVersionSize at hbuf
  have hsorted : buf.toList.Pairwise (· < ·) := by
    rw [hbuf]
    exact (pending_sorted hinv).sublist (List.take_sublist _ _)
  have hmem : ∀ x ∈ buf.toList, x ∈ listLsns head chain ∧ head.replayedLsn < x := by
    intro x hx
    rw [hbuf] at hx
    exact mem_pendingLsns.mp (List.mem_of_mem_take hx)
  have hr : buf.toList.getLast?.getD head.replayedLsn ≤ head.maxLsn := by
    cases hl : buf.toList.getLast? with
    | none => exact hinv.replayed_le
    | some y => exact hinv.le_maxLsn (hmem y (List.mem_of_getLast? hl)).1
  have hhead := hw.head_eq
  refine ⟨{ head₁ with replayedLsn := buf.toList.getLast?.getD head.replayedLsn }, eles₁,
    buf.toList, k, ?_, ?_⟩
  · simp only [replayHeadNode, hcol₀, hrun, Option.bind_eq_bind, Option.bind_some]
    cases hl : buf.toList.getLast? with
    | none =>
        rw [List.getLast?_eq_none_iff.mp hl, hhead]
        rfl
    | some y => rfl
  · refine ⟨versionListInv_of_walked hinv hw hr, hw.frame, ?_, ?_, ?_, hbuf, rfl, hw.keeps_tail,
      ?_⟩
    · rw [hhead]
      exact ⟨rfl, rfl, rfl, rfl, rfl⟩
    · rw [hhead]
    · rw [hhead]
    · intro x hx
      obtain ⟨y, hy, hxy⟩ := hw.covered x hx
      exact hxy.trans (le_getLastD hsorted (fun z hz => (hmem z hz).2) hy)

lemma Replayed.replayed_ge {lsnList : List ℕ} {k : ℕ} {eles' : Heap HashNodeEle}
    {head' : HashNodeHead} (h : Replayed eles head chain lsnList k eles' head') :
    head.replayedLsn ≤ head'.replayedLsn := by
  rw [h.replayed]
  cases hl : lsnList.getLast? with
  | none => exact le_rfl
  | some y =>
      have hy := List.mem_of_getLast? hl
      rw [h.applied] at hy
      exact (mem_pendingLsns.mp (List.mem_of_mem_take hy)).2.le

/-- **What a pass frees**: nodes of the list, all of whose LSNs are replayed, and never the
tail. -/
lemma Replayed.freed {lsnList : List ℕ} {k : ℕ} {eles' : Heap HashNodeEle} {head' : HashNodeHead}
    (hinv : VersionListInv eles head chain)
    (h : Replayed eles head chain lsnList k eles' head') {a : ℕ} {n : HashNodeEle}
    (hr : eles.read a = some n) (hr' : eles'.read a = none) :
    (a, n) ∈ chain ∧ (∀ x ∈ entryLsns n.lsnEntry.toList, x ≤ head'.replayedLsn) ∧
      head.tailEle ≠ some a := by
  have hmem : a ∈ chain.map Prod.fst := by
    by_contra hout
    rw [h.frame.same a hout (Heap.lt_fresh hr), hr] at hr'
    cases hr'
  have hkept : a ∉ (chain.drop k).map Prod.fst := by
    intro hin
    rw [← unlinkFront_addrs] at hin
    obtain ⟨⟨b, g⟩, hb, rfl⟩ := List.mem_map.mp hin
    rw [Chain.read h.inv.links hb] at hr'
    cases hr'
  have hnode : (a, n) ∈ chain := Chain.mem_of_read hinv.links hmem hr
  have hfront : (a, n) ∈ chain.take k := by
    rw [← List.take_append_drop k chain, List.mem_append] at hnode
    exact hnode.resolve_right fun hin => hkept (List.mem_map_of_mem hin)
  refine ⟨hnode, fun x hx => h.freed_le x (List.mem_flatMap.mpr ⟨_, hfront, hx⟩), fun htail => ?_⟩
  rcases List.eq_nil_or_concat chain with rfl | ⟨init, ⟨b, g⟩, rfl⟩
  · simp at hnode
  · rw [List.concat_eq_append] at hinv h hkept
    have hk : k ≤ init.length := by
      have := h.keeps_tail (by simp)
      simp only [List.length_append, List.length_cons, List.length_nil] at this
      omega
    rw [hinv.tail_eq.1, Option.some.injEq] at htail
    refine hkept ?_
    rw [List.drop_append_of_le_length hk, htail]
    simp

lemma Replayed.pending {lsnList : List ℕ} {k : ℕ} {eles' : Heap HashNodeEle}
    {head' : HashNodeHead} (hinv : VersionListInv eles head chain)
    (h : Replayed eles head chain lsnList k eles' head') :
    pendingLsns head' (unlinkFront (chain.drop k)) =
      (pendingLsns head chain).drop maxReplayVersionSize := by
  have hdrop : pendingLsns head' (unlinkFront (chain.drop k)) =
      (listLsns head chain).filter (head'.replayedLsn < ·) := by
    -- the LSNs of the freed nodes are not pending any more
    have hfreed : (eleLsns (chain.take k)).filter (head'.replayedLsn < ·) = [] :=
      filter_lt_eq_nil h.freed_le
    have hsplit : eleLsns chain = eleLsns (chain.take k) ++ eleLsns (chain.drop k) := by
      rw [← eleLsns_append, List.take_append_drop]
    rw [pendingLsns, listLsns, listLsns, h.entries, eleLsns_unlinkFront, hsplit,
      List.filter_append, List.filter_append, List.filter_append, hfreed, List.nil_append]
  rw [hdrop, h.replayed, h.applied]
  exact filter_after_take (by decide) hinv.increasing head.replayedLsn

end Pass

end GroundDB
