import GroundDB.PageStore.Reads

/-!
# Concurrent reads of one page

Any number of requests for the same page, each taking the steps of `ReadBufferCommon` one at a
time: the list lookup, the get from the key-value store, the put of the new version, the update of
`replayedLsn` and the delete of the old version.  The lookup waits for the head lock; it keeps the
lock exactly when there is something to replay, and the update releases it.

A request with nothing to replay has released the lock before its get, and the version it was told
to get may be deleted in between (`get_misses_deleted_version`).  This is the only thing that can
go wrong: `gets_find_versions`.
-/

namespace GroundDB

open PtrHeap History Function

section Concurrent

variable {Page : Type}

/-- Where a request stands. -/
inductive ReqState (Page : Type)
  | start
  /-- Nothing to replay: it will get this version, without the lock. -/
  | wantsVersion (replayedLsn : ℕ)
  /-- Holding the lock, with LSNs to replay on this version. -/
  | holdsList (replayedLsn : ℕ) (toReplayList : List ℕ)
  | gotBase (replayedLsn : ℕ) (toReplayList : List ℕ) (base : Page)
  /-- The new version is put; `replayedLsn` is still to be updated. -/
  | putDone (replayedLsn lastLsn : ℕ) (page : Page)
  /-- The lock is released; the old version is still to be deleted. -/
  | released (replayedLsn : ℕ) (page : Page)
  | finished (page : Page)
  /-- The version asked for was not there. -/
  | failed (version : ℕ)

/-- A node with requests in progress, and the holder of the page's head lock. -/
structure Conc (Page : Type) where
  node : Node Page
  headLock : Option ℕ
  reqs : ℕ → ReqState Page

/-- A step of the request with the given number. -/
inductive ConcOp
  | lookup (i : ℕ)
  | get (i : ℕ)
  | put (i : ℕ)
  | update (i : ℕ)
  | delete (i : ℕ)

/-- No request has started. -/
def Conc.init (node : Node Page) : Conc Page := ⟨node, none, fun _ => .start⟩

variable (basePage : BufferTag → Page) (redo : BufferTag → ℕ → Page → Page)
  (page : ReadRequest) (target : ℕ → ℕ)

/-- The steps of `ReadBufferCommon`.  The requests differ in their targets only. -/
def concStep (s : Conc Page) : ConcOp → Option (Conc Page)
  | .lookup i =>
      match s.reqs i, s.headLock with
      | .start, none => do
          let (map, answer) ← hashMapGetBlockReplayList s.node.map page.key (target i)
          let state := match answer.result with
            | none => .finished (basePage page.tag)
            | some list =>
                if list.listLen = 0 then .wantsVersion list.replayedLsn
                else .holdsList list.replayedLsn list.toReplayList
          some { node := { s.node with map := map }
                 headLock := if LockOp.held answer.lockOps then some i else none
                 reqs := update s.reqs i state }
      | _, _ => none
  | .get i =>
      match s.reqs i with
      | .wantsVersion v =>
          let state := match s.node.kv page.tag v with
            | none => .failed v
            | some targetPage => .finished targetPage
          some { s with reqs := update s.reqs i state }
      | .holdsList replayedLsn toReplayList =>
          let state := match replayBase basePage s.node.kv page.tag replayedLsn with
            | none => .failed replayedLsn
            | some base => .gotBase replayedLsn toReplayList base
          some { s with reqs := update s.reqs i state }
      | _ => none
  | .put i =>
      match s.reqs i with
      | .gotBase replayedLsn toReplayList base => do
          let newPage := applyLsnList redo page.tag toReplayList base
          let lastLsn ← toReplayList.getLast?
          some { s with
            node := { s.node with kv := putPage s.node.kv page.tag lastLsn newPage }
            reqs := update s.reqs i (.putDone replayedLsn lastLsn newPage) }
      | _ => none
  | .update i =>
      match s.reqs i with
      | .putDone replayedLsn lastLsn newPage => do
          let (map, _, lockOps) ← hashMapUpdateReplayedLsn s.node.map page.key lastLsn true
          some { node := { s.node with map := map }
                 headLock := if LockOp.held lockOps then s.headLock else none
                 reqs := update s.reqs i (.released replayedLsn newPage) }
      | _ => none
  | .delete i =>
      match s.reqs i with
      | .released replayedLsn newPage =>
          some { s with
            node := { s.node with kv :=
              if replayedLsn > 0 then deletePage s.node.kv page.tag replayedLsn else s.node.kv }
            reqs := update s.reqs i (.finished newPage) }
      | _ => none

/-- A lookup is made with a target not below the page's first listed LSN and not below
`replayedLsn`. -/
def TargetInRange (s : Conc Page) : ConcOp → Prop
  | .lookup i => ∃ head first, s.node.map.headOf page.key = some head ∧
      (entryLsns head.lsnEntry.toList).head? = some first ∧
      first ≤ target i ∧ head.replayedLsn ≤ target i
  | _ => True

/-- One step of some request. -/
def ConcStep (s : Conc Page) (op : ConcOp) (s' : Conc Page) : Prop :=
  TargetInRange page target s op ∧ concStep basePage redo page target s op = some s'

/-- A version is not deleted while another request that found nothing to replay is about to get
it. -/
def NotAwaited (s : Conc Page) : ConcOp → Prop
  | .delete i => ∀ replayedLsn newPage, s.reqs i = .released replayedLsn newPage →
      ∀ j, s.reqs j ≠ .wantsVersion replayedLsn
  | _ => True

/-! ## The invariant -/

/-- What holds of a request that stands at the given point.  `stored` are the versions of the
page. -/
def ReqOk (stored : ℕ → Option Page) (headLock : Option ℕ) (head : HashNodeHead) (i : ℕ) :
    ReqState Page → Prop
  | .start => headLock ≠ some i
  | .wantsVersion v => headLock ≠ some i ∧ v ≤ head.replayedLsn ∧ stored v ≠ none
  | .holdsList r l => headLock = some i ∧ r = head.replayedLsn ∧
      ∃ last, l.getLast? = some last ∧ r < last ∧ last ≤ head.maxLsn
  | .gotBase r l _ => headLock = some i ∧ r = head.replayedLsn ∧
      ∃ last, l.getLast? = some last ∧ r < last ∧ last ≤ head.maxLsn
  | .putDone r last _ => headLock = some i ∧ r = head.replayedLsn ∧ r < last ∧
      last ≤ head.maxLsn ∧ stored last ≠ none
  | .released r _ => headLock ≠ some i ∧ r < head.replayedLsn
  | .finished _ => headLock ≠ some i
  | .failed _ => False

/-- The page has a list, the version at `replayedLsn` is stored, and every request is where it
should be. -/
structure ConcOk (s : Conc Page) (chainOf : ℕ → EleNodes) (head : HashNodeHead)
    (chain : EleNodes) : Prop where
  map : MapInv s.node.map chainOf
  list : pageList s.node.map chainOf page.key = some (head, chain)
  first_pos : ∀ first, (entryLsns head.lsnEntry.toList).head? = some first → 0 < first
  stored : 0 < head.replayedLsn → s.node.kv page.tag head.replayedLsn ≠ none
  reqs : ∀ i, ReqOk (s.node.kv page.tag) s.headLock head i (s.reqs i)

variable {basePage redo page target} {s s' : Conc Page}
  {chainOf : ℕ → EleNodes} {head : HashNodeHead}
  {chain : EleNodes} {i : ℕ}

/-- One request moves, and the others still stand where they stood. -/
lemma reqOk_update {stored stored' : ℕ → Option Page} {lock lock' : Option ℕ}
    {head' : HashNodeHead} {reqs : ℕ → ReqState Page} {state : ReqState Page}
    (h : ∀ j, ReqOk stored lock head j (reqs j)) (hi : ReqOk stored' lock' head' i state)
    (hothers : ∀ j, j ≠ i → ReqOk stored lock head j (reqs j) →
      ReqOk stored' lock' head' j (reqs j)) :
    ∀ j, ReqOk stored' lock' head' j (update reqs i state j) := by
  intro j
  by_cases hj : j = i
  · subst hj
    rwa [update_self]
  · rw [update_of_ne hj]
    exact hothers j hj (h j)

/-- What a request relies on in the others' steps: its part in the lock, a `replayedLsn` that does
not move while it holds the lock, and the versions it is going to use. -/
lemma ReqOk.of_other {stored stored' : ℕ → Option Page} {lock lock' : Option ℕ}
    {head' : HashNodeHead} {j : ℕ} {state : ReqState Page}
    (h : ReqOk stored lock head j state) (hlock : lock' = some j ↔ lock = some j)
    (hmax : head'.maxLsn = head.maxLsn) (hle : head.replayedLsn ≤ head'.replayedLsn)
    (hheld : lock = some j → head'.replayedLsn = head.replayedLsn)
    (hstored : ∀ v, state = .wantsVersion v ∨ head.replayedLsn < v → stored v ≠ none →
      stored' v ≠ none) :
    ReqOk stored' lock' head' j state := by
  cases state with
  | start => exact hlock.not.mpr h
  | wantsVersion v =>
      obtain ⟨hno, hv, hsome⟩ := h
      exact ⟨hlock.not.mpr hno, hv.trans hle, hstored v (Or.inl rfl) hsome⟩
  | holdsList r l =>
      obtain ⟨hhas, rfl, last, hlast, hlt, hlm⟩ := h
      exact ⟨hlock.mpr hhas, (hheld hhas).symm, last, hlast, hlt, hmax ▸ hlm⟩
  | gotBase r l base =>
      obtain ⟨hhas, rfl, last, hlast, hlt, hlm⟩ := h
      exact ⟨hlock.mpr hhas, (hheld hhas).symm, last, hlast, hlt, hmax ▸ hlm⟩
  | putDone r last p =>
      obtain ⟨hhas, rfl, hlt, hlm, hsome⟩ := h
      exact ⟨hlock.mpr hhas, (hheld hhas).symm, hlt, hmax ▸ hlm, hstored last (Or.inr hlt) hsome⟩
  | released r p =>
      obtain ⟨hno, hr⟩ := h
      exact ⟨hlock.not.mpr hno, hr.trans_le hle⟩
  | finished p => exact hlock.not.mpr h
  | failed v => exact h

/-- A target not below `replayedLsn`: the LSNs in between are collected. -/
lemma getBlockReplayList_from {eles : Heap HashNodeEle} {targetLsn : ℕ}
    (hinv : VersionListInv eles head chain) (hle : head.replayedLsn ≤ targetLsn) :
    getBlockReplayList head eles targetLsn = some (.collected head.replayedLsn
      (between head.replayedLsn targetLsn (listLsns head chain))) := by
  rcases hle.lt_or_eq with hlt | heq
  · exact getBlockReplayList_newer hinv hlt
  · rw [← heq, getBlockReplayList_same, between_eq_nil fun x _ => by omega]
    rfl

/-- With a target not below the first listed LSN, nothing to replay means that something was
replayed. -/
lemma replayed_pos_of_between_nil {targetLsn first : ℕ}
    (hfirst : (entryLsns head.lsnEntry.toList).head? = some first) (hpos : 0 < first)
    (hle : first ≤ targetLsn)
    (hnil : between head.replayedLsn targetLsn (listLsns head chain) = []) :
    0 < head.replayedLsn := by
  by_contra hzero
  have hmem : first ∈ entryLsns head.lsnEntry.toList := List.mem_of_head? hfirst
  have hin : first ∈ between head.replayedLsn targetLsn (listLsns head chain) := by
    exact mem_between.mpr ⟨List.mem_append_left _ hmem, by omega, hle⟩
  rw [hnil] at hin
  cases hin

/-- **The lookup** finds nothing to replay and asks for the current version, or keeps the lock. -/
lemma lookup_ok (h : ConcOk page s chainOf head chain)
    (hrange : TargetInRange page target s (.lookup i))
    (hstep : concStep basePage redo page target s (.lookup i) = some s') :
    ConcOk page s' chainOf head chain := by
  obtain ⟨full, first, hfull, hfirst, hlefirst, hle⟩ := hrange
  obtain ⟨chain', hon⟩ := (headOf_eq_some h.map).mp hfull
  have hlist' := (onList_iff_pageList h.map).mp ⟨full, hon, rfl⟩
  obtain ⟨rfl, rfl⟩ : full.core = head ∧ chain' = chain := by simpa [h.list] using hlist'.symm
  have hinv := (h.map.pageList_inv h.list).1
  rcases hashMapGetBlockReplayList_spec h.map page.key (target i) with
    ⟨hnone, _⟩ | ⟨g, c, hg, map, answer, hcall, hans, hup⟩
  · rw [h.list] at hnone
    cases hnone
  obtain ⟨rfl, rfl⟩ : full.core = g ∧ chain' = c := by simpa [h.list] using hg
  rw [getBlockReplayList_from hinv hle, Option.some.injEq] at hans
  subst hans
  have hreqs := h.reqs
  cases hst : s.reqs i <;> cases hlk : s.headLock <;>
    simp only [concStep, hst, hlk, hcall, Option.bind_eq_bind, Option.bind_some,
      Option.some.injEq, reduceCtorEq] at hstep
  subst hstep
  refine ⟨hup.inv, hup.here, h.first_pos, h.stored, ?_⟩
  rw [hlk] at hreqs
  cases hl : (between full.core.replayedLsn (target i) (listLsns full.core chain')).getLast? with
  | none =>
      have hnil := List.getLast?_eq_none_iff.mp hl
      have hpos := replayed_pos_of_between_nil hfirst (h.first_pos first hfirst) hlefirst hnil
      simp only [hnil, ReplayAnswer.collected, List.length_nil, if_true, LockOp.held]
      exact reqOk_update hreqs ⟨by simp, le_rfl, h.stored hpos⟩ fun _ _ hj => hj
  | some last =>
      obtain ⟨hmem, hlt, _⟩ := mem_between.mp (List.mem_of_getLast? hl)
      have hlen : (between full.core.replayedLsn (target i)
          (listLsns full.core chain')).length ≠ 0 := by
        rw [Ne, List.length_eq_zero_iff]
        rintro hnil
        rw [hnil] at hl
        cases hl
      simp only [ReplayAnswer.collected, if_neg hlen, LockOp.held]
      refine reqOk_update hreqs ⟨rfl, rfl, last, hl, hlt, ?_⟩ fun j hj hok => ?_
      · exact le_of_getLast? hinv.increasing hinv.head_max hmem
      · exact hok.of_other (by simp [hj.symm]) rfl le_rfl (fun _ => rfl) fun _ _ hv => hv

/-- **The get** finds the version, with or without the lock. -/
lemma get_ok (h : ConcOk page s chainOf head chain)
    (hstep : concStep basePage redo page target s (.get i) = some s') :
    ConcOk page s' chainOf head chain := by
  have hi := h.reqs i
  cases hst : s.reqs i with
  | wantsVersion v =>
      rw [hst] at hi
      obtain ⟨hno, _, hsome⟩ := hi
      obtain ⟨targetPage, hget⟩ := Option.ne_none_iff_exists'.mp hsome
      simp only [concStep, hst, hget, Option.some.injEq] at hstep
      subst hstep
      exact ⟨h.map, h.list, h.first_pos, h.stored, reqOk_update h.reqs hno fun _ _ hj => hj⟩
  | holdsList r l =>
      rw [hst] at hi
      obtain ⟨hhas, rfl, hlast⟩ := hi
      obtain ⟨base, hbase⟩ : ∃ base,
          replayBase basePage s.node.kv page.tag head.replayedLsn = some base := by
        unfold replayBase
        split_ifs with hpos
        · exact Option.ne_none_iff_exists'.mp (h.stored hpos)
        · exact ⟨_, rfl⟩
      simp only [concStep, hst, hbase, Option.some.injEq] at hstep
      subst hstep
      exact ⟨h.map, h.list, h.first_pos, h.stored,
        reqOk_update h.reqs ⟨hhas, rfl, hlast⟩ fun _ _ hj => hj⟩
  | _ => simp [concStep, hst] at hstep

/-- **The put** stores a version above `replayedLsn`. -/
lemma put_ok (h : ConcOk page s chainOf head chain)
    (hstep : concStep basePage redo page target s (.put i) = some s') :
    ConcOk page s' chainOf head chain := by
  have hi := h.reqs i
  cases hst : s.reqs i with
  | gotBase r l base =>
      rw [hst] at hi
      obtain ⟨hhas, rfl, last, hlast, hlt, hlm⟩ := hi
      simp only [concStep, hst, hlast, Option.bind_eq_bind, Option.bind_some,
        Option.some.injEq] at hstep
      subst hstep
      set newPage := applyLsnList redo page.tag l base
      have hkeep : ∀ v, s.node.kv page.tag v ≠ none →
          putPage s.node.kv page.tag last newPage page.tag v ≠ none := by
        intro v hv
        rw [putPage_apply]
        split_ifs
        · simp
        · exact hv
      refine ⟨h.map, h.list, h.first_pos, fun hpos => hkeep _ (h.stored hpos), ?_⟩
      refine reqOk_update h.reqs ⟨hhas, rfl, hlt, hlm, by simp⟩ fun j _ hok => ?_
      exact hok.of_other Iff.rfl rfl le_rfl (fun _ => rfl) fun v _ hv => hkeep v hv
  | _ => simp [concStep, hst] at hstep

/-- **The update** moves `replayedLsn` to the version that was put, and releases the lock. -/
lemma update_ok (h : ConcOk page s chainOf head chain)
    (hstep : concStep basePage redo page target s (.update i) = some s') :
    ∃ chainOf' head', ConcOk page s' chainOf' head' chain := by
  have hi := h.reqs i
  cases hst : s.reqs i with
  | putDone r last newPage =>
      rw [hst] at hi
      obtain ⟨hhas, rfl, hlt, hlm, hsome⟩ := hi
      obtain ⟨map', chainOf', hcall, hup⟩ := hashMapUpdateReplayedLsn_spec h.map h.list hlm true
      simp only [concStep, hst, hcall, Option.bind_eq_bind, Option.bind_some, Option.some.injEq,
        LockOp.held] at hstep
      subst hstep
      rw [max_eq_right hlt.le] at hup
      refine ⟨chainOf', { head with replayedLsn := last }, hup.inv, hup.here, h.first_pos,
        fun _ => hsome, ?_⟩
      refine reqOk_update h.reqs ⟨by simp, hlt⟩ fun j hj hok => ?_
      refine hok.of_other ?_ rfl hlt.le (fun hc => ?_) fun _ _ hv => hv
      · simp [hhas, hj.symm]
      · rw [hhas, Option.some.injEq] at hc
        exact absurd hc.symm hj
  | _ => simp [concStep, hst] at hstep

/-- **The delete** removes a version below `replayedLsn`, which nobody is about to get. -/
lemma delete_ok (h : ConcOk page s chainOf head chain) (hfree : NotAwaited s (.delete i))
    (hstep : concStep basePage redo page target s (.delete i) = some s') :
    ConcOk page s' chainOf head chain := by
  have hi := h.reqs i
  cases hst : s.reqs i with
  | released r newPage =>
      rw [hst] at hi
      obtain ⟨hno, hlt⟩ := hi
      simp only [concStep, hst, Option.some.injEq] at hstep
      subst hstep
      have hkeep : ∀ v, v ≠ r → s.node.kv page.tag v ≠ none →
          (if r > 0 then deletePage s.node.kv page.tag r else s.node.kv) page.tag v ≠ none := by
        intro v hv hsome
        split_ifs
        · simpa [hv] using hsome
        · exact hsome
      refine ⟨h.map, h.list, h.first_pos, fun hpos => hkeep _ hlt.ne' (h.stored hpos), ?_⟩
      refine reqOk_update h.reqs hno fun j _ hok => ?_
      refine hok.of_other Iff.rfl rfl le_rfl (fun _ => rfl) fun v hv hsome => hkeep v ?_ hsome
      rintro rfl
      rcases hv with hwants | habove
      · exact hfree v newPage hst j hwants
      · omega
  | _ => simp [concStep, hst] at hstep

/-! ## Runs -/

/-- **Every step** keeps the requests in order. -/
theorem concStep_ok {op : ConcOp} (h : ∃ chainOf head chain, ConcOk page s chainOf head chain)
    (hstep : Lts.Guarded (ConcStep basePage redo page target) NotAwaited s op s') :
    ∃ chainOf head chain, ConcOk page s' chainOf head chain := by
  obtain ⟨chainOf, head, chain, hok⟩ := h
  obtain ⟨hfree, hrange, hrun⟩ := hstep
  cases op with
  | lookup i => exact ⟨_, _, _, lookup_ok hok hrange hrun⟩
  | get i => exact ⟨_, _, _, get_ok hok hrun⟩
  | put i => exact ⟨_, _, _, put_ok hok hrun⟩
  | update i =>
      obtain ⟨chainOf', head', hok'⟩ := update_ok hok hrun
      exact ⟨_, _, _, hok'⟩
  | delete i => exact ⟨_, _, _, delete_ok hok hfree hrun⟩

lemma concOk_init {node : Node Page} {parsed : BufferTag → List ℕ}
    (h : NodeOk basePage redo node parsed chainOf)
    (hlist : pageList node.map chainOf page.key = some (head, chain)) :
    ConcOk page (Conc.init node) chainOf head chain := by
  obtain ⟨tag, _, htag, hok⟩ := h.page hlist
  obtain rfl : page.tag = tag := by rw [page.tag_eq, htag]
  obtain ⟨first, hfirst, hmem, _⟩ := hok.exists_first
  refine ⟨h.map, hlist, fun x hx => ?_, fun hpos => ?_, fun i => ?_⟩
  · obtain rfl : first = x := by simpa [hfirst] using hx
    exact hok.positive first hmem
  · change node.kv page.tag head.replayedLsn ≠ none
    rw [hok.versions, if_pos ⟨rfl, hpos⟩]
    simp
  · simp [Conc.init, ReqOk]

/-- **Gets find their versions.**  Start any number of requests for an indexed page in any state
the storage node reaches, and interleave their steps in any way the head lock allows: as long as no
version is deleted while another request is about to get it, no get ever fails. -/
theorem gets_find_versions {n : ℕ} {hn : 0 < n} {ops : List StorageOp} {st : Storage Page}
    (hreach : Lts.Run (StorageStep basePage redo) (Storage.init Page n hn) ops st)
    (hhead : st.node.map.headOf page.key = some head) {tr : List ConcOp}
    (hrun : Lts.Run (Lts.Guarded (ConcStep basePage redo page target) NotAwaited)
      (Conc.init st.node) tr s) (i v : ℕ) :
    s.reqs i ≠ .failed v := by
  obtain ⟨chainOf, hst⟩ := storage_reachable hreach
  obtain ⟨chain, hon⟩ := (headOf_eq_some hst.map).mp hhead
  have hlist := (onList_iff_pageList hst.map).mp ⟨head, hon, rfl⟩
  obtain ⟨_, _, _, hok⟩ := hrun.invariant ⟨_, _, _, concOk_init hst hlist⟩
    fun _ _ _ h hs => concStep_ok h hs
  intro hfail
  have hreq := hok.reqs i
  rw [hfail] at hreq
  exact hreq

end Concurrent

/-! ### Two requests -/

/-- The storage node with a version stored at 10 and a record at 20 indexed after that. -/
def replayedOnce : List StorageOp :=
  [.parse pageSeven 10, .read (readSeven 10), .parse pageSeven 20]

/-- One request wants the page as of 10, the other as of 20. -/
def twoTargets (i : ℕ) : ℕ := if i = 0 then 10 else 20

/-- With two requests, of which the first is finished, the second may delete. -/
lemma notAwaited_finished {Page : Type} {s : Conc Page} {p newPage : Page} {replayedLsn : ℕ}
    (h0 : s.reqs 0 = .finished p) (h1 : s.reqs 1 = .released replayedLsn newPage)
    (hrest : ∀ j, s.reqs (j + 2) = .start) : NotAwaited s (.delete 1) := by
  intro r q _ j
  match j with
  | 0 => simp [h0]
  | 1 => simp [h1]
  | j + 2 => simp [hrest]

/-- The request for 10 gets its version before the request for 20 deletes it. -/
theorem gets_find_versions_in_order :
    ∃ st s, LogRun replayedOnce st ∧
      Lts.Run (ConcStep (fun _ => []) logRedo (readSeven 0) twoTargets) (Conc.init st.node)
        [.lookup 0, .lookup 1, .get 1, .put 1, .update 1, .get 0, .delete 1] s ∧
      ∀ i v, s.reqs i ≠ .failed v := by
  have hex : ∃ st s head, LogRun replayedOnce st ∧
      st.node.map.headOf (ReadRequest.key (readSeven 0)) = some head ∧
      Lts.Run (Lts.Guarded (ConcStep (fun _ => []) logRedo (readSeven 0) twoTargets) NotAwaited)
        (Conc.init st.node)
        [.lookup 0, .lookup 1, .get 1, .put 1, .update 1, .get 0, .delete 1] s :=
    ⟨_, _, _, .cons ⟨⟨show 1 ≤ 10 by decide, by decide⟩, rfl⟩
      (.cons ⟨trivial, rfl⟩ (.cons ⟨⟨show 1 ≤ 20 by decide, by decide⟩, rfl⟩ .nil)), rfl,
      .cons ⟨trivial, ⟨_, 10, rfl, rfl, by decide, by decide⟩, rfl⟩
      (.cons ⟨trivial, ⟨_, 10, rfl, rfl, by decide, by decide⟩, rfl⟩
      (.cons ⟨trivial, trivial, rfl⟩ (.cons ⟨trivial, trivial, rfl⟩
      (.cons ⟨trivial, trivial, rfl⟩ (.cons ⟨trivial, trivial, rfl⟩
      (.cons ⟨notAwaited_finished rfl rfl fun _ => rfl, trivial, rfl⟩ .nil))))))⟩
  obtain ⟨st, s, head, hreach, hhead, hrun⟩ := hex
  exact ⟨st, s, hreach, hrun.of_guarded, gets_find_versions hreach hhead hrun⟩

/-- The request for 20 deletes the version at 10 between the lookup and the get of the request
for 10. -/
theorem get_misses_deleted_version :
    ∃ st s, LogRun replayedOnce st ∧
      Lts.Run (ConcStep (fun _ => []) logRedo (readSeven 0) twoTargets) (Conc.init st.node)
        [.lookup 0, .lookup 1, .get 1, .put 1, .update 1, .delete 1, .get 0] s ∧
      s.reqs 0 = .failed 10 :=
  ⟨_, _, .cons ⟨⟨show 1 ≤ 10 by decide, by decide⟩, rfl⟩
    (.cons ⟨trivial, rfl⟩ (.cons ⟨⟨show 1 ≤ 20 by decide, by decide⟩, rfl⟩ .nil)),
    .cons ⟨⟨_, 10, rfl, rfl, by decide, by decide⟩, rfl⟩
    (.cons ⟨⟨_, 10, rfl, rfl, by decide, by decide⟩, rfl⟩
    (.cons ⟨trivial, rfl⟩ (.cons ⟨trivial, rfl⟩ (.cons ⟨trivial, rfl⟩
    (.cons ⟨trivial, rfl⟩ (.cons ⟨trivial, rfl⟩ .nil)))))), rfl⟩

end GroundDB
